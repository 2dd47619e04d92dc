import Thesaurus.Wire.Header

/-!
# Wire — what the decoder reads

The decoder as a relation: `Reads bs v rest` has one rule for each way in which a call of `decode`
succeeds, and `Hostile bs` one for each way in which it panics.

* `decode_eq_ok_iff`: `decode` returns a value exactly when the relation derives it.
* `decode_safe_iff`: `decode` returns a value or an error exactly when its input is not hostile.
-/

namespace Thesaurus
open Bytes Outcome

mutual

/-- The decoder reads `v` off the input, and `rest` is left. -/
inductive Reads : Bytes → RespValue → Bytes → Prop where
  | simpleString {bs reader : Bytes} {text : String} (h : Header bs 43 text reader) :
      Reads bs (.simpleString text) reader
  | simpleError {bs reader : Bytes} {text : String} (h : Header bs 45 text reader) :
      Reads bs (.simpleError text) reader
  | integer {bs reader : Bytes} {text : String} {n : Int} (h : Header bs 58 text reader)
      (hn : parseI64 text = some n) : Reads bs (.integer n) reader
  | nullBulk {bs reader : Bytes} {text : String} (h : Header bs 36 text reader)
      (hl : parseLength text = .ok (-1)) : Reads bs (.bulkString none) reader
  | bulk {bs reader : Bytes} {text s : String} {n : Nat} (h : Header bs 36 text reader)
      (hl : parseLength text = .ok n) (hsize : n + 2 ≤ 2 ^ 63 - 1) (hlen : n + 2 ≤ reader.length)
      (hs : fromUtf8 (reader.take n) = some s) :
      Reads bs (.bulkString (some s)) (reader.drop (n + 2))
  | nullArray {bs reader : Bytes} {text : String} (h : Header bs 42 text reader)
      (hl : parseLength text = .ok (-1)) : Reads bs (.array none) reader
  | array {bs reader rest : Bytes} {text : String} {n : Nat} {items : List RespValue}
      (h : Header bs 42 text reader) (hl : parseLength text = .ok n)
      (hitems : ReadsItems n reader items rest) : Reads bs (.array (some items)) rest

/-- The decoder reads `n` values off the input, one after the other. -/
inductive ReadsItems : Nat → Bytes → List RespValue → Bytes → Prop where
  | nil (bs : Bytes) : ReadsItems 0 bs [] bs
  | cons {n : Nat} {bs bs' rest : Bytes} {v : RespValue} {vs : List RespValue}
      (h : Reads bs v bs') (t : ReadsItems n bs' vs rest) : ReadsItems (n + 1) bs (v :: vs) rest

end

/-- The decoder, on its way through the input, meets a line that starts with a character of more
than one byte, or the length of a bulk string that no buffer can have. -/
inductive Hostile : Bytes → Prop where
  | wide {bs : Bytes} (h : WideHeader bs) : Hostile bs
  | length {bs reader : Bytes} {text : String} {n : Nat} (h : Header bs 36 text reader)
      (hl : parseLength text = .ok n) (hn : 2 ^ 63 - 1 < n + 2) : Hostile bs
  | item {bs reader reader' : Bytes} {text : String} {n k : Nat} {vs : List RespValue}
      (h : Header bs 42 text reader) (hl : parseLength text = .ok n) (hk : k < n)
      (hitems : ReadsItems k reader vs reader') (hbad : Hostile reader') : Hostile bs

/-! ### Lengths -/

theorem parseLength_cases (text : String) :
    (∃ e, parseLength text = .err e) ∨ parseLength text = .ok (-1) ∨
      ∃ n : Nat, parseLength text = .ok n := by
  cases h : parseLength text with
  | err e => exact .inl ⟨e, rfl⟩
  | panic =>
      unfold parseLength at h
      split at h
      · cases h
      · split at h <;> cases h
  | ok n =>
      have := (parseLength_bounds h).1
      rcases Int.lt_or_le n 0 with hn | hn
      · exact .inr (.inl (by rw [show n = -1 by omega]))
      · exact .inr (.inr ⟨n.toNat, by rw [Int.toNat_of_nonneg hn]⟩)

theorem parseBulkString_null {text : String} (hl : parseLength text = .ok (-1)) (reader : Bytes) :
    parseBulkString text reader = .ok (.bulkString none, reader) := by
  rw [parseBulkString, hl]
  rfl

theorem parseBulkString_err {text : String} {e : RespError} (hl : parseLength text = .err e)
    (reader : Bytes) : parseBulkString text reader = .err e := by
  rw [parseBulkString, hl]
  rfl

theorem parseBulkString_nat {text : String} {n : Nat} (hl : parseLength text = .ok n)
    (reader : Bytes) :
    parseBulkString text reader =
      if 2 ^ 63 - 1 < n + 2 then .panic
      else if reader.length < n + 2 then .err .unexpectedEof
      else
        match fromUtf8 (reader.take n) with
        | some s => .ok (.bulkString (some s), reader.drop (n + 2))
        | none   => .err .invalidUtf8 := by
  have hne : ¬(n : Int) = -1 := by omega
  have htake : (reader.take (n + 2)).take n = reader.take n := by
    rw [List.take_take, Nat.min_eq_left (by omega)]
  rw [parseBulkString, hl]
  simp only [ok_bind, hne, if_false, Int.toNat_natCast, bulkStringFromBytes, htake, gt_iff_lt]
  split
  · rfl
  · split
    · rfl
    · cases fromUtf8 (reader.take n) <;> rfl

theorem parseArray_null {dec : Bytes → Outcome RespError (RespValue × Bytes)} {text : String}
    (hl : parseLength text = .ok (-1)) (reader : Bytes) :
    parseArray dec text reader = .ok (.array none, reader) := by
  rw [parseArray, hl]
  rfl

theorem parseArray_err {dec : Bytes → Outcome RespError (RespValue × Bytes)} {text : String}
    {e : RespError} (hl : parseLength text = .err e) (reader : Bytes) :
    parseArray dec text reader = .err e := by
  rw [parseArray, hl]
  rfl

theorem parseArray_nat {dec : Bytes → Outcome RespError (RespValue × Bytes)} {text : String}
    {n : Nat} (hl : parseLength text = .ok n) (reader : Bytes) :
    parseArray dec text reader =
      parseElements dec n reader >>= fun p => .ok (.array (some p.1), p.2) := by
  have hne : ¬(n : Int) = -1 := by omega
  rw [parseArray, hl]
  simp only [ok_bind, hne, if_false, Int.toNat_natCast]
  cases n with
  | zero => rfl
  | succ n => rw [if_neg (by omega)]; rfl

/-! ### Values -/

theorem readsItems_of_parseElements {dec : Bytes → Outcome RespError (RespValue × Bytes)}
    (hdec : ∀ {bs rest v}, dec bs = .ok (v, rest) → Reads bs v rest) {n : Nat} {bs rest : Bytes}
    {vs : List RespValue} (h : parseElements dec n bs = .ok (vs, rest)) :
    ReadsItems n bs vs rest := by
  induction n generalizing bs vs with
  | zero => cases h; exact .nil _
  | succ n ih =>
      unfold parseElements at h
      obtain ⟨⟨v, bs₁⟩, hv, h⟩ := bind_eq_ok.mp h
      obtain ⟨⟨vs', bs₂⟩, hvs, h⟩ := bind_eq_ok.mp h
      cases h
      exact .cons (hdec hv) (ih hvs)

theorem reads_of_decodeFuel {fuel : Nat} {bs rest : Bytes} {v : RespValue}
    (h : decodeFuel fuel bs = .ok (v, rest)) : Reads bs v rest := by
  induction fuel generalizing bs rest v with
  | zero => cases h
  | succ fuel ih =>
      rcases header_cases bs with hno | hwide | ⟨tag, text, reader, hh⟩
      · rw [decodeFuel_noHeader fuel hno] at h; cases h
      · rw [decodeFuel_wideHeader fuel hwide] at h; cases h
      · rw [decodeFuel_header fuel hh] at h
        split at h
        -- one case for each tag that the decoder knows
        · next ht => subst ht; cases h; exact .simpleString hh
        · split at h
          · next ht => subst ht; cases h; exact .simpleError hh
          · split at h
            · next ht =>
                subst ht
                split at h
                · next n hn => cases h; exact .integer hh hn
                · cases h
            · split at h
              · next ht =>
                  subst ht
                  -- the length does not parse, is the null length, or counts the bytes of the text
                  rcases parseLength_cases text with ⟨e, hl⟩ | hl | ⟨n, hl⟩
                  · rw [parseBulkString_err hl] at h; cases h
                  · rw [parseBulkString_null hl] at h; cases h; exact .nullBulk hh hl
                  · rw [parseBulkString_nat hl] at h
                    split at h
                    · cases h
                    · next hsize =>
                        split at h
                        · cases h
                        · next hlen =>
                            split at h
                            · next s hs =>
                                cases h
                                exact .bulk hh hl (by omega) (by omega) hs
                            · cases h
              · split at h
                · next ht =>
                    subst ht
                    -- the same for an array, whose items are read with the fuel that is left
                    rcases parseLength_cases text with ⟨e, hl⟩ | hl | ⟨n, hl⟩
                    · rw [parseArray_err hl] at h; cases h
                    · rw [parseArray_null hl] at h; cases h; exact .nullArray hh hl
                    · rw [parseArray_nat hl] at h
                      obtain ⟨⟨vs, r⟩, hvs, h⟩ := bind_eq_ok.mp h
                      cases h
                      exact .array hh hl (readsItems_of_parseElements ih hvs)
                · cases h

mutual

theorem Reads.length_lt : ∀ {bs rest : Bytes} {v : RespValue}, Reads bs v rest →
    rest.length < bs.length
  | _, _, _, .simpleString h | _, _, _, .simpleError h | _, _, _, .integer h _
  | _, _, _, .nullBulk h _ | _, _, _, .nullArray h _ => h.length_lt
  | _, _, _, .bulk h _ _ _ _ => by
      have := h.length_lt
      rw [List.length_drop]
      omega
  | _, _, _, .array h _ hitems => Nat.lt_of_le_of_lt hitems.length_le h.length_lt

theorem ReadsItems.length_le : ∀ {n : Nat} {bs rest : Bytes} {vs : List RespValue},
    ReadsItems n bs vs rest → rest.length ≤ bs.length
  | _, _, _, _, .nil _ => le_refl _
  | _, _, _, _, .cons h t => Nat.le_of_lt (Nat.lt_of_le_of_lt t.length_le h.length_lt)

end

mutual

/-- With fuel for its bytes, the decoder follows the rules. -/
theorem Reads.decodeFuel_eq : ∀ {bs rest : Bytes} {v : RespValue} {fuel : Nat}, Reads bs v rest →
    bs.length < fuel → decodeFuel fuel bs = .ok (v, rest)
  | _, _, _, 0, _, hf => absurd hf (Nat.not_lt_zero _)
  | _, _, _, fuel + 1, .simpleString h, _ => by rw [decodeFuel_header fuel h]; rfl
  | _, _, _, fuel + 1, .simpleError h, _ => by rw [decodeFuel_header fuel h]; rfl
  | _, _, _, fuel + 1, .integer h hn, _ => by rw [decodeFuel_header fuel h, hn]; rfl
  | _, _, _, fuel + 1, .nullBulk h hl, _ => by
      rw [decodeFuel_header fuel h]
      exact parseBulkString_null hl _
  | _, _, _, fuel + 1, .bulk h hl hsize hlen hs, _ => by
      rw [decodeFuel_header fuel h]
      refine (parseBulkString_nat hl _).trans ?_
      rw [if_neg (by omega), if_neg (by omega), hs]
  | _, _, _, fuel + 1, .nullArray h hl, _ => by
      rw [decodeFuel_header fuel h]
      exact parseArray_null hl _
  | _, _, _, fuel + 1, .array h hl hitems, hf => by
      rw [decodeFuel_header fuel h]
      refine (parseArray_nat hl _).trans ?_
      have := h.length_lt
      rw [hitems.parseElements_eq (by omega)]
      rfl

theorem ReadsItems.parseElements_eq : ∀ {n : Nat} {bs rest : Bytes} {vs : List RespValue}
    {fuel : Nat}, ReadsItems n bs vs rest → bs.length < fuel →
    parseElements (decodeFuel fuel) n bs = .ok (vs, rest)
  | _, _, _, _, _, .nil _, _ => rfl
  | _, _, _, _, _, .cons h t, hf => by
      have := h.length_lt
      rw [parseElements, h.decodeFuel_eq hf]
      simp only [ok_bind]
      rw [t.parseElements_eq (by omega)]
      rfl

end

theorem parseElements_eq_ok_iff {fuel n : Nat} {bs rest : Bytes} {vs : List RespValue}
    (hf : bs.length < fuel) :
    parseElements (decodeFuel fuel) n bs = .ok (vs, rest) ↔ ReadsItems n bs vs rest :=
  ⟨readsItems_of_parseElements reads_of_decodeFuel, fun h => h.parseElements_eq hf⟩

/-- **What the decoder accepts.** -/
theorem decode_eq_ok_iff {bs rest : Bytes} {v : RespValue} :
    decode bs = .ok (v, rest) ↔ Reads bs v rest :=
  ⟨reads_of_decodeFuel, fun h => h.decodeFuel_eq (Nat.lt_succ_self _)⟩

theorem Reads.unique {bs rest rest' : Bytes} {v v' : RespValue} (h : Reads bs v rest)
    (h' : Reads bs v' rest') : v = v' ∧ rest = rest' := by
  cases (decode_eq_ok_iff.mpr h).symm.trans (decode_eq_ok_iff.mpr h')
  exact ⟨rfl, rfl⟩

/-! ### Panics -/

/-- A list of elements panics at one of them. -/
theorem parseElements_panic_iff {dec : Bytes → Outcome RespError (RespValue × Bytes)} {n : Nat}
    {bs : Bytes} :
    parseElements dec n bs = .panic ↔
      ∃ k vs bs', k < n ∧ parseElements dec k bs = .ok (vs, bs') ∧ dec bs' = .panic := by
  induction n generalizing bs with
  | zero => exact iff_of_false (fun h => by cases h) fun ⟨_, _, _, hk, _⟩ => Nat.not_lt_zero _ hk
  | succ n ih =>
      rw [parseElements]
      cases hd : dec bs with
      | panic => exact iff_of_true rfl ⟨0, [], bs, Nat.succ_pos n, rfl, hd⟩
      | err e =>
          refine iff_of_false (fun h => by cases h) ?_
          rintro ⟨k, vs, bs', -, hk, hp⟩
          cases k with
          | zero => cases hk; rw [hd] at hp; cases hp
          | succ k => rw [parseElements, hd] at hk; cases hk
      | ok p =>
          obtain ⟨v, bs₁⟩ := p
          have hbind : (parseElements dec n bs₁ >>= fun p => .ok (v :: p.1, p.2) :
              Outcome RespError (List RespValue × Bytes)) = .panic ↔
              parseElements dec n bs₁ = .panic := by
            cases parseElements dec n bs₁ <;> simp
          refine hbind.trans (ih.trans ⟨?_, ?_⟩)
          · rintro ⟨k, vs, bs', hk, hvs, hp⟩
            refine ⟨k + 1, v :: vs, bs', Nat.succ_lt_succ hk, ?_, hp⟩
            rw [parseElements, hd]
            simp only [ok_bind, hvs]
            rfl
          · rintro ⟨k, vs, bs', hk, hvs, hp⟩
            cases k with
            | zero => cases hvs; rw [hd] at hp; cases hp
            | succ k =>
                rw [parseElements, hd] at hvs
                obtain ⟨_, he, hvs⟩ := bind_eq_ok.mp hvs
                cases he
                obtain ⟨⟨vs', bs₂⟩, hvs', h⟩ := bind_eq_ok.mp hvs
                cases h
                exact ⟨k, vs', _, Nat.lt_of_succ_lt_succ hk, hvs', hp⟩

theorem parseArray_panic_iff {fuel n : Nat} {text : String} {reader : Bytes}
    (ih : ∀ bs, bs.length < fuel → (decodeFuel fuel bs = .panic ↔ Hostile bs))
    (hl : parseLength text = .ok n) (hf : reader.length < fuel) :
    parseArray (decodeFuel fuel) text reader = .panic ↔
      ∃ k vs reader', k < n ∧ ReadsItems k reader vs reader' ∧ Hostile reader' := by
  rw [parseArray_nat hl]
  have hbind : (parseElements (decodeFuel fuel) n reader >>=
      fun p => .ok (.array (some p.1), p.2) : Outcome RespError (RespValue × Bytes)) = .panic ↔
      parseElements (decodeFuel fuel) n reader = .panic := by
    cases parseElements (decodeFuel fuel) n reader <;> simp
  rw [hbind, parseElements_panic_iff]
  refine exists_congr fun k => exists_congr fun vs => exists_congr fun reader' =>
    and_congr_right fun _ => ?_
  rw [parseElements_eq_ok_iff hf]
  exact and_congr_right fun hitems => ih _ (Nat.lt_of_le_of_lt hitems.length_le hf)

/-- **What a header makes hostile**: the length of a bulk string, or an element of an array. -/
theorem hostile_iff_of_header {bs reader : Bytes} {tag : UInt8} {text : String}
    (h : Header bs tag text reader) :
    Hostile bs ↔
      (tag = 36 ∧ ∃ n : Nat, parseLength text = .ok n ∧ 2 ^ 63 - 1 < n + 2) ∨
      (tag = 42 ∧ ∃ n : Nat, parseLength text = .ok n ∧
        ∃ k vs reader', k < n ∧ ReadsItems k reader vs reader' ∧ Hostile reader') := by
  constructor
  · intro hbad
    cases hbad with
    | wide hw => exact absurd hw h.not_wideHeader
    | length h' hl hn =>
        obtain ⟨rfl, rfl, rfl⟩ := h.unique h'
        exact .inl ⟨rfl, _, hl, hn⟩
    | item h' hl hk hitems hbad =>
        obtain ⟨rfl, rfl, rfl⟩ := h.unique h'
        exact .inr ⟨rfl, _, hl, _, _, _, hk, hitems, hbad⟩
  · rintro (⟨rfl, n, hl, hn⟩ | ⟨rfl, n, hl, k, vs, reader', hk, hitems, hbad⟩)
    · exact .length h hl hn
    · exact .item h hl hk hitems hbad

theorem parseBulkString_panic_iff {text : String} {reader : Bytes} :
    parseBulkString text reader = .panic ↔
      ∃ n : Nat, parseLength text = .ok n ∧ 2 ^ 63 - 1 < n + 2 := by
  rcases parseLength_cases text with ⟨e, hl⟩ | hl | ⟨n, hl⟩
  · rw [parseBulkString_err hl, hl]
    simp
  · rw [parseBulkString_null hl, hl]
    simp
  · rw [parseBulkString_nat hl, hl]
    have hn : (∃ m : Nat, (Outcome.ok (n : Int) : Outcome RespError Int) = .ok m ∧
        2 ^ 63 - 1 < m + 2) ↔ 2 ^ 63 - 1 < n + 2 :=
      ⟨fun ⟨m, he, hm⟩ => by cases he; exact hm, fun h => ⟨n, rfl, h⟩⟩
    rw [hn]
    split
    · next h => exact iff_of_true rfl h
    · next h =>
        refine iff_of_false (fun hp => ?_) h
        split at hp
        · cases hp
        · split at hp <;> cases hp

/-- With fuel for its bytes, the decoder panics on hostile input only. -/
theorem decodeFuel_panic_iff (fuel : Nat) (bs : Bytes) (hf : bs.length < fuel) :
    decodeFuel fuel bs = .panic ↔ Hostile bs := by
  induction fuel generalizing bs with
  | zero => exact absurd hf (Nat.not_lt_zero _)
  | succ fuel ih =>
      rcases header_cases bs with hno | hwide | ⟨tag, text, reader, hh⟩
      · rw [decodeFuel_noHeader fuel hno]
        refine iff_of_false (fun h => by cases h) ?_
        rintro (⟨h⟩ | ⟨h, -, -⟩ | ⟨h, -, -, -, -⟩)
        · exact h.not_noHeader hno
        · exact h.not_noHeader hno
        · exact h.not_noHeader hno
      · rw [decodeFuel_wideHeader fuel hwide]
        exact iff_of_true rfl (.wide hwide)
      · have hlt := hh.length_lt
        rw [decodeFuel_header fuel hh, hostile_iff_of_header hh]
        by_cases h₄₃ : tag = 43
        · subst h₄₃; simp
        by_cases h₄₅ : tag = 45
        · subst h₄₅; simp
        by_cases h₅₈ : tag = 58
        · subst h₅₈; cases parseI64 text <;> simp
        by_cases h₃₆ : tag = 36
        · subst h₃₆
          simpa using parseBulkString_panic_iff
        by_cases h₄₂ : tag = 42
        · subst h₄₂
          rcases parseLength_cases text with ⟨e, hl⟩ | hl | ⟨n, hl⟩
          · simp [parseArray_err hl, hl]
          · simp [parseArray_null hl, hl]
          · have hf : reader.length < fuel := by omega
            simpa [hl] using parseArray_panic_iff ih hl hf
        · simp [h₄₃, h₄₅, h₅₈, h₃₆, h₄₂]

/-- **When the decoder panics.**  It returns a value or an error on every input but a hostile
one: one in which, before the value is complete, it comes to a line that starts with a character
of more than one byte, or to the length of a bulk string whose buffer would exceed
`isize::MAX`. -/
theorem decode_safe_iff (bs : Bytes) :
    ((∃ v rest, decode bs = .ok (v, rest)) ∨ ∃ e, decode bs = .err e) ↔ ¬Hostile bs := by
  rw [← decodeFuel_panic_iff (bs.length + 1) bs (Nat.lt_succ_self _)]
  show _ ↔ ¬decode bs = .panic
  cases decode bs with
  | ok p => exact iff_of_true (.inl ⟨p.1, p.2, rfl⟩) (by simp)
  | err e => exact iff_of_true (.inr ⟨e, rfl⟩) (by simp)
  | panic => exact iff_of_false (by simp) (by simp)

/-- `é` is a line that starts with a character of two bytes. -/
theorem decode_panics : ¬∀ bs : Bytes,
    (∃ v rest, decode bs = .ok (v, rest)) ∨ ∃ e, decode bs = .err e := fun h => by
  have hw : WideHeader (utf8 "é") :=
    ⟨by rw [show (readLine (utf8 "é")).1 = utf8 "é" from rfl, fromUtf8_utf8]; rfl, 195, rfl,
      by decide⟩
  have hp : decode (utf8 "é") = .panic := decodeFuel_wideHeader _ hw
  rcases h (utf8 "é") with ⟨v, rest, he⟩ | ⟨e, he⟩ <;> rw [hp] at he <;> cases he

end Thesaurus
