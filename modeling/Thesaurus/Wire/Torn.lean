import Thesaurus.Wire.Delimited

/-!
# Wire — torn frames

The decoder on a command whose last bytes are missing.  It always fails, and it takes the failure
for the end of the input unless the cut is right behind the type byte of a header, or between its
CR and its LF: there it reads a length that is not a number.

* `CutsHeader args q`: `q` is the frame of `args`, cut in one of these places.
* `decode_torn`: what the decoder makes of a torn frame.
-/

namespace Thesaurus
open Bytes Outcome

/-- The line is cut behind its type byte, or between its CR and its LF. -/
def CutsLine (tag : UInt8) (payload q : Bytes) : Prop := q = [tag] ∨ q = tag :: payload ++ [13]

/-- The bulk strings are cut within the header of one of them. -/
def CutsItems : List String → Bytes → Prop
  | [],        _ => False
  | s :: args, q =>
      CutsLine 36 (decimal (utf8 s).length) q ∨
        ∃ q', q = encode (.bulkString (some s)) ++ q' ∧ CutsItems args q'

/-- The frame of a command is cut within a header. -/
def CutsHeader (args : List String) (q : Bytes) : Prop :=
  CutsLine 42 (decimal args.length) q ∨
    ∃ q', q = encodeLine 42 (decimal args.length) ++ q' ∧ CutsItems args q'

/-- The call fails, and with `UnexpectedEof` unless `P` holds. -/
def FailsUnless {α : Type} (r : Outcome RespError α) (P : Prop) : Prop :=
  ∃ e, r = .err e ∧ (e = .unexpectedEof ↔ ¬P)

/-! ### Prefixes -/

theorem prefix_append_cases {α : Type} {l a b : List α} (h : l <+: a ++ b) :
    l <+: a ∨ ∃ t, t <+: b ∧ l = a ++ t := by
  rcases List.prefix_or_prefix_of_prefix h (List.prefix_append a b) with h' | ⟨t, rfl⟩
  · exact .inl h'
  · exact .inr ⟨t, (List.prefix_append_right_inj a).mp h, rfl⟩

/-- **Where a line can be cut.** -/
theorem line_prefix_cases {tag : UInt8} {payload body q : Bytes}
    (h : q <+: encodeLine tag payload ++ body) :
    q = [] ∨ CutsLine tag payload q ∨ (∃ d, d ≠ [] ∧ d <+: payload ∧ q = tag :: d) ∨
      ∃ q', q' <+: body ∧ q = encodeLine tag payload ++ q' := by
  cases q with
  | nil => exact .inl rfl
  | cons x q =>
      have h : x :: q <+: tag :: (payload ++ (13 :: 10 :: body)) := by
        simpa [encodeLine, crlf] using h
      obtain ⟨rfl, hbody⟩ := List.cons_prefix_cons.mp h
      refine .inr ?_
      by_cases hq : q = []
      · exact .inl (.inl (by rw [hq]))
      rcases prefix_append_cases hbody with h | ⟨t, ht, rfl⟩
      · exact .inr (.inl ⟨q, hq, h, rfl⟩)
      · cases t with
        | nil => exact .inr (.inl ⟨_, hq, by simp, rfl⟩)
        | cons y t =>
            obtain ⟨rfl, hlf⟩ := List.cons_prefix_cons.mp ht
            rcases List.prefix_cons_iff.mp hlf with rfl | ⟨t', rfl, ht'⟩
            · exact .inl (.inr rfl)
            · exact .inr (.inr ⟨t', ht', by simp [encodeLine, crlf]⟩)

/-- A number with its last digits missing is a number. -/
theorem decimal_prefix {n : Nat} {d : Bytes} (h : d <+: decimal n) (hd : d ≠ []) :
    ∃ m, d = decimal m ∧ m ≤ n ∧ (0 < n → 0 < m) := by
  induction n using Nat.strongRecOn generalizing d with
  | _ n ih =>
      rcases Nat.lt_or_ge n 10 with hn | hn
      · have hone : decimal n = [n.digitChar.toNat.toUInt8] := by
          rw [decimal_eq_map, Nat.toDigits_of_lt_base hn]
          rfl
        have hd : d = decimal n := by
          rw [hone] at h ⊢
          rcases List.prefix_cons_iff.mp h with h | ⟨t, rfl, ht⟩
          · exact absurd h hd
          · rw [List.prefix_nil.mp ht]
        exact ⟨n, hd, le_refl n, id⟩
      · have hsplit : decimal n = decimal (n / 10) ++ [(n % 10).digitChar.toNat.toUInt8] := by
          rw [decimal_eq_map, decimal_eq_map, Nat.toDigits_of_base_le (by decide) hn]
          simp
        rw [hsplit, List.prefix_concat_iff] at h
        rcases h with h | h
        · exact ⟨n, by rw [h, hsplit], le_refl n, id⟩
        · obtain ⟨m, hm, hle, hpos⟩ := ih (n / 10) (by omega) h hd
          exact ⟨m, hm, by omega, fun _ => hpos (by omega)⟩

theorem CutsLine.length_lt {tag : UInt8} {payload q : Bytes} (h : CutsLine tag payload q) :
    q.length < (encodeLine tag payload).length := by
  rcases h with rfl | rfl <;> simp [encodeLine, crlf]

theorem not_cutsLine_digits {tag : UInt8} {payload d : Bytes} (hd : d ≠ []) (h : d <+: payload) :
    ¬CutsLine tag payload (tag :: d) := by
  rintro (he | he)
  · exact hd (List.cons.inj he).2
  · have := congrArg List.length (List.cons.inj he).2
    have := h.length_le
    simp at *
    omega

/-! ### Lines without an end -/

/-- A header that the input cuts off. -/
theorem header_of_cut (tag : UInt8) {text : String} (name : String) (hname : utf8 name = [tag])
    (ht : tag ≠ 10) (hx : (10 : UInt8) ∉ utf8 text) : Header (tag :: utf8 text) tag text [] := by
  have hutf : tag :: utf8 text = utf8 (name ++ text) := by rw [utf8_append, hname]; rfl
  have hbound : isCharBoundary (utf8 text) = true := by
    simpa using isCharBoundary_utf8 text (show isCharBoundary [] = true from rfl)
  refine ⟨tag :: utf8 text, readLine_of_not_mem (by simp [Ne.symm ht, hx]), ?_, ?_⟩
  · rw [hutf, fromUtf8_utf8]
    rfl
  · rw [parseHeader, if_pos hbound, trimEndCrlf_of_not_mem hx, fromUtf8_utf8]

theorem parseLength_of_not {text : String} (h : parseI64 text = none) :
    parseLength text = .err (.invalidInteger text) := by
  rw [parseLength, h]

/-- No number is spelled with a carriage return. -/
theorem parseLength_cr (text : String) :
    parseLength (text ++ "\r") = .err (.invalidInteger (text ++ "\r")) := by
  refine parseLength_of_not ?_
  cases hp : parseI64 (text ++ "\r") with
  | none => rfl
  | some n =>
      have hm : (13 : UInt8) ∈ utf8 (text ++ "\r") := by
        rw [utf8_append]
        exact List.mem_append_right _ (by decide)
      rcases mem_of_parseI64 hp hm with h | h | h
      · exact absurd h (by decide)
      · exact absurd h (by decide)
      · exact absurd h (by decide)

theorem parseLength_empty : parseLength "" = .err (.invalidInteger "") :=
  parseLength_of_not (by decide +kernel)

/-- **A cut header**: the length it announces is no number. -/
theorem header_of_cutsLine (tag : UInt8) {n : Nat} {q : Bytes} (name : String)
    (hname : utf8 name = [tag]) (ht : tag ≠ 10) (h : CutsLine tag (decimal n) q) :
    ∃ text, Header q tag text [] ∧ parseLength text = .err (.invalidInteger text) := by
  rcases h with rfl | rfl
  · have hh : Header (tag :: utf8 "") tag "" [] :=
      header_of_cut tag name hname ht (by decide)
    exact ⟨"", hh, parseLength_empty⟩
  · have hutf : tag :: decimal n ++ [13] = tag :: utf8 (toString n ++ "\r") := by
      rw [utf8_append]
      rfl
    rw [hutf]
    refine ⟨_, header_of_cut tag name hname ht ?_, parseLength_cr _⟩
    rw [utf8_append, List.mem_append, not_or]
    exact ⟨not_mem_decimal n, by decide⟩

theorem decodeFuel_nil {fuel : Nat} (hf : 0 < fuel) : decodeFuel fuel [] = .err .unexpectedEof := by
  obtain ⟨fuel, rfl⟩ : ∃ n, fuel = n + 1 := ⟨fuel - 1, by omega⟩
  exact decodeFuel_noHeader fuel (.inl rfl)

/-! ### Torn frames -/

theorem FailsUnless.eof {α : Type} {r : Outcome RespError α} {P : Prop}
    (h : r = .err .unexpectedEof) (hP : ¬P) : FailsUnless r P := ⟨_, h, iff_of_true rfl hP⟩

theorem FailsUnless.invalid {α : Type} {r : Outcome RespError α} {P : Prop} {text : String}
    (h : r = .err (.invalidInteger text)) (hP : P) : FailsUnless r P :=
  ⟨_, h, iff_of_false (by simp) fun hn => hn hP⟩

theorem encode_bulk_eq (s : String) :
    encode (.bulkString (some s)) =
      encodeLine 36 (decimal (utf8 s).length) ++ (utf8 s ++ crlf) := by
  rw [encode, encodeBulkString]

/-- A torn bulk string. -/
theorem failsUnless_bulk {s : String} {q : Bytes} {fuel : Nat}
    (hs : (utf8 s).length + 2 ≤ 2 ^ 63 - 1) (h : q <+: encode (.bulkString (some s)))
    (hne : q ≠ encode (.bulkString (some s))) (hf : q.length < fuel) :
    FailsUnless (decodeFuel fuel q) (CutsLine 36 (decimal (utf8 s).length) q) := by
  obtain ⟨fuel, rfl⟩ : ∃ n, fuel = n + 1 := ⟨fuel - 1, by omega⟩
  rw [encode_bulk_eq] at h hne
  rcases line_prefix_cases h with rfl | hcut | ⟨d, hd, hpre, rfl⟩ | ⟨q', hq', rfl⟩
  · exact .eof (decodeFuel_nil (Nat.succ_pos fuel)) (by rintro (h | h) <;> cases h)
  · obtain ⟨text, hh, hl⟩ := header_of_cutsLine 36 "$" rfl (by decide) hcut
    exact .invalid ((decodeFuel_header fuel hh).trans (parseBulkString_err hl [])) hcut
  · obtain ⟨m, rfl, hm, -⟩ := decimal_prefix hpre hd
    have hh : Header (36 :: decimal m) 36 (toString m) [] :=
      header_of_cut 36 "$" rfl (by decide) (not_mem_decimal m)
    refine .eof ((decodeFuel_header fuel hh).trans ?_) (not_cutsLine_digits hd hpre)
    refine (parseBulkString_nat (parseLength_toString (by omega)) []).trans ?_
    rw [if_neg (by omega), if_pos (by simp)]
  · have hh : Header (encodeLine 36 (decimal (utf8 s).length) ++ q') 36
        (toString (utf8 s).length) q' :=
      header_encodeLine 36 "$" rfl (by decide) (not_mem_decimal _) q'
    have hlen : q'.length < (utf8 s).length + 2 := by
      have hle := hq'.length_le
      have hbody : (utf8 s ++ crlf).length = (utf8 s).length + 2 := by simp [crlf]
      rcases Nat.lt_or_ge q'.length (utf8 s ++ crlf).length with hlt | hge
      · omega
      · exact absurd (by rw [hq'.eq_of_length (by omega)]) hne
    refine .eof ((decodeFuel_header fuel hh).trans ?_) fun hcut => ?_
    · refine (parseBulkString_nat (parseLength_toString (by omega)) q').trans ?_
      rw [if_neg (by omega), if_pos hlen]
    · have := hcut.length_lt
      rw [List.length_append] at this
      omega

/-- A torn list of bulk strings. -/
theorem failsUnless_items {args : List String} {q : Bytes} {fuel : Nat}
    (hs : ∀ s ∈ args, (utf8 s).length + 2 ≤ 2 ^ 63 - 1)
    (h : q <+: encodeItems (args.map fun s => .bulkString (some s)))
    (hne : q ≠ encodeItems (args.map fun s => .bulkString (some s))) (hf : q.length < fuel) :
    FailsUnless (parseElements (decodeFuel fuel) args.length q) (CutsItems args q) := by
  induction args generalizing q with
  | nil => exact absurd (List.prefix_nil.mp h) hne
  | cons s args ih =>
      have hs₀ := hs s List.mem_cons_self
      rw [List.map_cons, encodeItems] at h hne
      -- the cut is in the first bulk string, or behind it
      by_cases hfull : encode (.bulkString (some s)) <+: q
      · obtain ⟨q', rfl⟩ := hfull
        have hq' := (List.prefix_append_right_inj _).mp h
        have hne' := fun he => hne (congrArg (encode (.bulkString (some s)) ++ ·) he)
        have hlen : q'.length < fuel := by
          rw [List.length_append] at hf
          omega
        obtain ⟨e, he, hiff⟩ := ih (fun s hm => hs s (List.mem_cons_of_mem _ hm)) hq' hne' hlen
        refine ⟨e, ?_, hiff.trans (not_congr ⟨fun hc => .inr ⟨q', rfl, hc⟩, ?_⟩)⟩
        · rw [List.length_cons, parseElements,
            decodeFuel_encode (.bulkString (some s)) hs₀ trivial fuel q' (by
              rw [List.length_append] at hf
              omega)]
          simp only [ok_bind, he]
          rfl
        · rintro (hcut | ⟨q'', hq'', hc⟩)
          · have := hcut.length_lt
            rw [encode_bulk_eq, List.length_append, List.length_append] at this
            omega
          · rwa [List.append_cancel_left hq'']
      · rcases prefix_append_cases h with hpre | ⟨t, -, rfl⟩
        · have hne' : q ≠ encode (.bulkString (some s)) := fun he => hfull (he ▸ List.prefix_refl _)
          obtain ⟨e, he, hiff⟩ := failsUnless_bulk hs₀ hpre hne' hf
          refine ⟨e, ?_, hiff.trans (not_congr ⟨.inl, ?_⟩)⟩
          · rw [List.length_cons, parseElements, he]
            rfl
          · rintro (hcut | ⟨q', rfl, -⟩)
            · exact hcut
            · exact absurd (List.prefix_append _ q') hfull
        · exact absurd (List.prefix_append _ t) hfull

theorem encode_bulkArray {args : List String} (h : args ≠ []) :
    encode (bulkArray args) =
      encodeLine 42 (decimal args.length) ++
        encodeItems (args.map fun s => .bulkString (some s)) := by
  rw [bulkArray, encode, if_neg (by simpa using h), List.length_map]

/-- **A torn frame.**  The decoder fails, and with `UnexpectedEof` unless the cut is within a
header. -/
theorem decode_torn {args : List String} {q : Bytes} (ha : args ≠ [])
    (hfits : Fits (bulkArray args)) (h : q <+: encode (bulkArray args))
    (hne : q ≠ encode (bulkArray args)) : FailsUnless (decode q) (CutsHeader args q) := by
  obtain ⟨hlen, hitems⟩ := hfits
  rw [List.length_map] at hlen
  have hs : ∀ s ∈ args, (utf8 s).length + 2 ≤ 2 ^ 63 - 1 := fun s hm =>
    allFit_iff.mp hitems _ (List.mem_map_of_mem hm)
  have hpos : 0 < args.length := List.length_pos_iff.mpr ha
  rw [encode_bulkArray ha] at h hne
  show FailsUnless (decodeFuel (q.length + 1) q) _
  rcases line_prefix_cases h with rfl | hcut | ⟨d, hd, hpre, rfl⟩ | ⟨q', hq', rfl⟩
  -- nothing is left of the frame
  · refine .eof (decodeFuel_nil (Nat.succ_pos _)) ?_
    rintro ((h | h) | ⟨q', h, -⟩)
    · cases h
    · cases h
    · simp [encodeLine] at h
  -- the cut leaves a count that does not parse
  · obtain ⟨text, hh, hl⟩ := header_of_cutsLine 42 "*" rfl (by decide) hcut
    exact .invalid ((decodeFuel_header _ hh).trans (parseArray_err hl [])) (.inl hcut)
  -- the cut is among the digits: a smaller count is read, and its items are missing
  · obtain ⟨m, rfl, hm, hmpos⟩ := decimal_prefix hpre hd
    have hh : Header (42 :: decimal m) 42 (toString m) [] :=
      header_of_cut 42 "*" rfl (by decide) (not_mem_decimal m)
    refine .eof ((decodeFuel_header _ hh).trans ?_) ?_
    · refine (parseArray_nat (parseLength_toString (by omega)) []).trans ?_
      obtain ⟨m, rfl⟩ : ∃ k, m = k + 1 := ⟨m - 1, by have := hmpos hpos; omega⟩
      rw [parseElements, decodeFuel_nil (by simp)]
      rfl
    · rintro (hcut | ⟨q', he, -⟩)
      · exact not_cutsLine_digits hd hpre hcut
      · have := congrArg List.length he
        have := hpre.length_le
        simp [encodeLine, crlf] at *
        omega
  -- the header is whole, and the cut is among the items
  · have hh : Header (encodeLine 42 (decimal args.length) ++ q') 42 (toString args.length) q' :=
      header_encodeLine 42 "*" rfl (by decide) (not_mem_decimal _) q'
    have hne' := fun he => hne (congrArg (encodeLine 42 (decimal args.length) ++ ·) he)
    have hlt := hh.length_lt
    obtain ⟨e, he, hiff⟩ := failsUnless_items hs hq' hne' hlt
    refine ⟨e, ?_, hiff.trans (not_congr ⟨fun hc => .inr ⟨q', rfl, hc⟩, ?_⟩)⟩
    · refine (decodeFuel_header _ hh).trans ?_
      refine (parseArray_nat (parseLength_toString hlen) q').trans ?_
      rw [he]
      rfl
    · rintro (hcut | ⟨q'', hq'', hc⟩)
      · have := hcut.length_lt
        rw [List.length_append] at this
        omega
      · rwa [List.append_cancel_left hq'']

end Thesaurus
