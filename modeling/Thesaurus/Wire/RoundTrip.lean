import Thesaurus.Model.Resp2

/-!
# Wire — round trip

What the encoder writes, the decoder reads back, and it leaves the bytes after it alone.

* `decode_encode`: every value whose lengths fit the machine and whose lines hold no line feed.
* `Fits` is no restriction on a value in memory; `decode_fits` says the decoder returns no other.
-/

namespace Thesaurus
open Bytes Outcome

/-! ### Values -/

mutual

/-- The lengths and integers of a value are within the machine's types. -/
def Fits : RespValue → Prop
  | .simpleString _ | .simpleError _    => True
  | .integer n                          => -2 ^ 63 ≤ n ∧ n < 2 ^ 63
  | .bulkString none | .array none      => True
  | .bulkString (some s)                => (utf8 s).length + 2 ≤ 2 ^ 63 - 1
  | .array (some items)                 => items.length < 2 ^ 63 ∧ AllFit items

/-- Every item fits. -/
def AllFit : List RespValue → Prop
  | []            => True
  | item :: items => Fits item ∧ AllFit items

end

mutual

/-- No simple string or error holds a line feed. -/
def LineSafe : RespValue → Prop
  | .simpleString s | .simpleError s => (10 : UInt8) ∉ utf8 s
  | .array (some items)              => AllLineSafe items
  | _                                => True

/-- Every item is line safe. -/
def AllLineSafe : List RespValue → Prop
  | []            => True
  | item :: items => LineSafe item ∧ AllLineSafe items

end

theorem allFit_iff {items : List RespValue} : AllFit items ↔ ∀ item ∈ items, Fits item := by
  induction items with
  | nil => simp [AllFit]
  | cons item items ih => simp [AllFit, ih]

theorem allLineSafe_iff {items : List RespValue} :
    AllLineSafe items ↔ ∀ item ∈ items, LineSafe item := by
  induction items with
  | nil => simp [AllLineSafe]
  | cons item items ih => simp [AllLineSafe, ih]

/-! ### Lines -/

theorem encodeLine_eq (tag : UInt8) (payload rest : Bytes) :
    encodeLine tag payload ++ rest = (tag :: payload ++ [13]) ++ 10 :: rest := by
  simp [encodeLine, crlf]

theorem readLine_encodeLine {tag : UInt8} {payload : Bytes} (ht : tag ≠ 10)
    (hp : (10 : UInt8) ∉ payload) (rest : Bytes) :
    readLine (encodeLine tag payload ++ rest) = (encodeLine tag payload, rest) := by
  rw [encodeLine_eq, readLine_append]
  · simp [encodeLine, crlf]
  · simp [Ne.symm ht, hp]

theorem trimStartLfcr_of_ne {bs : Bytes} (h : bs.head? ≠ some 10) : trimStartLfcr bs = bs := by
  unfold trimStartLfcr
  split
  · exact absurd rfl h
  · rfl

theorem trimEndCrlf_append {bs : Bytes} (h : (10 : UInt8) ∉ bs) :
    trimEndCrlf (bs ++ crlf) = bs := by
  have hb : bs.reverse.head? ≠ some 10 := fun hh =>
    h (List.mem_reverse.mp (List.mem_of_mem_head? (by rw [hh]; rfl)))
  simp only [trimEndCrlf, crlf, List.reverse_append, List.reverse_cons, List.reverse_nil,
    List.nil_append, List.cons_append, trimStartLfcr]
  rw [trimStartLfcr_of_ne hb, List.reverse_reverse]

theorem ne_continuation_of_isUTF8FirstByte :
    ∀ n : Fin 256, (UInt8.ofFin n).IsUTF8FirstByte → (UInt8.ofFin n &&& 0xC0 != 0x80) = true := by
  decide +kernel

theorem isCharBoundary_utf8 (s : String) {rest : Bytes} (h : isCharBoundary rest = true) :
    isCharBoundary (utf8 s ++ rest) = true := by
  cases hs : utf8 s with
  | nil => exact h
  | cons b bs => exact ne_continuation_of_isUTF8FirstByte b.toFin (isUTF8FirstByte_of_utf8 hs)

theorem parseHeader_encodeLine (tag : UInt8) {s : String} (h : (10 : UInt8) ∉ utf8 s) :
    parseHeader (encodeLine tag (utf8 s)) = .ok (tag, s) := by
  have hb : isCharBoundary (utf8 s ++ crlf) = true := isCharBoundary_utf8 s rfl
  simp [encodeLine, parseHeader, hb, trimEndCrlf_append h]

/-- The tag of a line as a character. -/
theorem utf8_toLine (tag s : String) {b : UInt8} (ht : utf8 tag = [b]) :
    encodeLine b (utf8 s) = utf8 (tag ++ s ++ "\r\n") := by
  simp only [utf8_append, ht]
  rfl

/-- **A line is read whole.**  The decoder takes the line off and goes on with its prefix byte
and its payload. -/
theorem decodeFuel_line (fuel : Nat) {s : String} (tag : String) (b : UInt8)
    (ht : utf8 tag = [b]) (hb : b ≠ 10) (hs : (10 : UInt8) ∉ utf8 s) (rest : Bytes) :
    decodeFuel (fuel + 1) (encodeLine b (utf8 s) ++ rest) =
      (if b = 43 then .ok (.simpleString s, rest)
       else if b = 45 then .ok (.simpleError s, rest)
       else if b = 58 then
         match parseI64 s with
         | some n => .ok (.integer n, rest)
         | none   => .err (.invalidInteger s)
       else if b = 36 then parseBulkString s rest
       else if b = 42 then parseArray (decodeFuel fuel) s rest
       else .err (.unknownPrefix (Char.ofNat b.toNat))) := by
  have hline : ¬(encodeLine b (utf8 s) = [] ∨ fromUtf8 (encodeLine b (utf8 s)) = none) := by
    rw [utf8_toLine tag s ht, fromUtf8_utf8]
    rw [← utf8_toLine tag s ht]
    simp [encodeLine]
  rw [decodeFuel, readLine_encodeLine hb hs]
  dsimp only
  rw [if_neg hline, parseHeader_encodeLine b hs]
  rfl

theorem not_mem_decimal (n : Nat) : (10 : UInt8) ∉ decimal n := fun h =>
  absurd (mem_decimal h).1 (by decide)

theorem not_mem_decimalInt (n : Int) : (10 : UInt8) ∉ decimalInt n := fun h => by
  rcases mem_decimalInt h with h | h
  · exact absurd h (by decide)
  · exact absurd h.1 (by decide)

/-! ### Lengths -/

theorem parseLength_toString {n : Nat} (h : n < 2 ^ 63) :
    parseLength (toString n) = .ok (n : Int) := by
  have hp : parseI64 (toString n) = some (n : Int) := parseSigned_decimal_ofNat h
  rw [parseLength, hp]
  exact if_neg (by omega)

theorem parseLength_neg_one : parseLength "-1" = .ok (-1) := by decide +kernel

theorem parseBulkString_encode {s : String} (h : (utf8 s).length + 2 ≤ 2 ^ 63 - 1)
    (rest : Bytes) :
    parseBulkString (toString (utf8 s).length) (utf8 s ++ (crlf ++ rest)) =
      .ok (.bulkString (some s), rest) := by
  have hlen : (utf8 s ++ crlf).length = (utf8 s).length + 2 := by simp [crlf]
  have htake : (utf8 s ++ (crlf ++ rest)).take ((utf8 s).length + 2) = utf8 s ++ crlf := by
    rw [← List.append_assoc, ← hlen, List.take_left]
  have hdrop : (utf8 s ++ (crlf ++ rest)).drop ((utf8 s).length + 2) = rest := by
    rw [← List.append_assoc, ← hlen, List.drop_left]
  have hbody : bulkStringFromBytes (utf8 s).length (utf8 s ++ crlf) =
      .ok (.bulkString (some s)) := by
    rw [bulkStringFromBytes, List.take_left, fromUtf8_utf8]
  have hshort : ¬(utf8 s ++ (crlf ++ rest)).length < (utf8 s).length + 2 := by
    simp [crlf]
  rw [parseBulkString, parseLength_toString (by omega)]
  simp only [ok_bind, Int.toNat_natCast, htake, hdrop, hbody, pure_eq]
  rw [if_neg (by omega), if_neg (by omega), if_neg hshort]

/-! ### Values -/

theorem encode_ne_nil (v : RespValue) : 0 < (encode v).length := by
  cases v with
  | simpleString s | simpleError s | integer n => simp [encode, encodeLine]
  | bulkString s => cases s <;> simp [encode, encodeBulkString, encodeLine]
  | array items =>
      cases items with
      | none => simp [encode, encodeLine]
      | some items =>
          rw [encode]
          split <;> simp [encodeLine]

mutual

/-- **One value.**  With fuel for its bytes, the decoder returns the value and what follows it. -/
theorem decodeFuel_encode : ∀ (v : RespValue), Fits v → LineSafe v → ∀ (fuel : Nat) (rest : Bytes),
    (encode v).length ≤ fuel → decodeFuel fuel (encode v ++ rest) = .ok (v, rest)
  | v, _, _, 0, _, hf => absurd hf (by have := encode_ne_nil v; omega)
  | .simpleString s, _, hs, fuel + 1, rest, _ => by
      rw [encode, decodeFuel_line fuel "+" 43 rfl (by decide) hs]
      rfl
  | .simpleError s, _, hs, fuel + 1, rest, _ => by
      rw [encode, decodeFuel_line fuel "-" 45 rfl (by decide) hs]
      rfl
  | .integer n, hn, _, fuel + 1, rest, _ => by
      have hp : parseI64 (toString n) = some n :=
        parseSigned_decimalInt (by simpa using hn.1) (by simpa using hn.2)
      rw [encode, decimalInt, decodeFuel_line fuel ":" 58 rfl (by decide)
        (not_mem_decimalInt n), hp]
      rfl
  | .bulkString none, _, _, fuel + 1, rest, _ => by
      rw [encode, encodeBulkString, show ([45, 49] : Bytes) = utf8 "-1" from rfl,
        decodeFuel_line fuel "$" 36 rfl (by decide) (by decide)]
      simp [parseBulkString, parseLength_neg_one]
  | .bulkString (some s), hs, _, fuel + 1, rest, _ => by
      rw [encode, encodeBulkString, decimal, List.append_assoc, List.append_assoc,
        decodeFuel_line fuel "$" 36 rfl (by decide) (not_mem_decimal _),
        parseBulkString_encode hs]
      rfl
  | .array none, _, _, fuel + 1, rest, _ => by
      rw [encode, show ([45, 49] : Bytes) = utf8 "-1" from rfl,
        decodeFuel_line fuel "*" 42 rfl (by decide) (by decide)]
      simp [parseArray, parseLength_neg_one]
  | .array (some []), _, _, fuel + 1, rest, _ => by
      have hp : parseLength (toString 0) = .ok 0 := parseLength_toString (by decide)
      rw [encode, List.isEmpty_nil, if_pos rfl, show ([48] : Bytes) = utf8 (toString 0) from rfl,
        decodeFuel_line fuel "*" 42 rfl (by decide) (not_mem_decimal 0), parseArray, hp]
      rfl
  | .array (some (item :: items)), ⟨hl, hv⟩, hs, fuel + 1, rest, hf => by
      have hp := parseLength_toString hl
      have hlen : (encodeItems (item :: items)).length ≤ fuel := by
        rw [encode, if_neg (by simp), List.length_append] at hf
        have : 0 < (encodeLine 42 (decimal (item :: items).length)).length := by simp [encodeLine]
        omega
      rw [encode, if_neg (by simp), decimal, List.append_assoc,
        decodeFuel_line fuel "*" 42 rfl (by decide) (not_mem_decimal _)]
      have hne : ¬((item :: items).length : Int) = -1 := by omega
      have hne' : ¬((item :: items).length : Int) = 0 := by simp; omega
      simp only [parseArray, hp, ok_bind, hne, hne', if_false, Int.toNat_natCast]
      rw [parseElements_encodeItems (item :: items) hv hs fuel rest hlen]
      rfl

/-- The items of an array, one after the other. -/
theorem parseElements_encodeItems : ∀ (items : List RespValue), AllFit items → AllLineSafe items →
    ∀ (fuel : Nat) (rest : Bytes), (encodeItems items).length ≤ fuel →
    parseElements (decodeFuel fuel) items.length (encodeItems items ++ rest) = .ok (items, rest)
  | [], _, _, _, _, _ => rfl
  | item :: items, ⟨hv, hvs⟩, ⟨hs, hss⟩, fuel, rest, hf => by
      rw [encodeItems, List.length_append] at hf
      rw [encodeItems, List.append_assoc, List.length_cons, parseElements,
        decodeFuel_encode item hv hs fuel _ (by omega)]
      simp only [ok_bind]
      rw [parseElements_encodeItems items hvs hss fuel rest (by omega)]
      rfl

end

/-- **Round trip.**  The decoder returns an encoded value and leaves the bytes after it. -/
theorem decode_encode {v : RespValue} (hf : Fits v) (hs : LineSafe v) (rest : Bytes) :
    decode (encode v ++ rest) = .ok (v, rest) :=
  decodeFuel_encode v hf hs _ rest (by rw [List.length_append]; omega)

/-! ### What the decoder returns -/

theorem magnitude_lt {radix bound n : Nat} {ds : Bytes} (h : magnitude radix bound ds = some n) :
    n < bound := by
  unfold magnitude at h
  split at h
  · cases h
  · simpa using (Option.filter_eq_some_iff.mp h).2

theorem parseSigned_bounds {bound : Nat} {bs : Bytes} {n : Int} (hb : 0 < bound)
    (h : parseSigned bound bs = some n) : -(bound : Int) ≤ n ∧ n < bound := by
  unfold parseSigned at h
  split at h <;> obtain ⟨m, hm, rfl⟩ := Option.map_eq_some_iff.mp h <;>
    have := magnitude_lt hm
  · exact ⟨by rw [Int.ofNat_eq_natCast]; omega, Int.ofNat_lt.mpr this⟩
  · exact ⟨by omega, by omega⟩
  · exact ⟨by rw [Int.ofNat_eq_natCast]; omega, Int.ofNat_lt.mpr this⟩

theorem parseLength_bounds {s : String} {n : Int} (h : parseLength s = .ok n) :
    -1 ≤ n ∧ n < 2 ^ 63 := by
  unfold parseLength at h
  split at h
  · cases h
  · next m hm =>
      split at h
      · cases h
      · next hlt =>
          cases h
          exact ⟨by omega, by simpa using (parseSigned_bounds (by decide) hm).2⟩

theorem fits_parseBulkString {s : String} {reader rest : Bytes} {v : RespValue}
    (h : parseBulkString s reader = .ok (v, rest)) : Fits v := by
  unfold parseBulkString at h
  obtain ⟨n, -, h⟩ := bind_eq_ok.mp h
  split at h
  · cases h; trivial
  · dsimp only at h
    split at h
    · cases h
    · next hsize =>
        split at h
        · cases h
        · obtain ⟨w, hw, h⟩ := bind_eq_ok.mp h
          cases h
          unfold bulkStringFromBytes at hw
          split at hw
          · next s hs =>
              cases hw
              show (utf8 s).length + 2 ≤ 2 ^ 63 - 1
              rw [utf8_of_fromUtf8 hs, List.length_take]
              omega
          · cases hw

theorem fits_parseElements {dec : Bytes → Outcome RespError (RespValue × Bytes)}
    (hdec : ∀ {bs rest v}, dec bs = .ok (v, rest) → Fits v) {n : Nat} {bs rest : Bytes}
    {vs : List RespValue} (h : parseElements dec n bs = .ok (vs, rest)) :
    vs.length = n ∧ AllFit vs := by
  induction n generalizing bs vs with
  | zero => cases h; exact ⟨rfl, trivial⟩
  | succ n ih =>
      unfold parseElements at h
      obtain ⟨⟨v, bs₁⟩, hv, h⟩ := bind_eq_ok.mp h
      obtain ⟨⟨vs', bs₂⟩, hvs, h⟩ := bind_eq_ok.mp h
      cases h
      obtain ⟨hl, hf⟩ := ih hvs
      exact ⟨by rw [List.length_cons, hl], hdec hv, hf⟩

theorem fits_parseArray {dec : Bytes → Outcome RespError (RespValue × Bytes)}
    (hdec : ∀ {bs rest v}, dec bs = .ok (v, rest) → Fits v) {s : String} {bs rest : Bytes}
    {v : RespValue} (h : parseArray dec s bs = .ok (v, rest)) : Fits v := by
  unfold parseArray at h
  obtain ⟨n, hn, h⟩ := bind_eq_ok.mp h
  have hb := parseLength_bounds hn
  split at h
  · cases h; trivial
  · split at h
    · cases h
      exact ⟨by decide, trivial⟩
    · obtain ⟨⟨vs, bs'⟩, hvs, h⟩ := bind_eq_ok.mp h
      cases h
      obtain ⟨hl, hf⟩ := fits_parseElements hdec hvs
      exact ⟨by omega, hf⟩

theorem decodeFuel_fits {fuel : Nat} {bs rest : Bytes} {v : RespValue}
    (h : decodeFuel fuel bs = .ok (v, rest)) : Fits v := by
  induction fuel generalizing bs rest v with
  | zero => cases h
  | succ fuel ih =>
      simp only [decodeFuel] at h
      split at h
      · cases h
      · obtain ⟨⟨tag, s⟩, -, h⟩ := bind_eq_ok.mp h
        split at h
        · cases h; trivial
        · split at h
          · cases h; trivial
          · split at h
            · split at h
              · next n hn =>
                  cases h
                  simpa [Fits] using parseSigned_bounds (by decide) hn
              · cases h
            · split at h
              · exact fits_parseBulkString h
              · split at h
                · exact fits_parseArray ih h
                · cases h

/-- **The decoder returns values that fit the machine.** -/
theorem decode_fits {bs rest : Bytes} {v : RespValue} (h : decode bs = .ok (v, rest)) : Fits v :=
  decodeFuel_fits h

end Thesaurus
