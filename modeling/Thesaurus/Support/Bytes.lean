import Mathlib.Data.List.Basic
import Mathlib.Tactic

/-!
# Support — Bytes

Byte strings, the UTF-8 reading of a string, and integers in a radix.

* `fromUtf8_utf8`, `utf8_of_fromUtf8`: a string and its bytes determine each other.
* `utf8_cons_cases`, `utf8_concat`: the character a string starts with, and an ASCII one at its end.
* `parseUnsigned_decimal`, `parseSigned_decimal`: the decimal rendering of an integer is read
  back, whenever it is within the bound of the type it is parsed at.
* `readLine_append`: a line reader stops at the first line feed and nowhere else.
-/

/-- A sequence of bytes. -/
abbrev Bytes := List UInt8

namespace Bytes

/-! ### UTF-8 -/

/-- The bytes of a string. -/
def utf8 (s : String) : Bytes := s.toByteArray.data.toList

/-- The string of a byte sequence, when it is valid UTF-8. -/
def fromUtf8 (b : Bytes) : Option String := String.fromUTF8? ⟨b.toArray⟩

@[simp] theorem fromUtf8_utf8 (s : String) : fromUtf8 (utf8 s) = some s := by
  have h : (⟨(utf8 s).toArray⟩ : ByteArray) = s.toByteArray := by simp [utf8]
  have hv : ByteArray.IsValidUTF8 ⟨(utf8 s).toArray⟩ := h ▸ s.isValidUTF8
  simp only [fromUtf8, String.fromUTF8?, hv, dite_true, Option.some.injEq]
  exact String.toByteArray_inj.mp h

theorem utf8_of_fromUtf8 {b : Bytes} {s : String} (h : fromUtf8 b = some s) : utf8 s = b := by
  unfold fromUtf8 String.fromUTF8? at h
  split at h
  · cases h; simp [utf8, String.fromUTF8]
  · cases h

theorem utf8_injective : Function.Injective utf8 := fun s t h => by
  simpa using congrArg fromUtf8 h

@[simp] theorem utf8_append (s t : String) : utf8 (s ++ t) = utf8 s ++ utf8 t := by
  simp [utf8, String.toByteArray_append]

theorem utf8_ofList (cs : List Char) :
    utf8 (String.ofList cs) = cs.flatMap String.utf8EncodeChar := by
  simp [utf8, List.utf8Encode]

theorem utf8EncodeChar_ascii {c : Char} (h : c.toNat < 128) :
    String.utf8EncodeChar c = [c.toNat.toUInt8] := by
  have hs : c.utf8Size = 1 :=
    Char.utf8Size_eq_one_iff.mpr (UInt32.le_iff_toNat_le.mpr (Nat.le_of_lt_succ h))
  rw [String.utf8EncodeChar_eq_singleton hs]
  rfl

theorem utf8_ofList_ascii {cs : List Char} (h : ∀ c ∈ cs, c.toNat < 128) :
    utf8 (String.ofList cs) = cs.map fun c => c.toNat.toUInt8 := by
  rw [utf8_ofList]
  induction cs with
  | nil => rfl
  | cons c cs ih =>
      rw [List.flatMap_cons, utf8EncodeChar_ascii (h c List.mem_cons_self),
        ih fun d hd => h d (List.mem_cons_of_mem _ hd)]
      rfl

/-- A string starts at the start of a character. -/
theorem isUTF8FirstByte_of_utf8 {s : String} {b : UInt8} {bs : Bytes} (h : utf8 s = b :: bs) :
    b.IsUTF8FirstByte := by
  have hlen : (utf8 s).length = s.toByteArray.size := by simp [utf8]
  have hsize : 0 < s.toByteArray.size := by rw [← hlen, h]; simp
  have hb : s.toByteArray[0] = b := by
    have hpos : 0 < (utf8 s).length := by rw [h]; simp
    have hget : s.toByteArray[0] = (utf8 s)[0] := by simp [utf8]; rfl
    exact hget.trans (by simp [h])
  exact hb ▸ s.isValidUTF8.isUTF8FirstByte_getElem_zero hsize

/-- A statement about every byte is one about 256 numbers. -/
theorem forall_byte {P : UInt8 → Prop} (h : ∀ n : Fin 256, P (UInt8.ofFin n)) (b : UInt8) : P b :=
  h b.toFin

theorem and_or_continuation (b : UInt8) : (b &&& 0x3f ||| 0x80) &&& 0xC0 = 0x80 :=
  forall_byte (P := fun b => (b &&& 0x3f ||| 0x80) &&& 0xC0 = 0x80) (by decide +kernel) b

theorem le_or_twoBytes (b : UInt8) : 128 ≤ (b &&& 0x1f ||| 0xc0) :=
  forall_byte (P := fun b => 128 ≤ (b &&& 0x1f ||| 0xc0)) (by decide +kernel) b

theorem le_or_threeBytes (b : UInt8) : 128 ≤ (b &&& 0x0f ||| 0xe0) :=
  forall_byte (P := fun b => 128 ≤ (b &&& 0x0f ||| 0xe0)) (by decide +kernel) b

theorem le_or_fourBytes (b : UInt8) : 128 ≤ (b &&& 0x07 ||| 0xf0) :=
  forall_byte (P := fun b => 128 ≤ (b &&& 0x07 ||| 0xf0)) (by decide +kernel) b

theorem le_of_continuation (b : UInt8) : b &&& 0xC0 = 0x80 → 128 ≤ b :=
  forall_byte (P := fun b => b &&& 0xC0 = 0x80 → 128 ≤ b) (by decide +kernel) b

/-- A character is one ASCII byte, or a byte above ASCII with continuation bytes after it. -/
theorem utf8EncodeChar_cases (c : Char) :
    (c.toNat < 128 ∧ String.utf8EncodeChar c = [c.toNat.toUInt8]) ∨
    (128 ≤ c.toNat ∧ ∃ b bs, String.utf8EncodeChar c = b :: bs ∧ 128 ≤ b ∧ bs ≠ [] ∧
      ∀ x ∈ bs, x &&& 0xC0 = 0x80) := by
  by_cases h : c.toNat < 128
  · exact .inl ⟨h, utf8EncodeChar_ascii h⟩
  · have h₁ : c.utf8Size ≠ 1 := fun he => by
      have := UInt32.le_iff_toNat_le.mp (Char.utf8Size_eq_one_iff.mp he)
      exact h (Nat.lt_succ_of_le this)
    refine .inr ⟨by omega, ?_⟩
    match hs : c.utf8Size, c.utf8Size_pos, c.utf8Size_le_four with
    | 1, _, _ => exact absurd hs h₁
    | 2, _, _ =>
        refine ⟨_, _, String.utf8EncodeChar_eq_cons_cons hs, le_or_twoBytes _, by simp, ?_⟩
        intro x hx
        simp only [List.mem_singleton] at hx
        exact hx ▸ and_or_continuation _
    | 3, _, _ =>
        refine ⟨_, _, String.utf8EncodeChar_eq_cons_cons_cons hs, le_or_threeBytes _, by simp, ?_⟩
        intro x hx
        simp only [List.mem_cons, List.not_mem_nil, or_false] at hx
        rcases hx with rfl | rfl <;> exact and_or_continuation _
    | 4, _, _ =>
        refine ⟨_, _, String.utf8EncodeChar_eq_cons_cons_cons_cons hs, le_or_fourBytes _, by simp,
          ?_⟩
        intro x hx
        simp only [List.mem_cons, List.not_mem_nil, or_false] at hx
        rcases hx with rfl | rfl | rfl <;> exact and_or_continuation _

theorem utf8_eq_flatMap (s : String) : utf8 s = s.toList.flatMap String.utf8EncodeChar := by
  rw [← utf8_ofList, String.ofList_toList]

/-- An ASCII byte of a string is one of its characters. -/
theorem mem_utf8_iff {b : UInt8} (hb : b < 128) (s : String) :
    b ∈ utf8 s ↔ ∃ c ∈ s.toList, c.toNat = b.toNat := by
  rw [utf8_eq_flatMap, List.mem_flatMap]
  refine exists_congr fun c => and_congr_right fun _ => ?_
  rcases utf8EncodeChar_cases c with ⟨hc, he⟩ | ⟨hc, x, bs, he, hx, -, hbs⟩
  · rw [he, List.mem_singleton, ← UInt8.toNat_inj]
    have : c.toNat.toUInt8.toNat = c.toNat := by simp; omega
    rw [this, eq_comm]
  · rw [he, List.mem_cons]
    rw [UInt8.lt_iff_toNat_lt] at hb
    have hb : b.toNat < 128 := hb
    constructor
    · rintro (rfl | hm)
      · exact absurd hx (by rw [UInt8.le_iff_toNat_le]; exact Nat.not_le.mpr hb)
      · have := le_of_continuation b (hbs b hm)
        exact absurd this (by rw [UInt8.le_iff_toNat_le]; exact Nat.not_le.mpr hb)
    · intro h
      omega

/-- **The first character of a string**: one ASCII byte before a string, or a byte above ASCII
with a continuation byte after it. -/
theorem utf8_cons_cases {s : String} {b : UInt8} {bs : Bytes} (h : utf8 s = b :: bs) :
    (b < 128 ∧ ∃ t, utf8 t = bs) ∨ (128 ≤ b ∧ ∃ x xs, bs = x :: xs ∧ x &&& 0xC0 = 0x80) := by
  rw [utf8_eq_flatMap] at h
  cases hs : s.toList with
  | nil => rw [hs] at h; cases h
  | cons c cs =>
      rw [hs, List.flatMap_cons] at h
      rcases utf8EncodeChar_cases c with ⟨hc, he⟩ | ⟨hc, x, xs, he, hx, hne, hxs⟩
      · rw [he, List.singleton_append, List.cons.injEq] at h
        obtain ⟨rfl, rfl⟩ := h
        refine .inl ⟨?_, String.ofList cs, utf8_ofList cs⟩
        rw [UInt8.lt_iff_toNat_lt]
        simp
        omega
      · rw [he, List.cons_append, List.cons.injEq] at h
        obtain ⟨rfl, rfl⟩ := h
        cases xs with
        | nil => exact absurd rfl hne
        | cons y ys => exact .inr ⟨hx, y, _, rfl, hxs y List.mem_cons_self⟩

/-- An ASCII byte at the end of a string is its last character. -/
theorem utf8_concat {s : String} {b : UInt8} {bs : Bytes} (hb : b < 128) (h : utf8 s = bs ++ [b]) :
    ∃ t, utf8 t = bs := by
  rw [utf8_eq_flatMap] at h
  rcases List.eq_nil_or_concat s.toList with hs | ⟨cs, c, hs⟩
  · rw [hs] at h
    exact absurd h.symm (by simp)
  · rw [hs, List.concat_eq_append, List.flatMap_append, List.flatMap_singleton] at h
    rcases utf8EncodeChar_cases c with ⟨hc, he⟩ | ⟨hc, x, xs, he, hx, hne, hxs⟩
    · rw [he] at h
      exact ⟨String.ofList cs, by rw [utf8_ofList]; exact (List.append_inj' h rfl).1⟩
    · obtain ⟨ys, y, rfl⟩ := (List.eq_nil_or_concat xs).resolve_left hne
      rw [he, List.concat_eq_append, ← List.cons_append, ← List.append_assoc] at h
      have hy : y = b := by simpa using (List.append_inj' h rfl).2
      have := le_of_continuation y (hxs y (by simp))
      rw [hy, UInt8.le_iff_toNat_le] at this
      exact absurd this (Nat.not_le.mpr (UInt8.lt_iff_toNat_lt.mp hb))

theorem toNat_of_isDigit {c : Char} (h : c.isDigit = true) : 48 ≤ c.toNat ∧ c.toNat ≤ 57 :=
  Char.isDigit_iff_toNat.mp h

/-! ### Integers in a radix -/

/-- The value of an ASCII digit, `char::to_digit`. -/
def digit (radix : Nat) (b : UInt8) : Option Nat :=
  let d :=
    if 48 ≤ b ∧ b ≤ 57 then b.toNat - 48
    else if 97 ≤ b ∧ b ≤ 122 then b.toNat - 87
    else if 65 ≤ b ∧ b ≤ 90 then b.toNat - 55
    else radix
  if d < radix then some d else none

/-- The value of a sequence of digits after `acc`. -/
def digits (radix : Nat) : Nat → Bytes → Option Nat
  | acc, []      => some acc
  | acc, b :: bs => (digit radix b).bind fun d => digits radix (radix * acc + d) bs

/-- The value of a non-empty sequence of digits, if it is below `bound`. -/
def magnitude (radix bound : Nat) (ds : Bytes) : Option Nat :=
  if ds = [] then none else (digits radix 0 ds).filter (· < bound)

/-- `from_str_radix` at an unsigned type whose values are below `bound`: an optional `+`, then
digits. -/
def parseUnsigned (radix bound : Nat) : Bytes → Option Nat
  | 43 :: ds => magnitude radix bound ds
  | ds       => magnitude radix bound ds

/-- `from_str` at a signed type with values from `-bound` to `bound - 1`: an optional sign, then
decimal digits. -/
def parseSigned (bound : Nat) : Bytes → Option Int
  | 43 :: ds => (magnitude 10 bound ds).map Int.ofNat
  | 45 :: ds => (magnitude 10 (bound + 1) ds).map fun n : Nat => -(n : Int)
  | ds       => (magnitude 10 bound ds).map Int.ofNat

theorem digit_digitChar {radix d : Nat} (hr : radix ≤ 16) (hd : d < radix) :
    digit radix (Nat.digitChar d).toNat.toUInt8 = some d := by
  have hall : ∀ r : Fin 17, ∀ d : Fin 16, d.val < r.val →
      digit r.val (Nat.digitChar d.val).toNat.toUInt8 = some d.val := by decide +kernel
  exact hall ⟨radix, Nat.lt_succ_of_le hr⟩ ⟨d, Nat.lt_of_lt_of_le hd hr⟩ hd

/-- What holds of every digit holds of the digits of a number. -/
theorem forall_mem_toDigits {radix : Nat} (hr : 1 < radix) {P : Char → Prop}
    (h : ∀ d < radix, P (Nat.digitChar d)) (n : Nat) : ∀ c ∈ Nat.toDigits radix n, P c := by
  induction n using Nat.strongRecOn with
  | ind n ih =>
      intro c hc
      rcases Nat.lt_or_ge n radix with hn | hn
      · rw [Nat.toDigits_of_lt_base hn, List.mem_singleton] at hc
        exact hc ▸ h n hn
      · rw [Nat.toDigits_of_base_le hr hn, List.mem_append, List.mem_singleton] at hc
        rcases hc with hc | rfl
        · exact ih _ (Nat.div_lt_self (by omega) hr) c hc
        · exact h _ (Nat.mod_lt _ (by omega))

theorem digits_append (radix acc : Nat) (xs ys : Bytes) :
    digits radix acc (xs ++ ys) = (digits radix acc xs).bind fun a => digits radix a ys := by
  induction xs generalizing acc with
  | nil => rfl
  | cons x xs ih =>
      rw [List.cons_append, digits, digits]
      cases digit radix x with
      | none => rfl
      | some d => exact ih _

/-- **Digits are read back**, in any radix up to sixteen. -/
theorem digits_toDigits {radix : Nat} (h₁ : 1 < radix) (h₂ : radix ≤ 16) (n : Nat) :
    digits radix 0 ((Nat.toDigits radix n).map fun c => c.toNat.toUInt8) = some n := by
  induction n using Nat.strongRecOn with
  | ind n ih =>
      rcases Nat.lt_or_ge n radix with hn | hn
      · rw [Nat.toDigits_of_lt_base hn, List.map_singleton, digits, digit_digitChar h₂ hn]
        simp [digits]
      · rw [Nat.toDigits_of_base_le h₁ hn, List.map_append, digits_append,
          ih _ (Nat.div_lt_self (by omega) h₁), Option.bind_some, List.map_singleton, digits,
          digit_digitChar h₂ (Nat.mod_lt _ (by omega))]
        simp [digits, Nat.div_add_mod]

/-- Zeros in front change nothing. -/
theorem digits_replicate {radix : Nat} (hr : 0 < radix) (k : Nat) (ds : Bytes) :
    digits radix 0 (List.replicate k 48 ++ ds) = digits radix 0 ds := by
  have hzero : digit radix 48 = some 0 := by
    simp [digit, hr]
  induction k with
  | zero => rfl
  | succ k ih =>
      rw [List.replicate_succ, List.cons_append, digits, hzero, Option.bind_some, ← ih]
      simp

/-- Without a sign, a number is its digits. -/
theorem parseUnsigned_of_not_mem {radix bound : Nat} {ds : Bytes} (h : (43 : UInt8) ∉ ds) :
    parseUnsigned radix bound ds = magnitude radix bound ds := by
  unfold parseUnsigned
  split
  · exact absurd List.mem_cons_self h
  · rfl

/-- The decimal rendering of a natural number. -/
def decimal (n : Nat) : Bytes := utf8 (toString n)

/-- The decimal rendering of an integer. -/
def decimalInt (n : Int) : Bytes := utf8 (toString n)

theorem decimal_eq_map (n : Nat) :
    decimal n = (Nat.toDigits 10 n).map fun c => c.toNat.toUInt8 := by
  have hd : ∀ c ∈ Nat.toDigits 10 n, c.toNat < 128 := fun c hc => by
    have := toNat_of_isDigit (Nat.isDigit_of_mem_toDigits (by decide) (by decide) hc)
    omega
  rw [decimal, show toString n = String.ofList (Nat.toDigits 10 n) from rfl, utf8_ofList_ascii hd]

theorem decimal_ne_nil (n : Nat) : decimal n ≠ [] := by
  rw [decimal_eq_map, Ne, List.map_eq_nil_iff]
  exact Nat.toDigits_ne_nil

/-- A decimal rendering holds digits only. -/
theorem mem_decimal {n : Nat} {b : UInt8} (h : b ∈ decimal n) : 48 ≤ b ∧ b ≤ 57 := by
  rw [decimal_eq_map, List.mem_map] at h
  obtain ⟨c, hc, rfl⟩ := h
  have := toNat_of_isDigit (Nat.isDigit_of_mem_toDigits (by decide) (by decide) hc)
  constructor <;> rw [UInt8.le_iff_toNat_le] <;> simp <;> omega

theorem digits_decimal (n : Nat) : digits 10 0 (decimal n) = some n := by
  rw [decimal_eq_map]
  exact digits_toDigits (by decide) (by decide) n

theorem magnitude_decimal {n bound : Nat} (h : n < bound) :
    magnitude 10 bound (decimal n) = some n := by
  simp [magnitude, decimal_ne_nil, digits_decimal, Option.filter, h]

/-- A decimal rendering starts with a digit, so with no sign. -/
theorem exists_cons_decimal (n : Nat) :
    ∃ b bs, decimal n = b :: bs ∧ b ≠ 43 ∧ b ≠ 45 := by
  cases h : decimal n with
  | nil => exact absurd h (decimal_ne_nil n)
  | cons b bs =>
      have hb := mem_decimal (n := n) (b := b) (by rw [h]; exact List.mem_cons_self)
      refine ⟨b, bs, rfl, ?_, ?_⟩ <;> rintro rfl <;> exact absurd hb.1 (by decide)

/-- **An unsigned integer is read back.** -/
theorem parseUnsigned_decimal {n bound : Nat} (h : n < bound) :
    parseUnsigned 10 bound (decimal n) = some n := by
  obtain ⟨b, bs, hb, h₁, -⟩ := exists_cons_decimal n
  have hm := magnitude_decimal h
  rw [hb] at hm ⊢
  rw [parseUnsigned, hm]
  simpa using h₁

theorem decimalInt_negSucc (n : Nat) : decimalInt (Int.negSucc n) = 45 :: decimal (n + 1) := by
  show utf8 ("-" ++ Nat.repr (n + 1)) = _
  rw [utf8_append]
  rfl

theorem parseSigned_decimal_ofNat {n bound : Nat} (h : n < bound) :
    parseSigned bound (decimal n) = some (n : Int) := by
  obtain ⟨b, bs, hb, h₁, h₂⟩ := exists_cons_decimal n
  have hm := magnitude_decimal h
  rw [hb] at hm ⊢
  rw [parseSigned, hm]
  · rfl
  · simpa using h₁
  · simpa using h₂

/-- **A signed integer is read back**, at a type with values from `-bound` to `bound - 1`. -/
theorem parseSigned_decimalInt {n : Int} {bound : Nat} (h₁ : -(bound : Int) ≤ n) (h₂ : n < bound) :
    parseSigned bound (decimalInt n) = some n := by
  cases n with
  | ofNat n => exact parseSigned_decimal_ofNat (by simpa using h₂)
  | negSucc n =>
      rw [decimalInt_negSucc, parseSigned, magnitude_decimal (by omega)]
      rfl

theorem mem_decimalInt {n : Int} {b : UInt8} (h : b ∈ decimalInt n) :
    b = 45 ∨ (48 ≤ b ∧ b ≤ 57) := by
  cases n with
  | ofNat n => exact .inr (mem_decimal h)
  | negSucc n =>
      rw [decimalInt_negSucc, List.mem_cons] at h
      exact h.imp_right mem_decimal

/-! ### Lines -/

/-- The bytes up to and including the first line feed, and what is left. -/
def readLine : Bytes → Bytes × Bytes
  | []      => ([], [])
  | b :: bs => if b = 10 then ([b], bs) else (b :: (readLine bs).1, (readLine bs).2)

/-- **A line reader stops at the first line feed.** -/
theorem readLine_append {line rest : Bytes} (h : (10 : UInt8) ∉ line) :
    readLine (line ++ 10 :: rest) = (line ++ [10], rest) := by
  induction line with
  | nil => simp [readLine]
  | cons b bs ih =>
      rw [List.mem_cons, not_or] at h
      rw [List.cons_append, readLine, if_neg (Ne.symm h.1), ih h.2]
      rfl

theorem readLine_of_not_mem {bs : Bytes} (h : (10 : UInt8) ∉ bs) : readLine bs = (bs, []) := by
  induction bs with
  | nil => rfl
  | cons b bs ih =>
      rw [List.mem_cons, not_or] at h
      rw [readLine, if_neg (Ne.symm h.1), ih h.2]

/-- Where the first line of the input ends. -/
theorem readLine_cases (bs : Bytes) :
    ((10 : UInt8) ∉ bs ∧ readLine bs = (bs, [])) ∨
      ∃ line rest, (10 : UInt8) ∉ line ∧ bs = line ++ 10 :: rest ∧
        readLine bs = (line ++ [10], rest) := by
  by_cases h : (10 : UInt8) ∈ bs
  · obtain ⟨line, rest, rfl, hl⟩ := List.eq_append_cons_of_mem h
    exact .inr ⟨line, rest, hl, rfl, readLine_append hl⟩
  · exact .inl ⟨h, readLine_of_not_mem h⟩

/-- A line and what is left of it make up the input. -/
theorem readLine_eq (bs : Bytes) : (readLine bs).1 ++ (readLine bs).2 = bs := by
  induction bs with
  | nil => rfl
  | cons b bs ih =>
      rw [readLine]
      split
      · rfl
      · rw [List.cons_append, ih]

end Bytes
