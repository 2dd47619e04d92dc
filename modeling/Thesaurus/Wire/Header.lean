import Thesaurus.Wire.RoundTrip

/-!
# Wire — headers

What the decoder does with the first line of its input, on any input.

* `decodeFuel_cases`: it fails, panics on a first character that is not ASCII, or goes on with a
  prefix byte and a text.
* `Header.shape`: how such a line can look.  It ends in CRLF, in a line feed alone, or with the
  input.
-/

namespace Thesaurus
open Bytes Outcome

/-- The first line of the input has the prefix byte `tag` and the text `text`, and `reader` is
left after it. -/
def Header (bs : Bytes) (tag : UInt8) (text : String) (reader : Bytes) : Prop :=
  ∃ line, readLine bs = (line, reader) ∧ (fromUtf8 line).isSome ∧ parseHeader line = .ok (tag, text)

/-- The first line of the input starts with a character of more than one byte. -/
def WideHeader (bs : Bytes) : Prop :=
  (fromUtf8 (readLine bs).1).isSome ∧ ∃ b, (readLine bs).1.head? = some b ∧ 128 ≤ b

/-- There is no first line, or it is not UTF-8. -/
def NoHeader (bs : Bytes) : Prop := (readLine bs).1 = [] ∨ fromUtf8 (readLine bs).1 = none

/-- A header determines its parts. -/
theorem Header.unique {bs reader reader' : Bytes} {tag tag' : UInt8} {text text' : String}
    (h : Header bs tag text reader) (h' : Header bs tag' text' reader') :
    tag = tag' ∧ text = text' ∧ reader = reader' := by
  obtain ⟨line, hr, -, hp⟩ := h
  obtain ⟨line', hr', -, hp'⟩ := h'
  cases hr.symm.trans hr'
  cases hp.symm.trans hp'
  exact ⟨rfl, rfl, rfl⟩

/-! ### The text of a line -/

theorem trimEndCrlf_of_getLast {bs : Bytes} (h : (10 : UInt8) ∉ bs) (hl : bs.getLast? ≠ some 13) :
    trimEndCrlf (bs ++ [10]) = bs ++ [10] := by
  rcases List.eq_nil_or_concat bs with rfl | ⟨init, last, rfl⟩
  · rfl
  · have hne : last ≠ 13 := by simpa using hl
    rw [trimEndCrlf, List.reverse_append, List.concat_eq_append, List.reverse_append]
    show (trimStartLfcr (10 :: last :: init.reverse)).reverse = _
    rw [trimStartLfcr]
    · simp
    · rintro bs he
      exact hne (List.cons.inj (List.cons.inj he).2).1

theorem trimEndCrlf_of_not_mem {bs : Bytes} (h : (10 : UInt8) ∉ bs) : trimEndCrlf bs = bs := by
  have hb : bs.reverse.head? ≠ some 10 := fun hh =>
    h (List.mem_reverse.mp (List.mem_of_mem_head? (by rw [hh]; rfl)))
  rw [trimEndCrlf, trimStartLfcr_of_ne hb, List.reverse_reverse]

/-- The three ways a line can end: with CRLF, with a line feed alone, or without either. -/
theorem trimEndCrlf_cases {rest : Bytes}
    (h : (10 : UInt8) ∉ rest ∨ ∃ l, (10 : UInt8) ∉ l ∧ rest = l ++ [10]) :
    (∃ l, (10 : UInt8) ∉ l ∧ rest = l ++ crlf ∧ trimEndCrlf rest = l) ∨
    (∃ l, (10 : UInt8) ∉ l ∧ l.getLast? ≠ some 13 ∧ rest = l ++ [10] ∧ trimEndCrlf rest = rest) ∨
    ((10 : UInt8) ∉ rest ∧ trimEndCrlf rest = rest) := by
  rcases h with h | ⟨l, h, rfl⟩
  · exact .inr (.inr ⟨h, trimEndCrlf_of_not_mem h⟩)
  · by_cases hl : l.getLast? = some 13
    · obtain ⟨init, rfl⟩ := List.getLast?_eq_some_iff.mp hl
      have hi : (10 : UInt8) ∉ init := fun hm => h (List.mem_append_left _ hm)
      refine .inl ⟨init, hi, by simp [crlf], ?_⟩
      rw [List.append_assoc]
      exact trimEndCrlf_append hi
    · exact .inr (.inl ⟨l, h, hl, rfl, trimEndCrlf_of_getLast h hl⟩)

/-- A string without a CRLF at its end is a string. -/
theorem utf8_of_append_crlf {s : String} {l : Bytes} (h : utf8 s = l ++ crlf) :
    ∃ t, utf8 t = l := by
  have h' : utf8 s = (l ++ [13]) ++ [10] := by rw [h]; simp [crlf]
  obtain ⟨t, ht⟩ := utf8_concat (by decide) h'
  exact utf8_concat (by decide) ht

/-- The line is not too long for what the decoder makes of it: at most one line feed, at its
end. -/
theorem line_cases {b : UInt8} {rest reader bs : Bytes} (h : readLine bs = (b :: rest, reader)) :
    ((10 : UInt8) ∉ rest ∨ ∃ l, (10 : UInt8) ∉ l ∧ rest = l ++ [10]) ∧
      ((10 : UInt8) ∉ b :: rest → reader = []) := by
  rcases readLine_cases bs with ⟨hbs, hr⟩ | ⟨line, tail, hline, -, hr⟩
  · rw [hr] at h
    cases h
    exact ⟨.inl fun hm => hbs (List.mem_cons_of_mem _ hm), fun _ => rfl⟩
  · rw [hr] at h
    obtain ⟨hl, rfl⟩ := Prod.mk.inj h
    refine ⟨?_, fun hm => absurd (hl ▸ List.mem_append_right line (List.mem_singleton.mpr rfl)) hm⟩
    cases line with
    | nil =>
        obtain ⟨-, rfl⟩ := List.cons.inj hl
        exact .inl (by simp)
    | cons x line =>
        obtain ⟨-, rfl⟩ := List.cons.inj hl
        exact .inr ⟨line, fun hm => hline (List.mem_cons_of_mem _ hm), rfl⟩

/-! ### The first line -/

/-- **What the decoder makes of a line** that is UTF-8. -/
theorem parseHeader_cases {bs reader : Bytes} {b : UInt8} {rest : Bytes} {s : String}
    (hr : readLine bs = (b :: rest, reader)) (hs : utf8 s = b :: rest) :
    (b < 128 ∧ ∃ text, utf8 text = trimEndCrlf rest ∧ parseHeader (b :: rest) = .ok (b, text)) ∨
      (128 ≤ b ∧ parseHeader (b :: rest) = .panic) := by
  rcases utf8_cons_cases hs with ⟨hb, t, rfl⟩ | ⟨hb, x, xs, rfl, hx⟩
  · have hbound : isCharBoundary (utf8 t) = true := by
      simpa using isCharBoundary_utf8 t (show isCharBoundary [] = true from rfl)
    obtain ⟨text, ht⟩ : ∃ text, utf8 text = trimEndCrlf (utf8 t) := by
      rcases trimEndCrlf_cases (line_cases hr).1 with ⟨l, -, hl, he⟩ | ⟨l, -, -, -, he⟩ | ⟨-, he⟩
      · rw [he]
        exact utf8_of_append_crlf hl
      · exact ⟨t, he.symm⟩
      · exact ⟨t, he.symm⟩
    refine .inl ⟨hb, text, ht, ?_⟩
    rw [parseHeader, if_pos hbound, ← ht, fromUtf8_utf8]
  · refine .inr ⟨hb, ?_⟩
    rw [parseHeader, if_neg]
    simp [isCharBoundary, hx]

/-- **The first line of any input**: none that the decoder can read, one that starts with a wide
character, or a header. -/
theorem header_cases (bs : Bytes) :
    NoHeader bs ∨ WideHeader bs ∨ ∃ tag text reader, Header bs tag text reader := by
  by_cases hno : NoHeader bs
  · exact .inl hno
  · refine .inr ?_
    rw [NoHeader, not_or] at hno
    obtain ⟨hne, hs⟩ := hno
    cases hline : (readLine bs).1 with
    | nil => exact absurd hline hne
    | cons b rest =>
        obtain ⟨s, hs⟩ := Option.ne_none_iff_exists'.mp hs
        have hr : readLine bs = (b :: rest, (readLine bs).2) := by rw [← hline]
        have hsome : (fromUtf8 (b :: rest)).isSome := by rw [← hline, hs]; rfl
        rcases parseHeader_cases hr (hline ▸ utf8_of_fromUtf8 hs) with
          ⟨-, text, -, hp⟩ | ⟨hb, -⟩
        · exact .inr ⟨b, text, (readLine bs).2, b :: rest, hr, hsome, hp⟩
        · exact .inl ⟨hline ▸ hsome, b, by rw [hline]; rfl, hb⟩

section Decode

variable {bs reader : Bytes} {tag : UInt8} {text : String} (fuel : Nat)

theorem decodeFuel_noHeader (h : NoHeader bs) : decodeFuel (fuel + 1) bs = .err .unexpectedEof := by
  rw [decodeFuel]
  exact if_pos h

theorem WideHeader.parseHeader_eq (h : WideHeader bs) : parseHeader (readLine bs).1 = .panic := by
  obtain ⟨hs, b, hb, hle⟩ := h
  cases hline : (readLine bs).1 with
  | nil => rw [hline] at hb; cases hb
  | cons x rest =>
      rw [hline] at hb hs
      cases hb
      obtain ⟨s, hs'⟩ := Option.isSome_iff_exists.mp hs
      have hr : readLine bs = (b :: rest, (readLine bs).2) := by rw [← hline]
      rcases parseHeader_cases hr (utf8_of_fromUtf8 hs') with ⟨hlt, -⟩ | ⟨-, hp⟩
      · exact absurd hle (UInt8.not_le.mpr hlt)
      · exact hp

theorem WideHeader.not_noHeader (h : WideHeader bs) : ¬NoHeader bs := by
  obtain ⟨hs, b, hb, -⟩ := h
  rintro (hno | hno)
  · rw [hno] at hb; cases hb
  · rw [hno] at hs; cases hs

theorem Header.not_wideHeader (h : Header bs tag text reader) : ¬WideHeader bs := fun hw => by
  obtain ⟨line, hr, -, hp⟩ := h
  have := hw.parseHeader_eq
  rw [hr] at this
  cases hp.symm.trans this

theorem Header.not_noHeader (h : Header bs tag text reader) : ¬NoHeader bs := fun hno => by
  obtain ⟨line, hr, hs, hp⟩ := h
  rw [NoHeader, hr] at hno
  rcases hno with rfl | hno
  · cases hp
  · rw [hno] at hs; cases hs

theorem decodeFuel_wideHeader (h : WideHeader bs) : decodeFuel (fuel + 1) bs = .panic := by
  have hno := h.not_noHeader
  rw [NoHeader] at hno
  rw [decodeFuel]
  simp only [hno, if_false, h.parseHeader_eq, panic_bind]

/-- The decoder goes on with the prefix byte and the text. -/
theorem decodeFuel_header (h : Header bs tag text reader) :
    decodeFuel (fuel + 1) bs =
      (if tag = 43 then .ok (.simpleString text, reader)
       else if tag = 45 then .ok (.simpleError text, reader)
       else if tag = 58 then
         match parseI64 text with
         | some n => .ok (.integer n, reader)
         | none   => .err (.invalidInteger text)
       else if tag = 36 then parseBulkString text reader
       else if tag = 42 then parseArray (decodeFuel fuel) text reader
       else .err (.unknownPrefix (Char.ofNat tag.toNat))) := by
  obtain ⟨line, hr, hs, hp⟩ := h
  obtain ⟨s, hs⟩ := Option.isSome_iff_exists.mp hs
  have hne : line ≠ [] := by
    rintro rfl
    cases hp
  have hline : ¬(line = [] ∨ fromUtf8 line = none) := by
    rintro (h | h)
    · exact hne h
    · cases hs.symm.trans h
  rw [decodeFuel, hr]
  dsimp only
  rw [if_neg hline, hp]
  rfl

theorem Header.length_lt (h : Header bs tag text reader) : reader.length < bs.length := by
  obtain ⟨line, hr, -, hp⟩ := h
  have hne : line ≠ [] := by
    rintro rfl
    cases hp
  have := congrArg List.length (readLine_eq bs)
  rw [List.length_append, hr] at this
  have := List.length_pos_iff.mpr hne
  dsimp only at *
  omega

/-- **How a header looks.**  It ends in CRLF, in a line feed alone, or with the input. -/
theorem Header.shape (h : Header bs tag text reader) (ht : tag ≠ 10) :
    ((10 : UInt8) ∉ utf8 text ∧ bs = encodeLine tag (utf8 text) ++ reader) ∨
    ((∃ l, (10 : UInt8) ∉ l ∧ l.getLast? ≠ some 13 ∧ utf8 text = l ++ [10]) ∧
      bs = tag :: utf8 text ++ reader) ∨
    ((10 : UInt8) ∉ utf8 text ∧ bs = tag :: utf8 text ∧ reader = []) := by
  obtain ⟨line, hr, hs, hp⟩ := h
  have hbs := readLine_eq bs
  rw [hr] at hbs
  cases line with
  | nil => cases hp
  | cons b rest =>
      obtain ⟨s, hs⟩ := Option.isSome_iff_exists.mp hs
      rcases parseHeader_cases hr (utf8_of_fromUtf8 hs) with ⟨-, text', htext, hp'⟩ | ⟨-, hp'⟩
      · cases hp.symm.trans hp'
        obtain ⟨hrest, hend⟩ := line_cases hr
        rcases trimEndCrlf_cases hrest with ⟨l, hl, he, htr⟩ | ⟨l, hl, hlast, he, htr⟩ | ⟨hl, htr⟩
        all_goals rw [htr] at htext
        · refine .inl ⟨htext ▸ hl, ?_⟩
          rw [← hbs, he, htext, encodeLine]
          simp
        · exact .inr (.inl ⟨⟨l, hl, hlast, by rw [htext, he]⟩, by rw [← hbs, htext]⟩)
        · have hrd : reader = [] := hend (by simp [Ne.symm ht, hl])
          refine .inr (.inr ⟨htext ▸ hl, ?_, hrd⟩)
          rw [← hbs, htext, hrd, List.append_nil]
      · cases hp.symm.trans hp'

end Decode

end Thesaurus
