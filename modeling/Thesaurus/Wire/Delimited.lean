import Thesaurus.Wire.Reads

/-!
# Wire — delimiters

`Frame v b`: the bytes `b` are a frame of `v` in which every line ends in CRLF and every bulk
string is followed by CRLF.  The decoder does not insist on that: `Lax` lists what it lets pass.

* `frame_iff_not_lax`: what the decoder consumed for a value is a frame exactly when it let
  nothing pass.
-/

namespace Thesaurus
open Bytes Outcome

mutual

/-- `b` is a frame of the value. -/
inductive Frame : RespValue → Bytes → Prop where
  | simpleString {text : String} (h : (10 : UInt8) ∉ utf8 text) :
      Frame (.simpleString text) (encodeLine 43 (utf8 text))
  | simpleError {text : String} (h : (10 : UInt8) ∉ utf8 text) :
      Frame (.simpleError text) (encodeLine 45 (utf8 text))
  | integer {text : String} {n : Int} (h : (10 : UInt8) ∉ utf8 text) (hn : parseI64 text = some n) :
      Frame (.integer n) (encodeLine 58 (utf8 text))
  | nullBulk {text : String} (h : (10 : UInt8) ∉ utf8 text) (hl : parseLength text = .ok (-1)) :
      Frame (.bulkString none) (encodeLine 36 (utf8 text))
  | bulk {text s : String} (h : (10 : UInt8) ∉ utf8 text)
      (hl : parseLength text = .ok ((utf8 s).length : Nat))
      (hsize : (utf8 s).length + 2 ≤ 2 ^ 63 - 1) :
      Frame (.bulkString (some s)) (encodeLine 36 (utf8 text) ++ (utf8 s ++ crlf))
  | nullArray {text : String} (h : (10 : UInt8) ∉ utf8 text) (hl : parseLength text = .ok (-1)) :
      Frame (.array none) (encodeLine 42 (utf8 text))
  | array {text : String} {items : List RespValue} {body : Bytes} (h : (10 : UInt8) ∉ utf8 text)
      (hl : parseLength text = .ok (items.length : Nat)) (hitems : Frames items body) :
      Frame (.array (some items)) (encodeLine 42 (utf8 text) ++ body)

/-- `b` is a frame of each of the values, one after the other. -/
inductive Frames : List RespValue → Bytes → Prop where
  | nil : Frames [] []
  | cons {v : RespValue} {vs : List RespValue} {b bs : Bytes} (h : Frame v b) (t : Frames vs bs) :
      Frames (v :: vs) (b ++ bs)

end

/-- What the decoder lets pass: a last line that the input cuts off, a simple string or error that
ends in a line feed alone, and a bulk string with anything else than CRLF behind it. -/
inductive Lax : Bytes → Prop where
  | cut {bs reader : Bytes} {tag : UInt8} {text : String} (h : Header bs tag text reader)
      (hc : (10 : UInt8) ∉ bs) : Lax bs
  | lineFeed {bs reader : Bytes} {tag : UInt8} {text : String} (h : Header bs tag text reader)
      (ht : tag = 43 ∨ tag = 45) (hlf : (10 : UInt8) ∈ utf8 text) : Lax bs
  | terminator {bs reader : Bytes} {text : String} {n : Nat} (h : Header bs 36 text reader)
      (hl : parseLength text = .ok n) (ht : (reader.drop n).take 2 ≠ crlf) : Lax bs
  | item {bs reader reader' : Bytes} {text : String} {n k : Nat} {vs : List RespValue}
      (h : Header bs 42 text reader) (hl : parseLength text = .ok n) (hk : k < n)
      (hitems : ReadsItems k reader vs reader') (hlax : Lax reader') : Lax bs

/-! ### Headers -/

theorem header_encodeLine (tag : UInt8) {text : String} (name : String) (hname : utf8 name = [tag])
    (ht : tag ≠ 10) (h : (10 : UInt8) ∉ utf8 text) (reader : Bytes) :
    Header (encodeLine tag (utf8 text) ++ reader) tag text reader := by
  refine ⟨encodeLine tag (utf8 text), readLine_encodeLine ht h reader, ?_,
    parseHeader_encodeLine tag h⟩
  rw [utf8_toLine name text hname, fromUtf8_utf8]
  rfl

section Header

variable {bs reader : Bytes} {tag : UInt8} {text : String}

/-- A header ends in CRLF unless the input cuts it off or its text holds a line feed. -/
theorem Header.delimited_iff (h : Header bs tag text reader) (ht : tag ≠ 10) :
    ((10 : UInt8) ∉ utf8 text ∧ bs = encodeLine tag (utf8 text) ++ reader) ↔
      (10 : UInt8) ∈ bs ∧ (10 : UInt8) ∉ utf8 text := by
  constructor
  · rintro ⟨hx, rfl⟩
    exact ⟨by simp [encodeLine, crlf], hx⟩
  · rintro ⟨hb, hx⟩
    rcases h.shape ht with h | ⟨⟨l, -, -, hl⟩, -⟩ | ⟨-, hbs, -⟩
    · exact h
    · exact absurd (by rw [hl]; simp) hx
    · rw [hbs, List.mem_cons] at hb
      exact absurd hb (not_or.mpr ⟨Ne.symm ht, hx⟩)

theorem mem_of_not_lax (h : Header bs tag text reader) (hlax : ¬Lax bs) : (10 : UInt8) ∈ bs := by
  by_contra hc
  exact hlax (.cut h hc)

end Header

theorem digit_of_mem {radix acc n : Nat} {ds : Bytes} (h : digits radix acc ds = some n) {b : UInt8}
    (hb : b ∈ ds) : (digit radix b).isSome := by
  induction ds generalizing acc with
  | nil => cases hb
  | cons x xs ih =>
      rw [digits, Option.bind_eq_some_iff] at h
      obtain ⟨d, hd, h⟩ := h
      rcases List.mem_cons.mp hb with rfl | hb
      · rw [hd]; rfl
      · exact ih h hb

theorem digit_of_magnitude {bound n : Nat} {ds : Bytes} (h : magnitude 10 bound ds = some n)
    {b : UInt8} (hb : b ∈ ds) : (digit 10 b).isSome := by
  unfold magnitude at h
  split at h
  · cases h
  · exact digit_of_mem (Option.filter_eq_some_iff.mp h).1 hb

/-- An integer is spelled with digits and a sign. -/
theorem mem_of_parseI64 {text : String} {n : Int} (h : parseI64 text = some n) {b : UInt8}
    (hb : b ∈ utf8 text) : b = 43 ∨ b = 45 ∨ (digit 10 b).isSome := by
  unfold parseI64 parseSigned at h
  split at h <;> obtain ⟨m, hm, -⟩ := Option.map_eq_some_iff.mp h
  · next he =>
      rw [he, List.mem_cons] at hb
      exact hb.imp id fun hb => .inr (digit_of_magnitude hm hb)
  · next he =>
      rw [he, List.mem_cons] at hb
      exact .inr (hb.imp id (digit_of_magnitude hm))
  · exact .inr (.inr (digit_of_magnitude hm hb))

theorem not_mem_of_parseI64 {text : String} {n : Int} (h : parseI64 text = some n) :
    (10 : UInt8) ∉ utf8 text := fun hm => by
  rcases mem_of_parseI64 h hm with h | h | h
  · exact absurd h (by decide)
  · exact absurd h (by decide)
  · exact absurd h (by decide)

theorem not_mem_of_parseLength {text : String} {n : Int} (h : parseLength text = .ok n) :
    (10 : UInt8) ∉ utf8 text := by
  unfold parseLength at h
  split at h
  · cases h
  · next m hm => exact not_mem_of_parseI64 hm

/-- What the decoder lets pass after a header. -/
theorem lax_iff_of_header {bs reader : Bytes} {tag : UInt8} {text : String}
    (h : Header bs tag text reader) :
    Lax bs ↔ (10 : UInt8) ∉ bs ∨ ((tag = 43 ∨ tag = 45) ∧ (10 : UInt8) ∈ utf8 text) ∨
      (tag = 36 ∧ ∃ n : Nat, parseLength text = .ok n ∧ (reader.drop n).take 2 ≠ crlf) ∨
      (tag = 42 ∧ ∃ n : Nat, parseLength text = .ok n ∧
        ∃ k vs reader', k < n ∧ ReadsItems k reader vs reader' ∧ Lax reader') := by
  constructor
  · intro hlax
    cases hlax with
    | cut h' hc => exact .inl hc
    | lineFeed h' ht hlf =>
        obtain ⟨rfl, rfl, rfl⟩ := h.unique h'
        exact .inr (.inl ⟨ht, hlf⟩)
    | terminator h' hl ht =>
        obtain ⟨rfl, rfl, rfl⟩ := h.unique h'
        exact .inr (.inr (.inl ⟨rfl, _, hl, ht⟩))
    | item h' hl hk hitems hlax =>
        obtain ⟨rfl, rfl, rfl⟩ := h.unique h'
        exact .inr (.inr (.inr ⟨rfl, _, hl, _, _, _, hk, hitems, hlax⟩))
  · rintro (hc | ⟨ht, hlf⟩ | ⟨rfl, n, hl, ht⟩ | ⟨rfl, n, hl, k, vs, reader', hk, hitems, hlax⟩)
    · exact .cut h hc
    · exact .lineFeed h ht hlf
    · exact .terminator h hl ht
    · exact .item h hl hk hitems hlax

/-- A line that ends in CRLF holds a line feed. -/
theorem mem_encodeLine (tag : UInt8) (payload : Bytes) : (10 : UInt8) ∈ encodeLine tag payload := by
  simp [encodeLine, crlf]

/-! ### Frames are read, and nothing passes -/

mutual

theorem Frame.reads : ∀ {v : RespValue} {b : Bytes}, Frame v b → ∀ rest,
    Reads (b ++ rest) v rest ∧ ¬Lax (b ++ rest)
  | _, _, .simpleString h, rest => by
      have hh := header_encodeLine 43 "+" rfl (by decide) h rest
      exact ⟨.simpleString hh, by simp [lax_iff_of_header hh, mem_encodeLine, h]⟩
  | _, _, .simpleError h, rest => by
      have hh := header_encodeLine 45 "-" rfl (by decide) h rest
      exact ⟨.simpleError hh, by simp [lax_iff_of_header hh, mem_encodeLine, h]⟩
  | _, _, .integer h hn, rest => by
      have hh := header_encodeLine 58 ":" rfl (by decide) h rest
      exact ⟨.integer hh hn, by simp [lax_iff_of_header hh, mem_encodeLine]⟩
  | _, _, .nullBulk h hl, rest => by
      have hh := header_encodeLine 36 "$" rfl (by decide) h rest
      refine ⟨.nullBulk hh hl, ?_⟩
      simp [lax_iff_of_header hh, mem_encodeLine, hl]
  | _, _, .bulk (s := s) h hl hsize, rest => by
      have hh := header_encodeLine 36 "$" rfl (by decide) h (utf8 s ++ crlf ++ rest)
      rw [← List.append_assoc] at hh
      -- the text is taken by its length, so no CR or LF in it ends it
      have hdrop : (utf8 s ++ crlf ++ rest).drop (utf8 s).length = crlf ++ rest := by
        rw [List.append_assoc, List.drop_left]
      refine ⟨?_, ?_⟩
      · have hr := Reads.bulk hh hl hsize (by simp [crlf])
          (by rw [List.append_assoc, List.take_left]; exact fromUtf8_utf8 s)
        rwa [← List.drop_drop, hdrop] at hr
      · rw [lax_iff_of_header hh]
        rintro (hc | ⟨ht, -⟩ | ⟨-, n, hl', ht⟩ | ⟨ht, -⟩)
        · rw [List.append_assoc] at hc
          exact hc (List.mem_append_left _ (mem_encodeLine _ _))
        · simp at ht
        · cases hl.symm.trans hl'
          rw [hdrop] at ht
          exact ht rfl
        · simp at ht
  | _, _, .nullArray h hl, rest => by
      have hh := header_encodeLine 42 "*" rfl (by decide) h rest
      refine ⟨.nullArray hh hl, ?_⟩
      simp [lax_iff_of_header hh, mem_encodeLine, hl]
  | _, _, @Frame.array _ _ body h hl hitems, rest => by
      have hh := header_encodeLine 42 "*" rfl (by decide) h (body ++ rest)
      rw [← List.append_assoc] at hh
      obtain ⟨hr, hnot⟩ := hitems.reads rest
      refine ⟨.array hh hl hr, ?_⟩
      rw [lax_iff_of_header hh]
      rintro (hc | ⟨ht, -⟩ | ⟨ht, -⟩ | ⟨-, n, hl', k, vs, reader', hk, hitems', hlax⟩)
      · rw [List.append_assoc] at hc
        exact hc (List.mem_append_left _ (mem_encodeLine _ _))
      · simp at ht
      · simp at ht
      · cases hl.symm.trans hl'
        -- a lax value among the items would follow items that are frames
        exact hnot k vs reader' hk hitems' hlax

theorem Frames.reads : ∀ {vs : List RespValue} {b : Bytes}, Frames vs b → ∀ rest,
    ReadsItems vs.length (b ++ rest) vs rest ∧
      ∀ k vs' bs', k < vs.length → ReadsItems k (b ++ rest) vs' bs' → ¬Lax bs'
  | _, _, .nil, rest => ⟨.nil _, fun _ _ _ hk => absurd hk (Nat.not_lt_zero _)⟩
  | _, _, @Frames.cons _ _ b bs h t, rest => by
      obtain ⟨hr, hnot⟩ := h.reads (bs ++ rest)
      obtain ⟨hrs, hnots⟩ := t.reads rest
      rw [← List.append_assoc] at hr hnot
      refine ⟨.cons hr hrs, fun k vs' bs' hk hitems => ?_⟩
      cases hitems with
      | nil => exact hnot
      | cons h' t' =>
          obtain ⟨-, rfl⟩ := hr.unique h'
          exact hnots _ _ _ (Nat.lt_of_succ_lt_succ hk) t'

end

/-! ### Where nothing passes, frames are read -/

/-- The header of input in which nothing passes ends in CRLF. -/
theorem Header.eq_encodeLine {bs reader : Bytes} {tag : UInt8} {text : String}
    (h : Header bs tag text reader) (ht : tag ≠ 10) (hlax : ¬Lax bs)
    (hx : (10 : UInt8) ∉ utf8 text) : bs = encodeLine tag (utf8 text) ++ reader :=
  ((h.delimited_iff ht).mpr ⟨mem_of_not_lax h hlax, hx⟩).2

mutual

theorem Reads.frame : ∀ {bs rest : Bytes} {v : RespValue}, Reads bs v rest → ¬Lax bs →
    ∃ b, bs = b ++ rest ∧ Frame v b
  | _, _, _, .simpleString h, hlax => by
      have hx := fun hm => hlax (.lineFeed h (.inl rfl) hm)
      exact ⟨_, h.eq_encodeLine (by decide) hlax hx, .simpleString hx⟩
  | _, _, _, .simpleError h, hlax => by
      have hx := fun hm => hlax (.lineFeed h (.inr rfl) hm)
      exact ⟨_, h.eq_encodeLine (by decide) hlax hx, .simpleError hx⟩
  | _, _, _, .integer h hn, hlax => by
      have hx := not_mem_of_parseI64 hn
      exact ⟨_, h.eq_encodeLine (by decide) hlax hx, .integer hx hn⟩
  | _, _, _, .nullBulk h hl, hlax => by
      have hx := not_mem_of_parseLength hl
      exact ⟨_, h.eq_encodeLine (by decide) hlax hx, .nullBulk hx hl⟩
  | _, _, _, @Reads.bulk _ reader _ s n h hl hsize hlen hs, hlax => by
      have hx := not_mem_of_parseLength hl
      have hcrlf : (reader.drop n).take 2 = crlf := by
        by_contra hne
        exact hlax (.terminator h hl hne)
      have hutf : utf8 s = reader.take n := utf8_of_fromUtf8 hs
      have hn : (utf8 s).length = n := by
        rw [hutf, List.length_take]
        omega
      have hreader : reader = utf8 s ++ crlf ++ reader.drop (n + 2) := by
        rw [hutf, ← hcrlf, List.append_assoc, ← List.drop_drop, List.take_append_drop,
          List.take_append_drop]
      refine ⟨_, ?_, .bulk hx (by rw [hn]; exact hl) (by omega)⟩
      rw [List.append_assoc, ← hreader]
      exact h.eq_encodeLine (by decide) hlax hx
  | _, _, _, .nullArray h hl, hlax => by
      have hx := not_mem_of_parseLength hl
      exact ⟨_, h.eq_encodeLine (by decide) hlax hx, .nullArray hx hl⟩
  | _, _, _, .array h hl hitems, hlax => by
      have hx := not_mem_of_parseLength hl
      obtain ⟨body, hbody, hframes, hlen⟩ := hitems.frames fun k vs bs' hk hr hl' =>
        hlax (.item h hl hk hr hl')
      refine ⟨_, ?_, .array hx (by rw [hlen]; exact hl) hframes⟩
      rw [List.append_assoc, ← hbody]
      exact h.eq_encodeLine (by decide) hlax hx

theorem ReadsItems.frames : ∀ {n : Nat} {bs rest : Bytes} {vs : List RespValue},
    ReadsItems n bs vs rest →
    (∀ k vs' bs', k < n → ReadsItems k bs vs' bs' → ¬Lax bs') →
    ∃ b, bs = b ++ rest ∧ Frames vs b ∧ vs.length = n
  | _, _, _, _, .nil _, _ => ⟨[], rfl, .nil, rfl⟩
  | _, _, _, _, .cons h t, hlax => by
      obtain ⟨b, rfl, hb⟩ := h.frame (hlax 0 [] _ (Nat.succ_pos _) (.nil _))
      obtain ⟨bs, rfl, hbs, hlen⟩ := t.frames fun k vs' bs' hk hr =>
        hlax (k + 1) _ bs' (Nat.succ_lt_succ hk) (.cons h hr)
      exact ⟨b ++ bs, (List.append_assoc _ _ _).symm, .cons hb hbs, by rw [List.length_cons, hlen]⟩

end

/-- **What was consumed is a frame** exactly when the decoder let nothing pass: neither a last
line cut off by the end of the input, nor a simple string or error that ends in a line feed alone,
nor a bulk string with anything else than CRLF behind it. -/
theorem frame_iff_not_lax {bs rest : Bytes} {v : RespValue} (h : decode bs = .ok (v, rest)) :
    (∃ b, bs = b ++ rest ∧ Frame v b) ↔ ¬Lax bs := by
  constructor
  · rintro ⟨b, rfl, hb⟩
    exact (hb.reads rest).2
  · exact (decode_eq_ok_iff.mp h).frame

/-- The array of `GET` and `k`, as a client sends it. -/
theorem frame_iff_not_lax_array :
    let v := RespValue.array (some [.bulkString (some "GET"), .bulkString (some "k")])
    decode (encode v) = .ok (v, []) ∧ ¬Lax (encode v) := by
  intro v
  have hfits : Fits v := ⟨by decide, show (utf8 "GET").length + 2 ≤ 2 ^ 63 - 1 by decide,
    show (utf8 "k").length + 2 ≤ 2 ^ 63 - 1 by decide, trivial⟩
  have hd : decode (encode v ++ []) = .ok (v, []) :=
    decode_encode hfits ⟨trivial, trivial, trivial⟩ []
  rw [List.append_nil] at hd
  have hget : Frame (.bulkString (some "GET")) (encode (.bulkString (some "GET"))) :=
    @Frame.bulk "3" "GET" (by decide) (by decide +kernel) (by decide)
  have hkey : Frame (.bulkString (some "k")) (encode (.bulkString (some "k"))) :=
    @Frame.bulk "1" "k" (by decide) (by decide +kernel) (by decide)
  have hv : Frame v (encode v) :=
    @Frame.array "2" _ _ (by decide) (by decide +kernel) (.cons hget (.cons hkey .nil))
  exact ⟨hd, (frame_iff_not_lax hd).mp ⟨_, (List.append_nil _).symm, hv⟩⟩

/-- `$2`, `OK`, and then two other bytes: the decoder takes them for the CRLF. -/
theorem decode_accepts_undelimited :
    ¬∀ (bs rest : Bytes) (v : RespValue), decode bs = .ok (v, rest) →
      ∃ b, bs = b ++ rest ∧ Frame v b := fun hall => by
  have hh : Header (encodeLine 36 (utf8 "2") ++ [79, 75, 88, 88]) 36 "2" [79, 75, 88, 88] :=
    header_encodeLine 36 "$" rfl (by decide) (by decide) _
  have hl : parseLength "2" = .ok ((2 : Nat) : Int) := by decide +kernel
  have hr : Reads (encodeLine 36 (utf8 "2") ++ [79, 75, 88, 88]) (.bulkString (some "OK")) [] :=
    .bulk hh hl (by decide) (by decide) (fromUtf8_utf8 "OK")
  obtain ⟨b, hb, hf⟩ := hall _ _ _ (decode_eq_ok_iff.mpr hr)
  have hlax := (hf.reads []).2
  rw [← hb] at hlax
  exact hlax (.terminator hh hl (by decide))

end Thesaurus
