import Thesaurus.Support.Bytes

/-!
# Support — Arrival

A reader of a stream whose bytes come in pieces.  Between two reads it is suspended at a line or
at a number of bytes, and it goes on once these have arrived, or once the stream has ended.

* `Reader.settle`: how far a reader gets with the bytes that have arrived.  `Reader.finish`: how
  far it gets when they are the last ones.
* `settle_append`, `finish_append`, `feed_eq`: it gets as far with bytes that come in pieces as
  with the same bytes at once.
* `Walk`: a way of a reader through bytes that hold exactly what it asks for.  `Walk.settle` goes
  the way, `Walk.stays` says where a reader stands that has some of these bytes only.
-/

namespace Arrival
open Bytes

/-- What a reader waits for. -/
inductive Want where
  /-- A line with its line feed, or what is left when the stream ends. -/
  | line
  /-- `n` bytes, or fewer when the stream ends. -/
  | exact (n : Nat)
  /-- It reads no more. -/
  | nothing

/-- The bytes that are waited for, if they have arrived, and the bytes behind them. -/
def Want.ready : Want → Bytes → Option (Bytes × Bytes)
  | .line,    buf => if (10 : UInt8) ∈ buf then some (readLine buf) else none
  | .exact n, buf => if n ≤ buf.length then some (buf.take n, buf.drop n) else none
  | .nothing, _   => none

/-- The bytes that a read returns when no more will arrive, and the bytes behind them. -/
def Want.last : Want → Bytes → Option (Bytes × Bytes)
  | .line,    buf => some (readLine buf)
  | .exact n, buf => some (buf.take n, buf.drop n)
  | .nothing, _   => none

/-- The bytes are one complete read. -/
def Want.Met : Want → Bytes → Prop
  | .line,    piece => ∃ line, (10 : UInt8) ∉ line ∧ piece = line ++ [10]
  | .exact n, piece => piece.length = n
  | .nothing, _     => False

/-- A reader: what it waits for in each of its states, and how it goes on with it. -/
structure Reader (σ : Type) where
  want : σ → Want
  take : σ → Bytes → σ
  exact_pos : ∀ {s : σ} {n : Nat}, want s = .exact n → 0 < n
  /-- It ends at the end of the stream. -/
  take_nil : ∀ s, want (take s []) = .nothing

theorem Want.ready_append {w : Want} {a piece rest : Bytes}
    (h : w.ready a = some (piece, rest))
    (b : Bytes) : w.ready (a ++ b) = some (piece, rest ++ b) := by
  cases w with
  | nothing => cases h
  | line =>
      simp only [Want.ready] at h ⊢
      split at h
      · next hmem =>
          rcases readLine_cases a with ⟨hno, -⟩ | ⟨line, tail, hl, rfl, hr⟩
          · exact absurd hmem hno
          · rw [hr] at h
            cases h
            rw [if_pos (List.mem_append_left _ hmem), List.append_assoc, List.cons_append,
              readLine_append hl]
      · cases h
  | exact n =>
      simp only [Want.ready] at h ⊢
      split at h
      · next hle =>
          cases h
          rw [if_pos (by rw [List.length_append]; omega), List.take_append_of_le_length hle,
            List.drop_append_of_le_length hle]
      · cases h

theorem Want.last_of_ready {w : Want} {buf : Bytes} {p : Bytes × Bytes}
    (h : w.ready buf = some p) : w.last buf = some p := by
  cases w with
  | nothing => cases h
  | line =>
      rw [Want.ready] at h
      split at h
      · exact h
      · cases h
  | exact n =>
      rw [Want.ready] at h
      split at h
      · exact h
      · cases h

theorem Want.Met.ready {w : Want} {piece : Bytes} (h : w.Met piece) (rest : Bytes) :
    w.ready (piece ++ rest) = some (piece, rest) := by
  cases w with
  | nothing => exact h.elim
  | line =>
      obtain ⟨line, hl, rfl⟩ := h
      rw [Want.ready, if_pos (by simp), List.append_assoc, List.cons_append, List.nil_append,
        readLine_append hl]
  | exact n =>
      obtain rfl : piece.length = n := h
      rw [Want.ready, if_pos (by simp), List.take_left, List.drop_left]

/-- A part of a read is not enough. -/
theorem Want.Met.not_ready {w : Want} {piece q : Bytes} (h : w.Met piece) (hq : q <+: piece)
    (hne : q ≠ piece) : w.ready q = none := by
  cases w with
  | nothing => exact h.elim
  | line =>
      obtain ⟨line, hl, rfl⟩ := h
      rw [List.prefix_concat_iff] at hq
      rcases hq with hq | hq
      · exact absurd hq hne
      · exact if_neg fun hmem => hl (hq.subset hmem)
  | exact n =>
      obtain rfl : piece.length = n := h
      refine if_neg fun hle => hne (hq.eq_of_length ?_)
      have := hq.length_le
      omega

namespace Reader

variable {σ : Type} (m : Reader σ)

/-- The read of a state takes bytes off the stream. -/
theorem length_ready {s : σ} {buf piece rest : Bytes}
    (h : (m.want s).ready buf = some (piece, rest)) : rest.length < buf.length := by
  cases hw : m.want s with
  | nothing => rw [hw] at h; cases h
  | line =>
      rw [hw, Want.ready] at h
      split at h
      · next hmem =>
          rcases readLine_cases buf with ⟨hno, -⟩ | ⟨line, tail, -, rfl, hr⟩
          · exact absurd hmem hno
          · rw [hr] at h
            cases h
            simp
            omega
      · cases h
  | exact n =>
      have hpos := m.exact_pos hw
      rw [hw, Want.ready] at h
      split at h
      · cases h
        rw [List.length_drop]
        omega
      · cases h

/-! ### Bytes that have arrived -/

/-- `settle`, with a bound on the number of reads. -/
def settleFuel : Nat → σ → Bytes → σ × Bytes
  | 0,        s, buf => (s, buf)
  | fuel + 1, s, buf =>
      match (m.want s).ready buf with
      | some (piece, rest) => settleFuel fuel (m.take s piece) rest
      | none               => (s, buf)

/-- Where a reader is suspended after the reads that the bytes suffice for, and the bytes that
are left.  Each read takes a byte, so the bound is not reached. -/
def settle (s : σ) (buf : Bytes) : σ × Bytes := m.settleFuel buf.length s buf

theorem ready_nil (s : σ) : (m.want s).ready [] = none := by
  cases h : (m.want s).ready [] with
  | none => rfl
  | some p => exact absurd (m.length_ready h) (Nat.not_lt_zero _)

theorem settleFuel_eq {fuel fuel' : Nat} {s : σ} {buf : Bytes} (h : buf.length ≤ fuel)
    (h' : buf.length ≤ fuel') : m.settleFuel fuel s buf = m.settleFuel fuel' s buf := by
  induction fuel generalizing fuel' s buf with
  | zero =>
      obtain rfl : buf = [] := List.length_eq_zero_iff.mp (by omega)
      cases fuel' with
      | zero => rfl
      | succ n => rw [settleFuel, settleFuel, m.ready_nil]
  | succ fuel ih =>
      cases fuel' with
      | zero =>
          obtain rfl : buf = [] := List.length_eq_zero_iff.mp (by omega)
          rw [settleFuel, settleFuel, m.ready_nil]
      | succ fuel' =>
          rw [settleFuel, settleFuel]
          cases hr : (m.want s).ready buf with
          | none => rfl
          | some p =>
              have := m.length_ready hr
              exact ih (by omega) (by omega)

theorem settle_of_ready {s : σ} {buf piece rest : Bytes}
    (h : (m.want s).ready buf = some (piece, rest)) :
    m.settle s buf = m.settle (m.take s piece) rest := by
  have hlt := m.length_ready h
  obtain ⟨n, hn⟩ : ∃ n, buf.length = n + 1 := ⟨buf.length - 1, by omega⟩
  rw [settle, hn, settleFuel, h]
  exact m.settleFuel_eq (by omega) (le_refl _)

theorem settle_of_not_ready {s : σ} {buf : Bytes} (h : (m.want s).ready buf = none) :
    m.settle s buf = (s, buf) := by
  rw [settle]
  cases buf.length with
  | zero => rfl
  | succ n => rw [settleFuel, h]

theorem settle_of_ended {s : σ} (h : m.want s = .nothing) (buf : Bytes) :
    m.settle s buf = (s, buf) :=
  m.settle_of_not_ready (by rw [h]; rfl)

/-- **Two pieces.**  A reader gets as far with bytes that come in two pieces as with the same
bytes at once. -/
theorem settle_append (s : σ) (a b : Bytes) :
    m.settle (m.settle s a).1 ((m.settle s a).2 ++ b) = m.settle s (a ++ b) := by
  induction hn : a.length using Nat.strongRecOn generalizing s a with
  | _ n ih =>
      subst hn
      cases hr : (m.want s).ready a with
      | none => rw [m.settle_of_not_ready hr]
      | some p =>
          obtain ⟨piece, rest⟩ := p
          rw [m.settle_of_ready hr, m.settle_of_ready (Want.ready_append hr b)]
          exact ih _ (m.length_ready hr) _ _ rfl

/-- The pieces arrive one after the other. -/
def feed : List Bytes → σ × Bytes → σ × Bytes
  | [],              c => c
  | piece :: pieces, c => feed pieces (m.settle c.1 (c.2 ++ piece))

/-- **Any number of pieces.** -/
theorem feed_settle (pieces : List Bytes) (s : σ) (buf : Bytes) :
    m.feed pieces (m.settle s buf) = m.settle s (buf ++ pieces.flatten) := by
  induction pieces generalizing s buf with
  | nil => rw [feed, List.flatten_nil, List.append_nil]
  | cons piece pieces ih => rw [feed, m.settle_append, ih, List.flatten_cons, List.append_assoc]

theorem feed_eq (pieces : List Bytes) (s : σ) :
    m.feed pieces (s, []) = m.settle s pieces.flatten :=
  m.feed_settle pieces s []

/-! ### The end of the stream -/

/-- `finish`, with a bound on the number of reads. -/
def finishFuel : Nat → σ → Bytes → σ
  | 0,        s, _   => s
  | fuel + 1, s, buf =>
      match (m.want s).last buf with
      | some (piece, rest) => finishFuel fuel (m.take s piece) rest
      | none               => s

/-- Where a reader ends when the stream ends behind the bytes. -/
def finish (s : σ) (buf : Bytes) : σ := m.finishFuel (buf.length + 1) s buf

theorem last_nil {w : Want} {p : Bytes × Bytes} (h : w.last [] = some p) : p = ([], []) := by
  cases w with
  | nothing => cases h
  | line => cases h; rfl
  | exact n =>
      cases h
      rw [List.take_nil, List.drop_nil]

theorem length_last {s : σ} {buf piece rest : Bytes} (hb : buf ≠ [])
    (h : (m.want s).last buf = some (piece, rest)) : rest.length < buf.length := by
  cases hw : m.want s with
  | nothing => rw [hw] at h; cases h
  | line =>
      rw [hw] at h
      obtain ⟨rfl, rfl⟩ : (readLine buf).1 = piece ∧ (readLine buf).2 = rest :=
        Prod.mk.inj (Option.some.inj h)
      have hne : (readLine buf).1 ≠ [] := by
        cases buf with
        | nil => exact absurd rfl hb
        | cons b bs =>
            rw [readLine]
            split <;> simp
      have hpos := List.length_pos_iff.mpr hne
      have hlen := congrArg List.length (readLine_eq buf)
      rw [List.length_append] at hlen
      omega
  | exact n =>
      have hpos := m.exact_pos hw
      rw [hw] at h
      cases h
      have := List.length_pos_iff.mpr hb
      rw [List.length_drop]
      omega

theorem finishFuel_of_ended {s : σ} (h : m.want s = .nothing) (fuel : Nat) (buf : Bytes) :
    m.finishFuel fuel s buf = s := by
  cases fuel with
  | zero => rfl
  | succ n => rw [finishFuel, h, Want.last]

theorem finish_of_ended {s : σ} (h : m.want s = .nothing) (buf : Bytes) : m.finish s buf = s :=
  m.finishFuel_of_ended h _ buf

theorem finishFuel_eq {fuel fuel' : Nat} {s : σ} {buf : Bytes} (h : buf.length < fuel)
    (h' : buf.length < fuel') : m.finishFuel fuel s buf = m.finishFuel fuel' s buf := by
  induction fuel generalizing fuel' s buf with
  | zero => exact absurd h (Nat.not_lt_zero _)
  | succ fuel ih =>
      obtain ⟨fuel', rfl⟩ : ∃ n, fuel' = n + 1 := ⟨fuel' - 1, by omega⟩
      rw [finishFuel, finishFuel]
      cases hl : (m.want s).last buf with
      | none => rfl
      | some p =>
          obtain ⟨piece, rest⟩ := p
          dsimp only
          by_cases hb : buf = []
          -- nothing was left to read, and the reader ends
          · subst hb
            obtain ⟨rfl, rfl⟩ := Prod.mk.inj (last_nil hl)
            rw [m.finishFuel_of_ended (m.take_nil s), m.finishFuel_of_ended (m.take_nil s)]
          · have := m.length_last hb hl
            exact ih (by omega) (by omega)

theorem finish_of_last {s : σ} {buf piece rest : Bytes}
    (h : (m.want s).last buf = some (piece, rest)) :
    m.finish s buf = m.finish (m.take s piece) rest := by
  rw [finish, finishFuel, h]
  dsimp only
  by_cases hb : buf = []
  · subst hb
    obtain ⟨rfl, rfl⟩ := Prod.mk.inj (last_nil h)
    rw [m.finishFuel_of_ended (m.take_nil s), m.finish_of_ended (m.take_nil s)]
  · have := m.length_last hb h
    exact m.finishFuel_eq (by omega) (Nat.lt_succ_self _)

/-- **The last piece.**  It makes no difference whether the reader went on before it came. -/
theorem finish_append (s : σ) (a b : Bytes) :
    m.finish (m.settle s a).1 ((m.settle s a).2 ++ b) = m.finish s (a ++ b) := by
  induction hn : a.length using Nat.strongRecOn generalizing s a with
  | _ n ih =>
      subst hn
      cases hr : (m.want s).ready a with
      | none => rw [m.settle_of_not_ready hr]
      | some p =>
          obtain ⟨piece, rest⟩ := p
          rw [m.settle_of_ready hr,
            m.finish_of_last (Want.last_of_ready (Want.ready_append hr b))]
          exact ih _ (m.length_ready hr) _ _ rfl

/-- **A whole stream**, in any number of pieces. -/
theorem finish_feed (pieces : List Bytes) (s : σ) :
    m.finish (m.feed pieces (s, [])).1 (m.feed pieces (s, [])).2 = m.finish s pieces.flatten := by
  have h := m.finish_append s pieces.flatten []
  rw [List.append_nil, List.append_nil] at h
  rw [m.feed_eq, h]

/-! ### Walks -/

/-- The reader gets from `s` to `s'` by the bytes, which are complete reads, through states that
meet `P`; `s'` need not. -/
inductive Walk (P : σ → Prop) : σ → Bytes → σ → Prop where
  | refl (s : σ) : Walk P s [] s
  | more {s s' : σ} {piece bytes : Bytes} (hP : P s) (h : (m.want s).Met piece)
      (t : Walk P (m.take s piece) bytes s') : Walk P s (piece ++ bytes) s'

variable {m} {P : σ → Prop} {s s' s'' : σ} {bytes bytes' : Bytes}

theorem Walk.one {piece : Bytes} (hP : P s) (h : (m.want s).Met piece) :
    m.Walk P s piece (m.take s piece) := by
  have ht : m.Walk P s (piece ++ []) (m.take s piece) := .more hP h (.refl _)
  rwa [List.append_nil] at ht

theorem Walk.trans (h : m.Walk P s bytes s') (h' : m.Walk P s' bytes' s'') :
    m.Walk P s (bytes ++ bytes') s'' := by
  induction h with
  | refl => exact h'
  | more hP hw _ ih => rw [List.append_assoc]; exact .more hP hw (ih h')

theorem Walk.settle (h : m.Walk P s bytes s') (rest : Bytes) :
    m.settle s (bytes ++ rest) = m.settle s' rest := by
  induction h with
  | refl => rfl
  | more _ hw _ ih => rw [List.append_assoc, m.settle_of_ready (hw.ready _), ih]

/-- **On the way.**  With some of the bytes only, the reader is still in a state that meets
`P`. -/
theorem Walk.stays (h : m.Walk P s bytes s') {q : Bytes} (hq : q <+: bytes) (hne : q ≠ bytes) :
    P (m.settle s q).1 := by
  induction h generalizing q with
  | refl => exact absurd (List.prefix_nil.mp hq) hne
  | @more s s' piece bytes hP hw _ ih =>
      rcases List.prefix_or_prefix_of_prefix hq (List.prefix_append piece bytes) with hp | ⟨t, rfl⟩
      · by_cases he : q = piece
        · subst he
          have hmet := hw.ready []
          rw [List.append_nil] at hmet
          rw [m.settle_of_ready hmet]
          exact ih List.nil_prefix fun h => hne (by rw [← h, List.append_nil])
        · rw [m.settle_of_not_ready (hw.not_ready hp he)]
          exact hP
      · rw [m.settle_of_ready (hw.ready t)]
        exact ih ((List.prefix_append_right_inj piece).mp hq) fun h => hne (by rw [h])

end Reader

end Arrival
