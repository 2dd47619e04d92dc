import Mathlib.Data.List.Basic

/-!
# Support — Sequences with two ends

Pushes and pops at either end of a list, in closed form and as the loops that do them one element
at a time; and positions that are counted from either end.
-/

/-- An end of a sequence. -/
inductive End where
  | front
  | back
  deriving DecidableEq, Repr

namespace End

variable {α : Type}

/-- The sequence after the elements were pushed one by one. -/
def pushAll (elements l : List α) : End → List α
  | front => elements.reverse ++ l
  | back  => l ++ elements

/-- The first `n` elements from an end, or all of them. -/
def taken (n : Nat) (l : List α) : End → List α
  | front => l.take n
  | back  => l.reverse.take n

/-- What is left without them. -/
def left (n : Nat) (l : List α) : End → List α
  | front => l.drop n
  | back  => l.take (l.length - n)

/-- **Nothing is lost, duplicated or reordered.**  What was taken, pushed back last one first,
gives the sequence again. -/
theorem pushAll_taken_left (e : End) (n : Nat) (l : List α) :
    e.pushAll (e.taken n l).reverse (e.left n l) = l := by
  cases e with
  | front => simp [pushAll, taken, left]
  | back => simp [pushAll, taken, left, List.take_reverse]

theorem length_pushAll (e : End) (elements l : List α) :
    (e.pushAll elements l).length = l.length + elements.length := by
  cases e <;> simp [pushAll, Nat.add_comm]

theorem foldl_front {push : List α → α → List α} (h : ∀ l a, push l a = a :: l)
    (elements l : List α) : elements.foldl push l = front.pushAll elements l := by
  induction elements generalizing l with
  | nil => rfl
  | cons a elements ih => simp [ih, h, pushAll]

theorem foldl_back {push : List α → α → List α} (h : ∀ l a, push l a = l ++ [a])
    (elements l : List α) : elements.foldl push l = back.pushAll elements l := by
  induction elements generalizing l with
  | nil => simp [pushAll]
  | cons a elements ih => simp [ih, h, pushAll]

/-- The other end. -/
def opposite : End → End
  | front => back
  | back  => front

/-- The sequence as it is seen from an end. -/
def view (l : List α) : End → List α
  | front => l
  | back  => l.reverse

theorem perm_pushAll (e : End) (elements l : List α) :
    (e.pushAll elements l).Perm (l ++ elements) := by
  cases e with
  | front => exact ((List.reverse_perm elements).append_right l).trans List.perm_append_comm
  | back => exact .refl _

theorem view_pushAll_opposite (e : End) (elements l : List α) :
    e.view (e.opposite.pushAll elements l) = e.view l ++ elements := by
  cases e <;> simp [view, opposite, pushAll]

theorem view_pushAll_reverse (e : End) (elements l : List α) :
    e.view (e.pushAll elements.reverse l) = elements ++ e.view l := by
  cases e <;> simp [view, pushAll]

end End

/-! ### Histories -/

namespace Sequence

variable {α : Type} {l m n : List α}

/-- Elements that enter a sequence at an end, one after the other, or leave it. -/
inductive Passage (α : Type) where
  | pushed (e : End) (elements : List α)
  | popped (e : End) (elements : List α)

namespace Passage

/-- The passage leads from `l` to `m`. -/
def Moves (l m : List α) : Passage α → Prop
  | pushed e elements => m = e.pushAll elements l
  | popped e elements => l = e.pushAll elements.reverse m

/-- Elements enter at the ends `pushes` only, and leave at the ends `pops`. -/
def At (pushes pops : End → Prop) : Passage α → Prop
  | pushed e _ => pushes e
  | popped e _ => pops e

/-- What enters. -/
def entered : Passage α → List α
  | pushed _ elements => elements
  | popped _ _        => []

/-- What leaves. -/
def left : Passage α → List α
  | pushed _ _        => []
  | popped _ elements => elements

end Passage

/-- The passages lead from `l` to `m`, one after the other. -/
inductive Leads : List (Passage α) → List α → List α → Prop where
  | refl (l : List α) : Leads [] l l
  | more {passage : Passage α} {passages : List (Passage α)} {l m n : List α}
      (h : passage.Moves l m) (t : Leads passages m n) : Leads (passage :: passages) l n

namespace Leads

variable {passages passages' : List (Passage α)}

theorem one {passage : Passage α} (h : passage.Moves l m) : Leads [passage] l m := .more h (.refl m)

theorem trans (h : Leads passages l m) (h' : Leads passages' m n) :
    Leads (passages ++ passages') l n := by
  induction h with
  | refl => exact h'
  | more h _ ih => exact .more h (ih h')

/-- **Nothing is lost or duplicated.**  What was there and what entered is what left and what is
there. -/
theorem perm (h : Leads passages l m) :
    (l ++ passages.flatMap Passage.entered).Perm (passages.flatMap Passage.left ++ m) := by
  induction h with
  | refl l => simp
  | @more passage passages l m n h _ ih =>
      cases passage with
      | pushed e elements =>
          obtain rfl := h
          simp only [List.flatMap_cons, Passage.entered, Passage.left, List.nil_append]
          rw [← List.append_assoc]
          exact ((e.perm_pushAll elements l).symm.append_right _).trans ih
      | popped e elements =>
          obtain rfl := h
          simp only [List.flatMap_cons, Passage.entered, Passage.left, List.nil_append]
          have hback : (e.pushAll elements.reverse m).Perm (elements ++ m) :=
            (e.perm_pushAll _ _).trans
              (List.perm_append_comm.trans ((List.reverse_perm elements).append_right m))
          refine (hback.append_right _).trans ?_
          rw [List.append_assoc, List.append_assoc]
          exact ih.append_left elements

/-- **First in, first out.**  When elements enter at one end and leave at the other, they leave in
the order in which they entered, behind those that were there. -/
theorem fifo {e : End} (hat : ∀ passage ∈ passages, passage.At (· = e.opposite) (· = e))
    (h : Leads passages l m) :
    e.view l ++ passages.flatMap Passage.entered = passages.flatMap Passage.left ++ e.view m := by
  induction h with
  | refl l => simp
  | @more passage passages l m n h _ ih =>
      have ih := ih fun passage' h' => hat passage' (List.mem_cons_of_mem _ h')
      have hend := hat passage List.mem_cons_self
      cases passage with
      | pushed e' elements =>
          obtain rfl : e' = e.opposite := hend
          obtain rfl := h
          rw [End.view_pushAll_opposite] at ih
          simpa [Passage.entered, Passage.left] using ih
      | popped e' elements =>
          obtain rfl : e' = e := hend
          obtain rfl := h
          rw [End.view_pushAll_reverse]
          simpa [Passage.entered, Passage.left] using ih

end Leads

end Sequence

/-! ### Positions -/

namespace Sequence

/-- The position an index means: a negative one counts from the back. -/
def boundOf (len : Nat) (index : Int) : Int := if index < 0 then len + index else index

/-- The elements at the positions from `lo` to `hi`. -/
def elementsBetween {α : Type} (lo hi : Int) (l : List α) : List α :=
  (l.zipIdx.filter fun p => decide (lo ≤ p.2) && decide ((p.2 : Int) ≤ hi)).map Prod.fst

/-- The position of an index that lies in the list. -/
def positionOf (len : Nat) (index : Int) : Option Nat :=
  if 0 ≤ boundOf len index ∧ boundOf len index < len then some (boundOf len index).toNat else none

theorem filter_zipIdx {α : Type} (a b k : Nat) (l : List α) :
    ((l.zipIdx k).filter fun p => decide (a ≤ p.2) && decide (p.2 < b)).map Prod.fst =
      (l.drop (a - k)).take (b - max a k) := by
  induction l generalizing k with
  | nil => simp
  | cons x l ih =>
      rw [List.zipIdx_cons, List.filter_cons]
      by_cases ha : a ≤ k
      · have hdrop : a - k = 0 := Nat.sub_eq_zero_of_le ha
        have hdrop' : a - (k + 1) = 0 := Nat.sub_eq_zero_of_le (Nat.le_succ_of_le ha)
        by_cases hb : k < b
        · obtain ⟨m, rfl⟩ := Nat.exists_eq_add_of_lt hb
          rw [if_pos (by simp [ha, hb]), List.map_cons, ih, hdrop, hdrop', Nat.max_eq_right ha,
            Nat.max_eq_right (Nat.le_succ_of_le ha), List.drop_zero, List.drop_zero,
            show k + m + 1 - k = m + 1 by omega, show k + m + 1 - (k + 1) = m by omega,
            List.take_succ_cons]
        · rw [if_neg (by simp [hb]), ih, Nat.max_eq_right ha,
            Nat.max_eq_right (Nat.le_succ_of_le ha), Nat.sub_eq_zero_of_le (Nat.not_lt.mp hb),
            Nat.sub_eq_zero_of_le (Nat.le_succ_of_le (Nat.not_lt.mp hb)), List.take_zero,
            List.take_zero]
      · obtain ⟨m, hm⟩ := Nat.exists_eq_add_of_lt (Nat.not_le.mp ha)
        rw [if_neg (by simp [ha]), ih, Nat.max_eq_left (Nat.le_of_lt (Nat.not_le.mp ha)),
          Nat.max_eq_left (Nat.not_le.mp ha), show a - k = m + 1 by omega,
          show a - (k + 1) = m by omega, List.drop_succ_cons]

theorem elementsBetween_eq {α : Type} (lo hi : Int) (l : List α) :
    elementsBetween lo hi l = (l.drop lo.toNat).take ((hi + 1).toNat - lo.toNat) := by
  have hpred : (fun p : α × Nat => decide (lo ≤ p.2) && decide ((p.2 : Int) ≤ hi)) =
      fun p => decide (lo.toNat ≤ p.2) && decide (p.2 < (hi + 1).toNat) := by
    funext p
    congr 1
    · exact decide_eq_decide.mpr (by omega)
    · exact decide_eq_decide.mpr (by omega)
  rw [elementsBetween, hpred, filter_zipIdx, Nat.sub_zero, Nat.max_zero]

/-- No position lies between bounds out of order, or from the length on. -/
theorem elementsBetween_eq_nil {α : Type} {lo hi : Int} {l : List α}
    (h : max lo 0 > hi ∨ max lo 0 ≥ l.length) : elementsBetween lo hi l = [] := by
  rw [elementsBetween_eq]
  rcases h with h | h
  · rw [show (hi + 1).toNat - lo.toNat = 0 by omega, List.take_zero]
  · rw [List.drop_eq_nil_of_le (by omega), List.take_nil]

/-- Bounds in order, clamped to the list. -/
theorem elementsBetween_clamp {α : Type} {lo hi : Int} {l : List α} (h₁ : max lo 0 ≤ hi)
    (h₂ : max lo 0 < l.length) :
    elementsBetween lo hi l =
      (l.drop (max lo 0).toNat).take
        ((min hi (l.length - 1)).toNat + 1 - (max lo 0).toNat) := by
  rw [elementsBetween_eq, show (max lo 0).toNat = lo.toNat by omega, List.take_eq_take_iff,
    List.length_drop]
  omega

/-- The elements between a position and itself. -/
theorem elementsBetween_self {α : Type} (i : Int) (l : List α) :
    elementsBetween (boundOf l.length i) (boundOf l.length i) l =
      ((positionOf l.length i).bind fun p => l[p]?).toList := by
  rw [elementsBetween_eq, positionOf]
  generalize boundOf l.length i = b
  split_ifs with h
  · obtain ⟨p, rfl⟩ := Int.eq_ofNat_of_zero_le h.1
    have hp : p < l.length := Int.ofNat_lt.mp h.2
    have hone : ((p : Int) + 1).toNat - (p : Int).toNat = 1 := by omega
    rw [hone, Int.toNat_natCast, Option.bind_some, List.take_one, List.head?_drop]
  · by_cases hb : 0 ≤ b
    · have hlen : l.length ≤ b.toNat := by omega
      rw [List.drop_eq_nil_of_le hlen, List.take_nil]
      rfl
    · have hzero : (b + 1).toNat - b.toNat = 0 := by omega
      rw [hzero, List.take_zero]
      rfl

end Sequence
