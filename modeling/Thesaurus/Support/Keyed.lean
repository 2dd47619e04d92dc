import Mathlib.Logic.Function.Basic

/-!
# Support — Keyed states

A state that holds one cell for each key, and the actions on it that touch one key only.

* `Keyed`: the laws of reading and writing one cell, and that the cells are the whole state.
* `at`: the action a function on cells induces at a key.
* `Confined P f`: the action `f` stays within the keys of `P`.
-/

/-- A state `σ` that holds a cell of `C` for each key of `K`. -/
structure Keyed (σ K C : Type) where
  get : σ → K → C
  put : σ → K → C → σ
  get_put_self : ∀ s k c, get (put s k c) k = c
  get_put_ne : ∀ s k c k', k' ≠ k → get (put s k c) k' = get s k'
  ext : ∀ {s t}, (∀ k, get s k = get t k) → s = t

namespace Keyed

variable {σ K C α : Type} (L : Keyed σ K C)

theorem put_get (s : σ) (k : K) : L.put s k (L.get s k) = s := L.ext fun k' => by
  by_cases h : k' = k
  · rw [h, L.get_put_self]
  · rw [L.get_put_ne _ _ _ _ h]

theorem put_put (s : σ) (k : K) (c c' : C) : L.put (L.put s k c) k c' = L.put s k c' :=
  L.ext fun k' => by
    by_cases h : k' = k
    · rw [h, L.get_put_self, L.get_put_self]
    · rw [L.get_put_ne _ _ _ _ h, L.get_put_ne _ _ _ _ h, L.get_put_ne _ _ _ _ h]

theorem put_eq_iff {s : σ} {k : K} {c : C} : L.put s k c = s ↔ c = L.get s k :=
  ⟨fun h => by rw [← L.get_put_self s k c, h], fun h => by rw [h, L.put_get]⟩

/-- The action of `g` on the cell at `k`. -/
def «at» (k : K) (g : C → α × C) (s : σ) : α × σ := ((g (L.get s k)).1, L.put s k (g (L.get s k)).2)

/-! ### Actions on a part of the state -/

/-- The action reads and writes cells of `P` only: it leaves the others, and comes to the same on
states that agree there. -/
structure Confined (P : K → Prop) (f : σ → α × σ) : Prop where
  frame : ∀ s k, ¬P k → L.get (f s).2 k = L.get s k
  result : ∀ s t, (∀ k, P k → L.get s k = L.get t k) → (f s).1 = (f t).1
  own : ∀ s t, (∀ k, P k → L.get s k = L.get t k) → ∀ k, P k →
    L.get (f s).2 k = L.get (f t).2 k

variable {L} {P : K → Prop}

/-- An action that only reads. -/
theorem confined_of_read {g : σ → α} (h : ∀ s t, (∀ k, P k → L.get s k = L.get t k) → g s = g t) :
    L.Confined P fun s => (g s, s) where
  frame _ _ _ := rfl
  result := h
  own _ _ hst := hst

theorem confined_put {k : K} (hk : P k) (c : C) (a : α) :
    L.Confined P fun s => (a, L.put s k c) where
  frame s k' hk' := L.get_put_ne _ _ _ _ fun h => hk' (h ▸ hk)
  result _ _ _ := rfl
  own s t hst k' hk' := by
    by_cases h : k' = k
    · rw [h, L.get_put_self, L.get_put_self]
    · rw [L.get_put_ne _ _ _ _ h, L.get_put_ne _ _ _ _ h]
      exact hst k' hk'

/-- The action of a cell. -/
theorem confined_at {k : K} (hk : P k) (g : C → α × C) : L.Confined P (L.at k g) where
  frame s k' hk' := L.get_put_ne _ _ _ _ fun h => hk' (h ▸ hk)
  result s t hst := congrArg (fun c => (g c).1) (hst k hk)
  own s t hst k' hk' := by
    by_cases h : k' = k
    · rw [h, «at», «at», L.get_put_self, L.get_put_self, hst k hk]
    · rw [«at», «at», L.get_put_ne _ _ _ _ h, L.get_put_ne _ _ _ _ h]
      exact hst k' hk'

/-- Cells that are written one after the other. -/
theorem confined_puts {A : Type} (key : A → K) (c : A → C) {as : List A}
    (h : ∀ a ∈ as, P (key a)) (b : α) :
    L.Confined P fun s => (b, as.foldl (fun s a => L.put s (key a) (c a)) s) := by
  induction as with
  | nil => exact confined_of_read fun _ _ _ => rfl
  | cons a as ih =>
      have ha : L.Confined P fun s => (b, L.put s (key a) (c a)) :=
        confined_put (h a List.mem_cons_self) (c a) b
      have has := ih fun a ha => h a (List.mem_cons_of_mem _ ha)
      exact
        { frame := fun s k hk => (has.frame _ k hk).trans (ha.frame s k hk)
          result := fun _ _ _ => rfl
          own := fun s t hst => has.own _ _ (ha.own s t hst) }

end Keyed
