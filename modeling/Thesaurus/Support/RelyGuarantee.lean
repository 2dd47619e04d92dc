import Thesaurus.Support.Pool

/-!
# Support — rely and guarantee

A program of a pool, proved on its own: a contract says what the others may do to the state before
each of its calls, and what its own calls may do.

* `Prog.Meets`: the program meets a contract, and a postcondition where it ends, at all readings.
* `Pool.run_meets`: when what each guarantees is what the others rely on, every program goes on
  meeting its contract in every schedule.  `Pool.run_guarantee`: what they all guarantee holds
  between the first state and the last.
* `Prog.Ends`: the program alone, at all readings.  `ends_of_free`: when the readings do not
  matter, one run says it all.
* `Prog.confined_run`: a program of confined calls is confined.
-/

namespace Atomic

variable {Op : Type} {Res : Op → Type} {ι α β σ E K C : Type}

/-- What a program relies on of the others, and what it guarantees them. -/
structure Contract (σ : Type) where
  rely : σ → σ → Prop
  guarantee : σ → σ → Prop
  rely_refl : ∀ s, rely s s
  rely_trans : ∀ {s t u}, rely s t → rely t u → rely s u

namespace Prog

section Meets

variable (step : E → (op : Op) → σ → Res op × σ) (r : Contract σ)

/-- From any state the others lead to, a call keeps the guarantee; where the program ends, `Q` holds
and goes on to hold. -/
def Meets (Q : α → σ → Prop) : Prog Res α → σ → Prop
  | .ret a, s        => ∀ t, r.rely s t → Q a t
  | .call op next, s => ∀ t e, r.rely s t →
      r.guarantee t (step e op t).2 ∧ (next (step e op t).1).Meets Q (step e op t).2

variable {step r} {p : Prog Res α} {Q Q' : α → σ → Prop} {s t : σ}

/-- The others may go on. -/
theorem Meets.of_rely (h : p.Meets step r Q s) (hst : r.rely s t) : p.Meets step r Q t := by
  cases p with
  | ret a => exact fun u htu => h u (r.rely_trans hst htu)
  | call op next => exact fun u e htu => h u e (r.rely_trans hst htu)

theorem Meets.mono (h : p.Meets step r Q s) (hQ : ∀ a t, Q a t → Q' a t) :
    p.Meets step r Q' s := by
  induction p generalizing s with
  | ret a => exact fun t hst => hQ a t (h t hst)
  | call op next ih =>
      intro t e hst
      obtain ⟨hguar, hnext⟩ := h t e hst
      exact ⟨hguar, ih _ hnext⟩

/-- **Sequences.** -/
theorem Meets.bind {f : α → Prog Res β} {R : β → σ → Prop}
    (h : p.Meets step r (fun a t => (f a).Meets step r R t) s) :
    (p >>= f).Meets step r R s := by
  induction p generalizing s with
  | ret a => exact h s (r.rely_refl s)
  | call op next ih =>
      intro t e hst
      obtain ⟨hguar, hnext⟩ := h t e hst
      exact ⟨hguar, ih _ hnext⟩

end Meets

section Ends

variable (step : E → (op : Op) → σ → Res op × σ)

/-- Alone, whatever the readings of its calls, the program ends as `Q` says. -/
def Ends (Q : α → σ → Prop) : Prog Res α → σ → Prop
  | .ret a, s        => Q a s
  | .call op next, s => ∀ e, (next (step e op s).1).Ends Q (step e op s).2

variable {step} {p : Prog Res α} {Q : α → σ → Prop} {s : σ}

/-- When the readings do not matter in the states of `I`, one run says how the program ends. -/
theorem ends_of_free {P : Op → Prop} {I : σ → Prop} (e₀ : E)
    (hfree : ∀ op s, P op → I s → ∀ e, step e op s = step e₀ op s ∧ I (step e op s).2)
    (hp : p.All P) (hs : I s) (h : Q (p.run (step e₀) s).1 (p.run (step e₀) s).2) :
    p.Ends step Q s := by
  induction p generalizing s with
  | ret a => exact h
  | call op next ih =>
      intro e
      obtain ⟨heq, hkeep⟩ := hfree op s hp.1 hs e
      rw [heq] at hkeep ⊢
      exact ih _ (hp.2 _) hkeep h

/-- A program of calls that are confined to `P`. -/
theorem confined_run {L : Keyed σ K C} {P : K → Prop} {step : (op : Op) → σ → Res op × σ}
    (h : p.All fun op => L.Confined P (step op)) : L.Confined P (p.run step) := by
  induction p with
  | ret a => exact Keyed.confined_of_read (g := fun _ => a) fun _ _ _ => rfl
  | call op next ih =>
      obtain ⟨hop, hnext⟩ := h
      refine ⟨fun s k hk => ?_, fun s t hst => ?_, fun s t hst => ?_⟩
      · exact ((ih _ (hnext _)).frame _ k hk).trans (hop.frame s k hk)
      · rw [run_call, run_call, ← hop.result s t hst]
        exact (ih _ (hnext _)).result _ _ (hop.own s t hst)
      · rw [run_call, run_call, ← hop.result s t hst]
        exact (ih _ (hnext _)).own _ _ (hop.own s t hst)

end Ends

end Prog

namespace Pool

variable [DecidableEq ι] {step : E → (op : Op) → σ → Res op × σ} {p : Pool Res ι α σ}
  {r : ι → Contract σ} {Q : ι → α → σ → Prop}

/-- One turn: whose turn it is keeps its guarantee, on which the others rely. -/
theorem meets_advance (hr : ∀ i j, i ≠ j → ∀ s t, (r i).guarantee s t → (r j).rely s t)
    (h : ∀ i, (p.prog i).Meets step (r i) (Q i) p.state) (i : ι) (e : E) :
    ∀ j, ((p.advance step i e).prog j).Meets step (r j) (Q j) (p.advance step i e).state := by
  intro j
  have hi := h i
  cases hp : p.prog i with
  | ret a =>
      rw [advance_ret hp]
      exact h j
  | call op next =>
      rw [hp] at hi
      obtain ⟨hguar, hnext⟩ := hi p.state e ((r i).rely_refl _)
      rw [advance_call hp]
      by_cases hj : j = i
      · subst hj
        simpa using hnext
      · have hrest := (h j).of_rely (hr i j (Ne.symm hj) _ _ hguar)
        rwa [← Function.update_of_ne hj (next (step e op p.state).1) p.prog] at hrest

/-- **The parallel rule.** -/
theorem run_meets (hr : ∀ i j, i ≠ j → ∀ s t, (r i).guarantee s t → (r j).rely s t)
    (h : ∀ i, (p.prog i).Meets step (r i) (Q i) p.state) (sch : List (ι × E)) :
    ∀ i, ((p.run step sch).prog i).Meets step (r i) (Q i) (p.run step sch).state := by
  induction sch generalizing p with
  | nil => exact h
  | cons t sch ih => exact ih (meets_advance hr h t.1 t.2)

/-- Where a program has ended, its postcondition holds. -/
theorem run_ended (hr : ∀ i j, i ≠ j → ∀ s t, (r i).guarantee s t → (r j).rely s t)
    (h : ∀ i, (p.prog i).Meets step (r i) (Q i) p.state) {sch : List (ι × E)} {i : ι} {a : α}
    (ha : (p.run step sch).prog i = .ret a) : Q i a (p.run step sch).state := by
  have hi := run_meets hr h sch i
  rw [ha] at hi
  exact hi _ ((r i).rely_refl _)

/-- **What all guarantee** holds of a run as a whole. -/
theorem run_guarantee {G : σ → σ → Prop} (hrefl : ∀ s, G s s)
    (htrans : ∀ {s t u}, G s t → G t u → G s u)
    (hG : ∀ i s t, (r i).guarantee s t → G s t)
    (hr : ∀ i j, i ≠ j → ∀ s t, (r i).guarantee s t → (r j).rely s t)
    (h : ∀ i, (p.prog i).Meets step (r i) (Q i) p.state) (sch : List (ι × E)) :
    G p.state (p.run step sch).state := by
  induction sch generalizing p with
  | nil => exact hrefl _
  | cons t sch ih =>
      obtain ⟨i, e⟩ := t
      refine htrans ?_ (ih (meets_advance hr h i e))
      have hi := h i
      cases hp : p.prog i with
      | ret a =>
          rw [advance_ret hp]
          exact hrefl _
      | call op next =>
          rw [hp] at hi
          rw [advance_call hp]
          exact hG i _ _ (hi p.state e ((r i).rely_refl _)).1

end Pool

end Atomic
