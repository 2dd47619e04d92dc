import Thesaurus.Support.Pool

/-!
# Support — locks

A state behind a lock that is poisoned when a call panics that was to change the state.  Every call
takes the lock first, and panics itself when it finds it poisoned; the program that made the call
is then over.

* `Pool.run_behind`: as long as no call poisons the lock, the programs run as if there were none.
* `Pool.poisoned_run`: the lock is poisoned when one of their calls would poison it.
* `Pool.run_poisoned`: the state behind a poisoned lock stays as it is, and no program goes on.
-/

namespace Atomic

variable {Op : Type} {Res : Op → Type} {ι α σ E : Type}

/-- A state, and whether its lock is poisoned. -/
structure Lock (σ : Type) where
  state : σ
  poisoned : Bool

/-- A call that takes the lock; `poisons` says what poisons it. -/
def Lock.step (step : E → (op : Op) → σ → Res op × σ) (poisons : Called Res → Bool) (e : E)
    (op : Op) (l : Lock σ) : Option (Res op) × Lock σ :=
  if l.poisoned then (none, l)
  else
    (some (step e op l.state).1, ⟨(step e op l.state).2, poisons ⟨op, (step e op l.state).1⟩⟩)

/-- A program whose calls take a lock. -/
def Prog.locked : Prog Res α → Prog (fun op => Option (Res op)) (Option α)
  | .ret a        => .ret (some a)
  | .call op next => .call op fun r => r.elim (.ret none) fun r => locked (next r)

/-- The program is over once a call panics. -/
def Prog.Fragile : Prog (fun op => Option (Res op)) (Option α) → Prop
  | .ret _       => True
  | .call _ next => next none = .ret none ∧ ∀ r, (next r).Fragile

theorem Prog.fragile_locked (p : Prog Res α) : p.locked.Fragile := by
  induction p with
  | ret a => trivial
  | call op next ih =>
      refine ⟨rfl, ?_⟩
      intro r
      cases r with
      | none => trivial
      | some r => exact ih r

namespace Lock

variable {step : E → (op : Op) → σ → Res op × σ} {poisons : Called Res → Bool} {l : Lock σ}

theorem step_of_poisoned (h : l.poisoned = true) (e : E) (op : Op) :
    l.step step poisons e op = (none, l) := by
  rw [Lock.step, if_pos h]

theorem step_of_sound (e : E) (op : Op) (s : σ) :
    Lock.step step poisons e op ⟨s, false⟩ =
      (some (step e op s).1, ⟨(step e op s).2, poisons ⟨op, (step e op s).1⟩⟩) := rfl

end Lock

namespace Pool

variable [DecidableEq ι] {step : E → (op : Op) → σ → Res op × σ} {poisons : Called Res → Bool}

/-- The pool behind a lock. -/
def behind (p : Pool Res ι α σ) (poisoned : Bool) :
    Pool (fun op => Option (Res op)) ι (Option α) (Lock σ) :=
  ⟨fun i => (p.prog i).locked, ⟨p.state, poisoned⟩⟩

/-! ### A lock that is not poisoned -/

/-- A turn at a lock that is not poisoned is a turn without it. -/
theorem advance_behind (p : Pool Res ι α σ) (i : ι) (e : E) :
    (p.behind false).advance (Lock.step step poisons) i e =
      (p.advance step i e).behind ((p.called step i e).any poisons) := by
  cases hp : p.prog i with
  | ret a =>
      have hlocked : (p.behind false).prog i = .ret (some a) := by simp [behind, hp, Prog.locked]
      rw [advance_ret hlocked, advance_ret hp, called, hp]
      rfl
  | call op next =>
      have hlocked : (p.behind false).prog i =
          .call op fun r => r.elim (.ret none) fun r => (next r).locked :=
        congrArg Prog.locked hp
      rw [advance_call hlocked, advance_call hp, called, hp]
      simp only [behind, Lock.step_of_sound, List.any_cons, List.any_nil, Bool.or_false]
      congr 1
      funext j
      exact (Function.apply_update (fun _ => Prog.locked) p.prog i _ j).symm

/-- **As if there were no lock.** -/
theorem run_behind {p : Pool Res ι α σ} {sch : List (ι × E)}
    (h : (p.trace step sch).any poisons = false) :
    (p.behind false).run (Lock.step step poisons) sch = (p.run step sch).behind false := by
  induction sch generalizing p with
  | nil => rfl
  | cons t sch ih =>
      obtain ⟨i, e⟩ := t
      rw [trace, List.any_append, Bool.or_eq_false_iff] at h
      rw [run, advance_behind, h.1]
      exact ih h.2

/-! ### A poisoned lock -/

section Poisoned

variable {q : Pool (fun op => Option (Res op)) ι (Option α) (Lock σ)}

variable (step poisons) in
/-- A turn at a poisoned lock. -/
theorem advance_poisoned (hq : q.state.poisoned = true) (hf : ∀ i, (q.prog i).Fragile) (i : ι)
    (e : E) :
    (q.advance (Lock.step step poisons) i e).state = q.state ∧
      ((∃ a, q.prog i = .ret a ∧ (q.advance (Lock.step step poisons) i e).prog i = .ret a) ∨
        (q.advance (Lock.step step poisons) i e).prog i = .ret none) := by
  have hi := hf i
  cases hp : q.prog i with
  | ret a =>
      rw [advance_ret hp]
      exact ⟨rfl, .inl ⟨a, rfl, hp⟩⟩
  | call op next =>
      rw [hp] at hi
      rw [advance_call hp, Lock.step_of_poisoned hq]
      exact ⟨rfl, .inr (by simpa using hi.1)⟩

theorem fragile_advance (hf : ∀ i, (q.prog i).Fragile) (i : ι) (e : E) :
    ∀ j, ((q.advance (Lock.step step poisons) i e).prog j).Fragile := by
  intro j
  by_cases hj : j = i
  · subst hj
    have hi := hf j
    rw [advance]
    cases hp : q.prog j with
    | ret a => rwa [hp] at hi ⊢
    | call op next =>
        rw [hp] at hi
        simp only [Function.update_self]
        exact hi.2 _
  · rw [prog_advance_of_ne q hj]
    exact hf j

theorem fragile_run (hf : ∀ i, (q.prog i).Fragile) (sch : List (ι × E)) :
    ∀ i, ((q.run (Lock.step step poisons) sch).prog i).Fragile := by
  induction sch generalizing q with
  | nil => exact hf
  | cons t sch ih => exact ih (fragile_advance hf t.1 t.2)

/-- **Poisoned for good.**  The state behind a poisoned lock stays as it is.  A program whose turn
it is was over before, or is over without a result. -/
theorem run_poisoned (hq : q.state.poisoned = true) (hf : ∀ i, (q.prog i).Fragile)
    (sch : List (ι × E)) :
    (q.run (Lock.step step poisons) sch).state = q.state ∧
      ∀ i ∈ sch.map Prod.fst,
        (∃ a, q.prog i = .ret a ∧ (q.run (Lock.step step poisons) sch).prog i = .ret a) ∨
          (q.run (Lock.step step poisons) sch).prog i = .ret none := by
  induction sch generalizing q with
  | nil => exact ⟨rfl, by simp⟩
  | cons t sch ih =>
      obtain ⟨j, e⟩ := t
      obtain ⟨hstate, hj⟩ := advance_poisoned step poisons hq hf j e
      obtain ⟨hrun, hprog⟩ := ih (by rw [hstate]; exact hq) (fragile_advance hf j e)
      refine ⟨hrun.trans hstate, ?_⟩
      intro i hi
      by_cases hij : i = j
      · subst hij
        -- the turn is its last one
        rcases hj with ⟨a, ha, hadv⟩ | hadv
        · exact .inl ⟨a, ha, prog_run_ret hadv sch⟩
        · exact .inr (prog_run_ret hadv sch)
      · have hmem : i ∈ sch.map Prod.fst := (List.mem_cons.mp hi).resolve_left hij
        have h := hprog i hmem
        rwa [prog_advance_of_ne q hij] at h

end Poisoned

/-- **What poisons the lock.** -/
theorem poisoned_run (p : Pool Res ι α σ) (sch : List (ι × E)) :
    ((p.behind false).run (Lock.step step poisons) sch).state.poisoned =
      (p.trace step sch).any poisons := by
  induction sch generalizing p with
  | nil => rfl
  | cons t sch ih =>
      obtain ⟨i, e⟩ := t
      rw [run, trace, List.any_append, advance_behind]
      cases h : (p.called step i e).any poisons with
      | false => exact ih _
      | true =>
          rw [(run_poisoned rfl (fun j => Prog.fragile_locked _) sch).1]
          rfl

end Pool

end Atomic
