import Mathlib.Data.List.Pairwise

/-!
# Support — Atomic

Programs over a shared state that is reached through atomic calls only.  `Prog Res α` is a
result, or one call `op` with the program that goes on from the call's result; `step` gives each
call its meaning, as a result and a new state.

* `Prog.run`: the program alone.  `run_sim` carries a simulation of the calls to every program
  that makes only such calls; `run_inv` does the same for an invariant.  `Prog.stamp` marks the
  calls of a program, so that two programs can each give their calls a meaning of their own.
* `Weave p q s tr a b s'`: an interleaving of two programs, call by call, from `s` to `s'`, with
  the calls in order in `tr` (`true` marks a call of `p`) and the results `a` and `b`.
* `Serial p q s a b s'`: the results and the state of running `p` and then `q`.  Two programs of a
  single call are serial in one of the two orders, and a program can run between the two parts of
  another.  A read that comes to the same wherever the other program may have come to
  (`Prog.Along`) can be left out of an interleaving (`Weave.skip`).
-/

namespace Atomic

variable {Op : Type} {Res : Op → Type} {σ τ α β γ : Type}

/-- A program: a result, or one atomic call and what follows on its result. -/
inductive Prog {Op : Type} (Res : Op → Type) (α : Type) where
  | ret (a : α)
  | call (op : Op) (next : Res op → Prog Res α)

namespace Prog

/-- Run `f` on the result of a program. -/
def bind : Prog Res α → (α → Prog Res β) → Prog Res β
  | .ret a,        f => f a
  | .call op next, f => .call op fun r => (next r).bind f

instance : Monad (Prog Res) where
  pure := .ret
  bind := bind

/-- The program of a single call. -/
def invoke (op : Op) : Prog Res (Res op) := .call op .ret

/-- The program alone, from a state. -/
def run (step : (op : Op) → σ → Res op × σ) : Prog Res α → σ → α × σ
  | .ret a,        s => (a, s)
  | .call op next, s => (next (step op s).1).run step (step op s).2

/-- Every call the program can make satisfies `P`. -/
def All (P : Op → Prop) : Prog Res α → Prop
  | .ret _        => True
  | .call op next => P op ∧ ∀ r, (next r).All P

/-- Every result the program can come to, whatever its calls return, satisfies `P`. -/
def Returns (P : α → Prop) : Prog Res α → Prop
  | .ret a       => P a
  | .call _ next => ∀ r, (next r).Returns P

variable {step : (op : Op) → σ → Res op × σ}

/-- The program makes at most one call. -/
def Single : Prog Res α → Prop
  | .ret _       => True
  | .call _ next => ∀ r, ∃ a, next r = .ret a

@[simp] theorem pure_def (a : α) : (pure a : Prog Res α) = .ret a := rfl

@[simp] theorem ret_bind (a : α) (f : α → Prog Res β) : (.ret a : Prog Res α) >>= f = f a := rfl

@[simp] theorem call_bind (op : Op) (next : Res op → Prog Res α) (f : α → Prog Res β) :
    (.call op next : Prog Res α) >>= f = .call op fun r => next r >>= f := rfl

@[simp] theorem invoke_bind (op : Op) (f : Res op → Prog Res β) :
    (invoke op : Prog Res (Res op)) >>= f = .call op f := rfl

@[simp] theorem run_ret (a : α) (s : σ) : (.ret a : Prog Res α).run step s = (a, s) := rfl

@[simp] theorem run_call (op : Op) (next : Res op → Prog Res α) (s : σ) :
    (Prog.call op next).run step s = (next (step op s).1).run step (step op s).2 := rfl

theorem run_bind (p : Prog Res α) (f : α → Prog Res β) (s : σ) :
    (p >>= f).run step s = (f (p.run step s).1).run step (p.run step s).2 := by
  induction p generalizing s with
  | ret a => rfl
  | call op next ih => exact ih _ _

@[simp] theorem all_ret (P : Op → Prop) (a : α) : (.ret a : Prog Res α).All P := trivial

@[simp] theorem all_call (P : Op → Prop) (op : Op) (next : Res op → Prog Res α) :
    (Prog.call op next).All P ↔ P op ∧ ∀ r, (next r).All P := Iff.rfl

theorem all_bind {P : Op → Prop} {p : Prog Res α} {f : α → Prog Res β} (hp : p.All P)
    (hf : ∀ a, (f a).All P) : (p >>= f).All P := by
  induction p with
  | ret a => exact hf a
  | call op next ih => exact ⟨hp.1, fun r => ih r (hp.2 r)⟩

theorem All.mono {P Q : Op → Prop} (h : ∀ op, P op → Q op) {p : Prog Res α} (hp : p.All P) :
    p.All Q := by
  induction p with
  | ret a => trivial
  | call op next ih => exact ⟨h op hp.1, fun r => ih r (hp.2 r)⟩

@[simp] theorem returns_ret (P : α → Prop) (a : α) : (.ret a : Prog Res α).Returns P ↔ P a := Iff.rfl

@[simp] theorem returns_call (P : α → Prop) (op : Op) (next : Res op → Prog Res α) :
    (Prog.call op next).Returns P ↔ ∀ r, (next r).Returns P := Iff.rfl

theorem Returns.run {P : α → Prop} {p : Prog Res α} (hp : p.Returns P) (s : σ) :
    P (p.run step s).1 := by
  induction p generalizing s with
  | ret a => exact hp
  | call op next ih => exact ih _ (hp _) _

/-- **Simulation.**  If the calls the program can make have equal results at related states and
keep the states related, so does the program. -/
theorem run_sim {step' : (op : Op) → τ → Res op × τ} {R : σ → τ → Prop} {P : Op → Prop}
    (h : ∀ op s t, P op → R s t → (step op s).1 = (step' op t).1 ∧ R (step op s).2 (step' op t).2)
    {p : Prog Res α} (hp : p.All P) {s : σ} {t : τ} (hR : R s t) :
    (p.run step s).1 = (p.run step' t).1 ∧ R (p.run step s).2 (p.run step' t).2 := by
  induction p generalizing s t with
  | ret a => exact ⟨rfl, hR⟩
  | call op next ih =>
      obtain ⟨h₁, h₂⟩ := h op s t hp.1 hR
      simp only [run_call, h₁]
      exact ih _ (hp.2 _) h₂

/-- An invariant of the calls is an invariant of the program. -/
theorem run_inv {I : σ → Prop} {P : Op → Prop} (h : ∀ op s, P op → I s → I (step op s).2)
    {p : Prog Res α} (hp : p.All P) {s : σ} (hs : I s) : I (p.run step s).2 := by
  induction p generalizing s with
  | ret a => exact hs
  | call op next ih => exact ih _ (hp.2 _) (h op s hp.1 hs)

/-- The program with a stamp on each of its calls. -/
def stamp {ε : Type} (e : ε) : Prog Res α → Prog (fun o : ε × Op => Res o.2) α
  | .ret a        => .ret a
  | .call op next => .call (e, op) fun r => (next r).stamp e

/-- A stamped program runs as the program does at its stamp. -/
theorem run_stamp {ε : Type} (meaning : ε → (op : Op) → σ → Res op × σ) (e : ε) (p : Prog Res α)
    (s : σ) : (p.stamp e).run (fun o : ε × Op => meaning o.1 o.2) s = p.run (meaning e) s := by
  induction p generalizing s with
  | ret a => rfl
  | call op next ih => exact ih _ _

/-- The states that the program alone passes through, its first and last included, satisfy `I`. -/
def Along (step : (op : Op) → σ → Res op × σ) (I : σ → Prop) : Prog Res α → σ → Prop
  | .ret _,        s => I s
  | .call op next, s => I s ∧ (next (step op s).1).Along step I (step op s).2

theorem Along.here {I : σ → Prop} {p : Prog Res α} {s : σ} (h : p.Along step I s) : I s := by
  cases p with
  | ret a => exact h
  | call op next => exact h.1

end Prog

/-! ### Interleavings -/

variable (step : (op : Op) → σ → Res op × σ)

/-- An interleaving of two programs. -/
inductive Weave :
    Prog Res α → Prog Res β → σ → List (Bool × Op) → α → β → σ → Prop where
  | done (a : α) (b : β) (s : σ) : Weave (.ret a) (.ret b) s [] a b s
  | left {op : Op} {next : Res op → Prog Res α} {q : Prog Res β} {s s' : σ}
      {tr : List (Bool × Op)} {a : α} {b : β}
      (h : Weave (next (step op s).1) q (step op s).2 tr a b s') :
      Weave (.call op next) q s ((true, op) :: tr) a b s'
  | right {op : Op} {p : Prog Res α} {next : Res op → Prog Res β} {s s' : σ}
      {tr : List (Bool × Op)} {a : α} {b : β}
      (h : Weave p (next (step op s).1) (step op s).2 tr a b s') :
      Weave p (.call op next) s ((false, op) :: tr) a b s'

/-- `(a, b, s')` is what `p` and then `q` give from `s`. -/
def Serial (p : Prog Res α) (q : Prog Res β) (s : σ) (a : α) (b : β) (s' : σ) : Prop :=
  (p.run step s).1 = a ∧ q.run step (p.run step s).2 = (b, s')

variable {step}

namespace Weave

variable {p : Prog Res α} {q : Prog Res β} {s s' : σ} {tr : List (Bool × Op)} {a : α} {b : β}

/-- The same interleaving, read from the other side. -/
theorem symm (h : Weave step p q s tr a b s') :
    Weave step q p s (tr.map fun e => (!e.1, e.2)) b a s' := by
  induction h with
  | done a b s => exact .done b a s
  | left _ ih => exact .right ih
  | right _ ih => exact .left ih

/-- The first program may run to its end before anything else. -/
theorem run_left (p : Prog Res α) {s : σ}
    (h : Weave step (.ret (p.run step s).1) q (p.run step s).2 tr a b s') :
    ∃ tr', Weave step p q s tr' a b s' := by
  induction p generalizing s with
  | ret a => exact ⟨tr, h⟩
  | call op next ih =>
      obtain ⟨tr', h'⟩ := ih _ h
      exact ⟨_, .left h'⟩

/-- The first part of a program may run to its end before anything else. -/
theorem run_bind_left (p : Prog Res γ) {f : γ → Prog Res α} {s : σ}
    (h : Weave step (f (p.run step s).1) q (p.run step s).2 tr a b s') :
    ∃ tr', Weave step (p >>= f) q s tr' a b s' := by
  induction p generalizing s with
  | ret a => exact ⟨tr, h⟩
  | call op next ih =>
      obtain ⟨tr', h'⟩ := ih _ h
      exact ⟨_, .left h'⟩

/-- With the first program at its end, the second runs alone. -/
theorem of_ret_left (a : α) (q : Prog Res β) (s : σ) :
    ∃ tr, Weave step (.ret a : Prog Res α) q s tr a (q.run step s).1 (q.run step s).2 := by
  induction q generalizing s with
  | ret b => exact ⟨[], .done a b s⟩
  | call op next ih =>
      obtain ⟨tr, h⟩ := ih (step op s).1 (step op s).2
      exact ⟨_, .right h⟩

/-- With the first program at its end, the interleaving is the second program's run. -/
theorem ret_left {a₀ : α} (h : Weave step (.ret a₀ : Prog Res α) q s tr a b s') :
    a = a₀ ∧ q.run step s = (b, s') := by
  induction q generalizing s tr with
  | ret b₀ => cases h; exact ⟨rfl, rfl⟩
  | call op next ih =>
      cases h with
      | right h => exact ih _ h

theorem ret_right {b₀ : β} (h : Weave step p (.ret b₀ : Prog Res β) s tr a b s') :
    b = b₀ ∧ p.run step s = (a, s') :=
  ret_left h.symm

/-- One program and then the other. -/
theorem of_runs {t : σ} (hp : p.run step s = (a, t)) (hq : q.run step t = (b, s')) :
    ∃ tr, Weave step p q s tr a b s' := by
  have hright : ∃ tr, Weave step (.ret a : Prog Res α) q t tr a (q.run step t).1 (q.run step t).2 :=
    of_ret_left a q t
  obtain ⟨tr, h⟩ := hright
  have hleft : Weave step (.ret (p.run step s).1) q (p.run step s).2 tr a b s' := by
    rw [hp]
    rw [hq] at h
    exact h
  exact run_left p hleft

/-- A program may run between the two parts of another. -/
theorem between (p : Prog Res γ) (f : γ → Prog Res α) (q : Prog Res β) (s : σ) :
    ∃ tr, Weave step (p >>= f) q s tr
      ((f (p.run step s).1).run step (q.run step (p.run step s).2).2).1
      (q.run step (p.run step s).2).1
      ((f (p.run step s).1).run step (q.run step (p.run step s).2).2).2 := by
  obtain ⟨tr, h⟩ := of_ret_left (q.run step (p.run step s).2).1 (f (p.run step s).1)
    (q.run step (p.run step s).2).2
  obtain ⟨tr', h'⟩ := run_left q h
  exact run_bind_left p h'.symm

theorem of_between {t u : σ} {p : Prog Res γ} {f : γ → Prog Res α} {c : γ}
    (hp : p.run step s = (c, t)) (hq : q.run step t = (b, u)) (hf : (f c).run step u = (a, s')) :
    ∃ tr, Weave step (p >>= f) q s tr a b s' := by
  have h : ∃ tr, Weave step (p >>= f) q s tr _ _ _ := between p f q s
  rwa [hp, hq, hf] at h

/-- A first call that changes nothing and comes to one program wherever the other may have come
to can be left out. -/
theorem skip {I : σ → Prop} {op : Op} {next : Res op → Prog Res α}
    (hop : ∀ s, I s → (step op s).2 = s ∧ next (step op s).1 = p) (hq : q.Along step I s)
    (h : Weave step (.call op next) q s tr a b s') : ∃ tr', Weave step p q s tr' a b s' := by
  generalize hr : Prog.call op next = r at h
  induction h with
  | done => cases hr
  | left h ih =>
      cases hr
      obtain ⟨hs, hn⟩ := hop _ hq.here
      rw [hs, hn] at h
      exact ⟨_, h⟩
  | right h ih =>
      obtain ⟨tr', h'⟩ := ih hq.2 hr
      exact ⟨_, .right h'⟩

/-- Two programs of at most one call each. -/
theorem serial_of_single (hp : p.Single) (hq : q.Single) (h : Weave step p q s tr a b s') :
    Serial step p q s a b s' ∨ Serial step q p s b a s' := by
  cases h with
  | done a b s => exact .inl ⟨rfl, rfl⟩
  | left h =>
      obtain ⟨a₀, ha⟩ := hp (step _ s).1
      rw [ha] at h
      obtain ⟨rfl, hrun⟩ := ret_left h
      exact .inl ⟨by rw [Prog.run_call, ha]; rfl, by rw [Prog.run_call, ha]; exact hrun⟩
  | right h =>
      obtain ⟨b₀, hb⟩ := hq (step _ s).1
      rw [hb] at h
      obtain ⟨rfl, hrun⟩ := ret_right h
      exact .inr ⟨by rw [Prog.run_call, hb]; rfl, by rw [Prog.run_call, hb]; exact hrun⟩

/-- Calls that leave the state as it is. -/
theorem serial_of_fixed {P : Op → Prop} (hs : ∀ op, P op → (step op s).2 = s) (hp : p.All P)
    (hq : q.All P) (h : Weave step p q s tr a b s') : Serial step p q s a b s' := by
  induction h with
  | done a b s => exact ⟨rfl, rfl⟩
  | @left op next q s s' tr a b _ ih =>
      have hop := hs op hp.1
      exact ih (by rwa [hop]) (hp.2 _) hq
  | @right op p next s s' tr a b _ ih =>
      have hop := hs op hq.1
      have hrun : (p.run step s).2 = s :=
        p.run_inv (I := fun s' => s' = s) (P := P) (fun op s' h hs' => by rw [hs', hs op h]) hp rfl
      obtain ⟨h₁, h₂⟩ := ih (by rwa [hop]) hp (hq.2 _)
      rw [hop, hrun] at h₂
      rw [hop] at h₁
      refine ⟨h₁, ?_⟩
      rw [hrun, Prog.run_call, hop]
      exact h₂

end Weave

end Atomic
