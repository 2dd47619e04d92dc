import Thesaurus.Commands.SetCalls

/-!
# Commands — schedules of SET

How the steps of a SET can be placed among those of another program.

* `reads_first`: all that it reads may come first.
* `skip_reads`: its reads can be left out where it would write the same wherever the other program
  may have come to, so that only its writes are left to interleave.
* `weave_writes`, `weave_write_prog`: what is left of two writes, and of a write beside a SET.
* `weave_last`, `weave_under`, `weave_bare_last`, `weave_keeps` and their like: the schedules of
  two SETs that are not serial unless the SETs are harmless.
-/

namespace Thesaurus
open StoreInner
open Atomic (Prog Weave)

/-! ### Its reads and its writes -/

section

variable {ex : Executor} {key : String} {s s' : StoreInner} {p q : SetCall}
  {r : Option String} {Q : ClientProg Reply} {tr : List (Bool × (Env × StoreOp))} {a b : Reply}

/-- A SET may read all that it reads before anything else. -/
theorem reads_first {d : Option Instant} (hp : p.WritesOver ex (s.cell key) r)
    (hd : p.deadline (s.cell key) = d)
    (h : Weave applyEach (p.write key d (p.reply r)) Q s tr a b s') :
    ∃ tr', Weave applyEach (p.prog ex key) Q s tr' a b s' := by
  subst hd
  rw [SetCall.prog_eq]
  have hnext : ∃ tr', Weave applyEach (p.next ex key (.ok r)) Q s tr' a b s' := by
    rw [SetCall.next_met hp.2]
    by_cases hk : p.Keeps
    · rw [SetCall.deadline_keeps hk] at h
      rw [SetCall.go_keeps hk]
      exact ⟨_, .left h⟩
    · rw [SetCall.go_eq hk (s.cell key)]
      exact ⟨_, h⟩
  obtain ⟨tr', h'⟩ := hnext
  have hread : Weave applyEach (p.next ex key (applyEach (p.env, .getString key) s).1) Q
      (applyEach (p.env, .getString key) s).2 tr' a b s' := by
    rw [apply_reads hp.1]
    exact h'
  exact ⟨_, .left hread⟩

/-- The read of the deadline can be left out where the deadline does not change. -/
theorem skip_ttl {d : Option Instant}
    (hk : p.Keeps → Q.Along applyEach (fun t => (t.cell key).deadline = d) s)
    (hd : ¬p.Keeps → p.deadline (s.cell key) = d)
    (h : Weave applyEach (p.go key r) Q s tr a b s') :
    ∃ tr', Weave applyEach (p.write key d (p.reply r)) Q s tr' a b s' := by
  by_cases hkeeps : p.Keeps
  · rw [SetCall.go_keeps hkeeps] at h
    refine h.skip (fun t ht => ⟨rfl, ?_⟩) (hk hkeeps)
    show p.write key (t.cell key).deadline _ = _
    rw [ht]
  · rw [SetCall.go_eq hkeeps (s.cell key), hd hkeeps] at h
    exact ⟨_, h⟩

variable (ex key) in
/-- Here the SET writes with the deadline `d`, and replies as if it had read `r`. -/
def Steady (p : SetCall) (r : Option String) (d : Option Instant) (t : StoreInner) : Prop :=
  (∃ r', p.WritesOver ex (t.cell key) r' ∧ p.reply r' = p.reply r) ∧
    (p.Keeps → (t.cell key).deadline = d)

/-- **The reads of a SET that writes can be left out** where it would write the same wherever the
other program may have come to. -/
theorem skip_reads {d : Option Instant} (hI : Q.Along applyEach (Steady ex key p r d) s)
    (hd : ¬p.Keeps → p.deadline (s.cell key) = d)
    (h : Weave applyEach (p.prog ex key) Q s tr a b s') :
    ∃ tr', Weave applyEach (p.write key d (p.reply r)) Q s tr' a b s' := by
  rw [SetCall.prog_eq] at h
  by_cases hkeeps : p.Keeps
  · have hread : ∃ tr₁, Weave applyEach (.call (p.env, .getTtl key) fun old =>
        p.write key old (p.reply r)) Q s tr₁ a b s' := by
      refine h.skip (fun t ht => ?_) hI
      obtain ⟨⟨r', ⟨hr, hm⟩, hrep⟩, -⟩ := ht
      rw [apply_reads hr]
      exact ⟨rfl, by rw [SetCall.next_met hm, SetCall.go_keeps hkeeps, hrep]⟩
    obtain ⟨tr₁, h₁⟩ := hread
    refine h₁.skip (fun t ht => ⟨rfl, ?_⟩) hI
    show p.write key (t.cell key).deadline _ = _
    rw [ht.2 hkeeps]
  · refine h.skip (fun t ht => ?_) hI
    obtain ⟨⟨r', ⟨hr, hm⟩, hrep⟩, -⟩ := ht
    rw [apply_reads hr]
    refine ⟨rfl, ?_⟩
    rw [SetCall.next_met hm, SetCall.go_eq hkeeps (s.cell key), hd hkeeps, hrep]

/-- The states that a SET passes through. -/
theorem along_write {I : StoreInner → Prop} {d : Option Instant} (hs : I s)
    (hbare : I (s.setCell key (p.cell none))) (hset : I (s.setCell key (p.cell d))) :
    (p.write key d a).Along applyEach I s := by
  refine ⟨hs, ?_⟩
  rw [apply_set]
  cases d with
  | none => exact hbare
  | some d =>
      refine ⟨hbare, ?_⟩
      rw [apply_ttl]
      exact hset

theorem along_prog {I : StoreInner → Prop} (hs : I s)
    (hset : p.Writes ex (s.cell key) → I (s.setCell key (p.cell none)) ∧
      I (s.setCell key (p.cell (p.deadline (s.cell key))))) :
    (p.prog ex key).Along applyEach I s := by
  rw [SetCall.prog_eq]
  refine ⟨hs, ?_⟩
  rw [apply_get]
  by_cases hp : p.Writes ex (s.cell key)
  · obtain ⟨hbare, hend⟩ := hset hp
    obtain ⟨r, hr, hm⟩ := hp
    rw [show Store.asString ((s.cell key).live p.env.clock.mono) = .ok r from hr,
      SetCall.next_met hm]
    by_cases hk : p.Keeps
    · rw [SetCall.go_keeps hk]
      rw [SetCall.deadline_keeps hk] at hend
      exact ⟨hs, along_write hs hbare hend⟩
    · rw [SetCall.go_eq hk (s.cell key)]
      exact along_write hs hbare hend
  · rw [SetCall.next_idle hp]
    exact hs

/-- A write beside the end of another one. -/
theorem weave_finish_write {d d' : Option Instant} {ra rb : Reply}
    (h : Weave applyEach (p.finish key d ra) (q.write key d' rb) (s.setCell key (p.cell none))
      tr a b s') :
    a = ra ∧ b = rb ∧ ∃ e, (e = d ∨ e = d') ∧ s' = s.setCell key (q.cell e) := by
  cases d with
  | none =>
      obtain ⟨rfl, hrun⟩ := h.ret_left
      rw [run_write, setCell_setCell] at hrun
      cases hrun
      exact ⟨rfl, rfl, d', .inr rfl, rfl⟩
  | some d =>
      cases h with
      | left h =>
          rw [apply_ttl] at h
          obtain ⟨rfl, hrun⟩ := h.ret_left
          rw [run_write, setCell_setCell] at hrun
          cases hrun
          exact ⟨rfl, rfl, d', .inr rfl, rfl⟩
      | right h =>
          rw [apply_set, setCell_setCell] at h
          cases d' with
          | none =>
              obtain ⟨rfl, hrun⟩ := h.ret_right
              cases (run_finish_some s p q none d ra).symm.trans hrun
              exact ⟨rfl, rfl, some d, .inl rfl, rfl⟩
          | some d' =>
              cases h with
              | left h =>
                  rw [apply_ttl] at h
                  obtain ⟨rfl, hrun⟩ := h.ret_left
                  cases (run_finish_some s q q (some d) d' rb).symm.trans hrun
                  exact ⟨rfl, rfl, some d', .inr rfl, rfl⟩
              | right h =>
                  rw [apply_ttl] at h
                  obtain ⟨rfl, hrun⟩ := h.ret_right
                  cases (run_finish_some s p q (some d') d ra).symm.trans hrun
                  exact ⟨rfl, rfl, some d, .inl rfl, rfl⟩

/-- Two writes leave the value of one and the deadline of one. -/
theorem weave_writes {d d' : Option Instant} {ra rb : Reply}
    (h : Weave applyEach (p.write key d ra) (q.write key d' rb) s tr a b s') :
    a = ra ∧ b = rb ∧ ∃ e, (e = d ∨ e = d') ∧
      (s' = s.setCell key (p.cell e) ∨ s' = s.setCell key (q.cell e)) := by
  cases h with
  | left h =>
      rw [apply_set] at h
      obtain ⟨ha, hb, e, he, hs⟩ := weave_finish_write h
      exact ⟨ha, hb, e, he, .inr hs⟩
  | right h =>
      rw [apply_set] at h
      obtain ⟨hb, ha, e, he, hs⟩ := weave_finish_write h.symm
      exact ⟨ha, hb, e, he.symm, .inl hs⟩

/-- **A SET beside a write** reads before the write, after it, or the bare value in between. -/
theorem weave_write_prog {d : Option Instant} {ra : Reply}
    (h : Weave applyEach (p.write key d ra) (q.prog ex key) s tr a b s') :
    (∃ tr', Weave applyEach (p.write key d ra)
      (q.next ex key (Store.asString ((s.cell key).live q.env.clock.mono))) s tr' a b s') ∨
    (a = ra ∧ (q.prog ex key).run applyEach (s.setCell key (p.cell d)) = (b, s')) ∨
    ∃ e tr', d = some e ∧ Weave applyEach (p.finish key d ra)
      (q.next ex key (.ok (some p.value))) (s.setCell key (p.cell none)) tr' a b s' := by
  rw [SetCall.prog_eq] at h ⊢
  cases h with
  | right h =>
      rw [apply_get] at h
      exact .inl ⟨_, h⟩
  | left h =>
      rw [apply_set] at h
      cases d with
      | none =>
          obtain ⟨rfl, hrun⟩ := h.ret_left
          exact .inr (.inl ⟨rfl, hrun⟩)
      | some e =>
          cases h with
          | left h =>
              rw [apply_ttl] at h
              obtain ⟨rfl, hrun⟩ := h.ret_left
              exact .inr (.inl ⟨rfl, hrun⟩)
          | right h =>
              rw [apply_reads (reads_setCell s p q none)] at h
              exact .inr (.inr ⟨e, _, rfl, h⟩)

/-- What has read the bare value, and does not write. -/
theorem weave_bare_refused {d : Option Instant} {ra : Reply} (hm : ¬q.Met ex (some p.value))
    (h : Weave applyEach (p.finish key d ra)
      (q.next ex key (.ok (some p.value))) (s.setCell key (p.cell none)) tr a b s') :
    a = ra ∧ b = q.refusal (some p.value) ∧ s' = s.setCell key (p.cell d) := by
  rw [SetCall.next_refused hm] at h
  obtain ⟨rfl, hrun⟩ := h.ret_right
  rw [run_finish] at hrun
  cases hrun
  exact ⟨rfl, rfl, rfl⟩

/-- What has read the bare value, and writes with the deadline that is still to be set. -/
theorem weave_bare_met {d : Option Instant} {ra : Reply} (hm : q.Met ex (some p.value))
    (hk : ¬q.Keeps) (hd : q.deadline (s.cell key) = d)
    (h : Weave applyEach (p.finish key d ra)
      (q.next ex key (.ok (some p.value))) (s.setCell key (p.cell none)) tr a b s') :
    a = ra ∧ b = q.reply (some p.value) ∧ s' = s.setCell key (q.cell d) := by
  rw [SetCall.next_met hm, SetCall.go_eq hk (s.cell key), hd] at h
  obtain ⟨ha, hb, e, he, hs⟩ := weave_finish_write h
  rw [or_self] at he
  exact ⟨ha, hb, he ▸ hs⟩

end

/-! ### Schedules -/

section

variable {ex : Executor} {key : String} {s s' : StoreInner} {p q : SetCall}
  {r r' : Option String} {tr : List (Bool × (Env × StoreOp))} {a b : Reply}

/-- Both SETs read before either writes. -/
theorem weave_of_writes (hp : p.WritesOver ex (s.cell key) r) (hq : q.WritesOver ex (s.cell key) r')
    (h : ∃ tr, Weave applyEach
      (p.write key (p.deadline (s.cell key)) (p.reply r))
      (q.write key (q.deadline (s.cell key)) (q.reply r')) s tr a b s') :
    ∃ tr, Weave applyEach (p.prog ex key) (q.prog ex key) s tr a b s' := by
  obtain ⟨tr, h⟩ := h
  obtain ⟨tr₁, h₁⟩ := reads_first hp rfl h
  obtain ⟨tr₂, h₂⟩ := reads_first hq rfl h₁.symm
  exact ⟨_, h₂.symm⟩

/-- Both read, `p` writes, `q` writes. -/
theorem weave_last (hp : p.WritesOver ex (s.cell key) r) (hq : q.WritesOver ex (s.cell key) r') :
    ∃ tr, Weave applyEach (p.prog ex key) (q.prog ex key) s tr
      (p.reply r) (q.reply r')
      (s.setCell key (q.cell (q.deadline (s.cell key)))) :=
  weave_of_writes hp hq (Weave.of_runs (run_write _ _ _) (by rw [run_write, setCell_setCell]))

theorem run_invoke_set (s : StoreInner) (p : SetCall) :
    (Prog.invoke (p.env, StoreOp.setString key p.value)).run applyEach s =
      ((), s.setCell key (p.cell none)) := by
  rw [Prog.invoke, Prog.run_call, apply_set]
  rfl

/-- Both read, and `q` writes before `p` sets its deadline. -/
theorem weave_under {d : Instant} (hp : p.WritesOver ex (s.cell key) r)
    (hq : q.WritesOver ex (s.cell key) r') (hd : p.deadline (s.cell key) = some d) :
    ∃ tr, Weave applyEach (p.prog ex key) (q.prog ex key) s tr
      (p.reply r) (q.reply r') (s.setCell key (q.cell (some d))) := by
  refine weave_of_writes hp hq ?_
  rw [hd]
  refine Weave.of_between (run_invoke_set s p) (run_write _ _ _) ?_
  rw [setCell_setCell]
  exact run_finish_some s p q _ d _

/-- `q` runs before `p` sets its deadline. -/
theorem weave_between {t : StoreInner} (hp : p.WritesOver ex (s.cell key) r)
    (hq : (q.prog ex key).run applyEach (s.setCell key (p.cell none)) = (b, t))
    (h : (p.finish key (p.deadline (s.cell key)) (p.reply r)).run
      applyEach t = (a, s')) :
    ∃ tr, Weave applyEach (p.prog ex key) (q.prog ex key) s tr a b s' := by
  obtain ⟨tr, hw⟩ := Weave.of_between (f := fun _ => p.finish key
    (p.deadline (s.cell key)) (p.reply r)) (run_invoke_set s p) hq h
  exact reads_first hp rfl hw

/-- `q` reads the bare value and is refused. -/
theorem weave_bare_refusal (hp : p.WritesOver ex (s.cell key) r)
    (hm : ¬q.Met ex (some p.value)) :
    ∃ tr, Weave applyEach (p.prog ex key) (q.prog ex key) s tr
      (p.reply r) (q.refusal (some p.value))
      (s.setCell key (p.cell (p.deadline (s.cell key)))) :=
  weave_between hp (run_refused_after hm) (run_finish _ _ _ _ _)

/-- `q` reads the bare value and writes before `p` sets its deadline. -/
theorem weave_bare_under {d : Instant} (hp : p.WritesOver ex (s.cell key) r)
    (hm : q.Met ex (some p.value)) (hd : p.deadline (s.cell key) = some d) :
    ∃ tr, Weave applyEach (p.prog ex key) (q.prog ex key) s tr
      (p.reply r) (q.reply (some p.value))
      (s.setCell key (q.cell (some d))) :=
  weave_between hp (run_met_after hm) (by rw [hd]; exact run_finish_some _ _ _ _ _ _)

/-- `q` reads the bare value and writes after `p` has set its deadline. -/
theorem weave_bare_last (hp : p.WritesOver ex (s.cell key) r)
    (hm : q.Met ex (some p.value)) :
    ∃ tr, Weave applyEach (p.prog ex key) (q.prog ex key) s tr
      (p.reply r) (q.reply (some p.value))
      (s.setCell key (q.cell (q.deadline (p.cell none)))) := by
  have hlast : ∃ tr, Weave applyEach
      (p.finish key (p.deadline (s.cell key)) (p.reply r))
      (q.write key (q.deadline (p.cell none)) (q.reply (some p.value)))
      (s.setCell key (p.cell none)) tr (p.reply r) (q.reply (some p.value))
      (s.setCell key (q.cell (q.deadline (p.cell none)))) :=
    Weave.of_runs (run_finish _ _ _ _ _) (by rw [run_write, setCell_setCell])
  obtain ⟨tr₁, h₁⟩ := hlast
  obtain ⟨tr₂, h₂⟩ := reads_first ⟨reads_setCell s p q none, hm⟩ (by rw [cell_setCell_self]) h₁.symm
  have hset : Weave applyEach
      (p.finish key (p.deadline (s.cell key)) (p.reply r))
      (q.prog ex key) (applyEach (p.env, .setString key p.value) s).2
      (tr₂.map fun e => (!e.1, e.2)) (p.reply r) (q.reply (some p.value))
      (s.setCell key (q.cell (q.deadline (p.cell none)))) := by
    rw [apply_set]
    exact h₂.symm
  exact reads_first hp rfl (.left hset)

/-- Both read, but `p` reads the deadline that it keeps only when `q` has written and has its own
deadline still to set. -/
theorem weave_keeps {d : Instant} (hp : p.WritesOver ex (s.cell key) r)
    (hq : q.WritesOver ex (s.cell key) r') (hk : p.Keeps) (hd : q.deadline (s.cell key) = some d) :
    ∃ tr, Weave applyEach (p.prog ex key) (q.prog ex key) s tr
      (p.reply r) (q.reply r') (s.setCell key (p.cell none)) := by
  have hend : ∃ tr, Weave applyEach (q.finish key (some d) (q.reply r'))
      (p.write key none (p.reply r)) (s.setCell key (q.cell none)) tr
      (q.reply r') (p.reply r) (s.setCell key (p.cell none)) :=
    Weave.of_runs (run_finish _ _ _ _ _) (by rw [run_write, setCell_setCell])
  obtain ⟨tr₁, h₁⟩ := hend
  have hget : Weave applyEach (q.finish key (some d) (q.reply r'))
      (.call (p.env, .getTtl key) fun old => p.write key old (p.reply r))
      (applyEach (q.env, .setString key q.value) s).2 ((false, (p.env, .getTtl key)) :: tr₁)
      (q.reply r') (p.reply r) (s.setCell key (p.cell none)) := by
    rw [apply_set]
    refine .right ?_
    have hbare : (s.setCell key (q.cell none)).cell key = q.cell none := cell_setCell_self _ _ _
    show Weave _ _ (p.write key ((s.setCell key (q.cell none)).cell key).deadline _) _ _ _ _ _
    rw [hbare]
    exact h₁
  obtain ⟨tr₂, h₂⟩ := reads_first hq hd (.left hget)
  have hread : Weave applyEach (p.next ex key (applyEach (p.env, .getString key) s).1)
      (q.prog ex key) (applyEach (p.env, .getString key) s).2 (tr₂.map fun e => (!e.1, e.2))
      (p.reply r) (q.reply r') (s.setCell key (p.cell none)) := by
    rw [apply_reads hp.1]
    show Weave _ (p.next ex key (.ok r)) _ _ _ _ _ _
    rw [SetCall.next_met hp.2, SetCall.go_keeps hk]
    exact h₂.symm
  rw [SetCall.prog_eq (p := p)]
  exact ⟨_, .left hread⟩

end

end Thesaurus
