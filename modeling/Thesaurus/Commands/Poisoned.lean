import Thesaurus.Commands.Panics
import Thesaurus.Model.Clients
import Thesaurus.Support.Lock

/-!
# Commands — the poisoned lock

`Store` keeps its maps in an `RwLock` and unwraps every guard.  A panic under the guard of a writer
poisons the lock, and every call of the store panics from then on.  The one call that panics there
is `smove`, at its first `unreachable!`; `sample` is taken to return, and `pop_inner` makes its
vector before it takes the lock.

* `poisoned_for_good`: when the lock is poisoned, and what is left then.
* `locked_at_once`: with one reading of the clock for a call it never is, and the programs run as
  if there were no lock.
-/

namespace Thesaurus
open StoreInner Atomic

/-- What one call reads from the clock, where it looks up to four times, and draws. -/
structure Readings where
  first : Instant
  second : Instant
  third : Instant
  fourth : Instant
  draws : Draws
  second_le_third : second ≤ third
  third_le_fourth : third ≤ fourth

/-- One reading for all lookups. -/
def Readings.once (env : Env) : Readings where
  first := env.clock.mono
  second := env.clock.mono
  third := env.clock.mono
  fourth := env.clock.mono
  draws := env.draws
  second_le_third := Nat.le_refl _
  third_le_fourth := Nat.le_refl _

/-- A call of the store, with the readings of its lookups. -/
def StoreOp.timed (r : Readings) : (op : StoreOp) → StoreInner → op.Res × StoreInner
  | .smove source destination member, s =>
      Store.smove s r.first r.second r.third r.fourth source destination member
  | op, s => op.apply r.first r.draws s

theorem StoreOp.timed_once (env : Env) (op : StoreOp) (s : StoreInner) :
    op.timed (.once env) s = op.at env s := by
  cases op <;> rfl

/-- The call panicked under the guard of a writer. -/
def poisons : Called StoreOp.Res → Bool
  | ⟨.smove _ _ _, none⟩ => true
  | _                    => false

/-- SMOVE panics when its source expires between the checks and the move. -/
theorem smove_eq_none_iff {s : StoreInner} {t₁ t₂ t₃ t₄ : Instant} (h₂₃ : t₂ ≤ t₃) (h₃₄ : t₃ ≤ t₄)
    {source destination member : String} :
    (Store.smove s t₁ t₂ t₃ t₄ source destination member).1 = none ↔
      ExpiresInside s t₁ t₂ t₃ source destination member := by
  by_cases hcheck : (∃ set, s.get t₁ source = some (.set set) ∧ member ∈ set) ∧
      TakesMembers (s.get t₂ destination)
  swap
  · refine iff_of_false ?_ fun h => hcheck h.1
    intro hnone
    have h := @smove_refused s t₁ t₂ t₃ t₄ source destination member hcheck
    rw [hnone] at h
    rcases h with h | h <;> cases h
  obtain ⟨⟨set, hs, hm⟩, hd⟩ := id hcheck
  rcases Cell.live_later (get_eq_live t₁ s source ▸ hs) t₃ with hlive | ⟨d, hdl, hd₃⟩
  · refine iff_of_false ?_ ?_
    · rw [smove_moved hs hm hd (Nat.le_trans h₂₃ h₃₄) hlive]
      simp
    · rintro ⟨-, d, hdl, hd₃⟩
      have hgone : (s.cell source).live t₃ = none := Cell.live_of_deadline_le hdl hd₃
      rw [hlive] at hgone
      cases hgone
  · exact iff_of_true (smove_unreachable hs hm hd (Cell.live_of_deadline_le hdl hd₃))
      ⟨hcheck, d, hdl, hd₃⟩

variable {ι α : Type}

/-- The next call of program `i` is a SMOVE whose source expires between the checks and the
move. -/
def Stumbles (p : Pool StoreOp.Res ι α StoreInner) (i : ι) (r : Readings) : Prop :=
  ∃ source destination member next, p.prog i = .call (.smove source destination member) next ∧
    ExpiresInside p.state r.first r.second r.third source destination member

theorem any_poisons_iff (p : Pool StoreOp.Res ι α StoreInner) (i : ι) (r : Readings) :
    (p.called StoreOp.timed i r).any poisons = true ↔ Stumbles p i r := by
  rw [Pool.called, Stumbles]
  cases hp : p.prog i with
  | ret a => simp
  | call op next =>
      have hone : [(⟨op, (op.timed r p.state).1⟩ : Called StoreOp.Res)].any poisons = true ↔
          poisons ⟨op, (op.timed r p.state).1⟩ = true := by simp
      rw [hone]
      cases op with
      | smove source destination member =>
          have hnone : poisons ⟨.smove source destination member,
                ((StoreOp.smove source destination member).timed r p.state).1⟩ = true ↔
              (Store.smove p.state r.first r.second r.third r.fourth source destination
                member).1 = none := by
            show poisons ⟨.smove source destination member, (Store.smove p.state r.first r.second
              r.third r.fourth source destination member).1⟩ = true ↔ _
            cases (Store.smove p.state r.first r.second r.third r.fourth source destination
              member).1 <;> simp [poisons]
          rw [hnone, smove_eq_none_iff r.second_le_third r.third_le_fourth]
          constructor
          · exact fun h => ⟨_, _, _, _, rfl, h⟩
          · rintro ⟨_, _, _, _, heq, h⟩
            cases heq
            exact h
      | _ =>
          refine iff_of_false (by simp [poisons]) ?_
          rintro ⟨_, _, _, _, heq, -⟩
          cases heq

variable [DecidableEq ι]

/-- The programs behind the lock of the store, after a schedule. -/
def locked (p : Pool StoreOp.Res ι α StoreInner) (schedule : List (ι × Readings)) :
    Pool (fun op : StoreOp => Option op.Res) ι (Option α) (Lock StoreInner) :=
  (p.behind false).run (Lock.step StoreOp.timed poisons) schedule

/-- **A poisoned lock stays.**  Handlers and rounds of the daemon, whatever they do, share a store.
Its lock is poisoned when one of them makes a SMOVE whose source expires between the checks and
the move.  Until then they run as if there were no lock.  From then on the store stays as it is,
and whoever has a call to make is over without a result. -/
theorem poisoned_for_good (p : Pool StoreOp.Res ι α StoreInner) (schedule : List (ι × Readings)) :
    ((locked p schedule).state.poisoned = true ↔
      ∃ before i r after, schedule = before ++ (i, r) :: after ∧
        Stumbles (p.run StoreOp.timed before) i r) ∧
    ((locked p schedule).state.poisoned = false →
      locked p schedule = (p.run StoreOp.timed schedule).behind false) ∧
    ∀ before after, schedule = before ++ after → (locked p before).state.poisoned = true →
      (locked p schedule).state = (locked p before).state ∧
      ∀ i ∈ after.map Prod.fst,
        (∃ a, (locked p before).prog i = .ret a ∧ (locked p schedule).prog i = .ret a) ∨
          (locked p schedule).prog i = .ret none := by
  refine ⟨?_, ?_, ?_⟩
  · rw [locked, Pool.poisoned_run, Pool.any_trace]
    simp only [any_poisons_iff]
  · intro h
    rw [locked, Pool.poisoned_run] at h
    exact Pool.run_behind h
  · rintro before after rfl h
    have hf : ∀ i, ((locked p before).prog i).Fragile :=
      Pool.fragile_run (fun i => Prog.fragile_locked _) before
    have hrun : locked p (before ++ after) =
        (locked p before).run (Lock.step StoreOp.timed poisons) after :=
      Pool.run_append _ before after
    rw [hrun]
    exact Pool.run_poisoned h hf after

/-- One client moves the member of a set, the other reads a string. -/
def moveGet : Bool → Client RespValue
  | true  => .call (Clock.at 0 0, .sMove "k" "l" "m") .ret
  | false => .call (Clock.at 0 0, .get "s") .ret

/-- `k` expires at 10. -/
def expiringSet : StoreInner := (Store.new.putData "k" (.set {"m"})).putExpiry "k" 10

/-- The clock reaches 10 after the checks. -/
def atDeadline : Readings :=
  ⟨5, 5, 10, 10, .sorted, by decide, by decide⟩

/-- The first calls of the two handlers. -/
theorem moveGet_calls :
    (∃ next, (Handlers.start .plain moveGet expiringSet).prog true =
      .call (.smove "k" "l" "m") next) ∧
    ∃ next, (Handlers.start .plain moveGet expiringSet).prog false =
      .call (.getString "s") next := by
  have hprog : ∀ b, (Handlers.start .plain moveGet expiringSet).prog b =
      (moveGet b).handler .plain := fun _ => rfl
  constructor <;> rw [hprog, moveGet, Client.handler] <;> exact ⟨_, rfl⟩

/-- The set expires inside SMOVE, and the other client gets no reply. -/
theorem poisoned_for_good_two :
    (locked (Handlers.start .plain moveGet expiringSet)
      [(true, atDeadline), (false, atDeadline)]).prog false = .ret none := by
  obtain ⟨⟨next, hmove⟩, next', hget⟩ := moveGet_calls
  have hstumbles : Stumbles (Handlers.start .plain moveGet expiringSet) true atDeadline :=
    ⟨"k", "l", "m", next, hmove, ⟨⟨{"m"}, rfl, by decide⟩, fun v hv => nomatch hv⟩, 10, rfl,
      Nat.le_refl 10⟩
  have hpoisoned := (poisoned_for_good (Handlers.start .plain moveGet expiringSet)
    [(true, atDeadline)]).1.mpr ⟨[], true, atDeadline, [], rfl, hstumbles⟩
  obtain ⟨-, hlast⟩ := (poisoned_for_good (Handlers.start .plain moveGet expiringSet)
    [(true, atDeadline), (false, atDeadline)]).2.2 [(true, atDeadline)] [(false, atDeadline)] rfl
    hpoisoned
  rcases hlast false (by simp) with ⟨a, ha, -⟩ | h
  · -- before its turn the other client has its call to make
    have hcall : (locked (Handlers.start .plain moveGet expiringSet)
        [(true, atDeadline)]).prog false =
          ((Handlers.start .plain moveGet expiringSet).prog false).locked :=
      Pool.prog_advance_of_ne _ Bool.false_ne_true _
    rw [hcall, hget] at ha
    cases ha
  · exact h

/-- With one reading of the clock for a call, the programs run as if there were no lock. -/
theorem locked_at_once (p : Pool StoreOp.Res ι α StoreInner) (schedule : List (ι × Env)) :
    locked p (schedule.map fun t => (t.1, .once t.2)) =
      (p.run StoreOp.at schedule).behind false := by
  rw [← Pool.run_map (f := Readings.once) StoreOp.timed_once]
  refine Pool.run_behind ?_
  rw [← Bool.not_eq_true, Pool.any_trace]
  rintro ⟨before, i, r, after, hsch, h⟩
  obtain ⟨source, destination, member, next, -, ⟨⟨set, hs, -⟩, -⟩, d, hd, hle⟩ :=
    (any_poisons_iff _ i r).mp h
  -- the reading that finds the source live is the one that finds it expired
  obtain ⟨t, -, ht⟩ := List.mem_map.mp (hsch ▸ List.mem_append_right before List.mem_cons_self)
  cases ht
  have hgone := Cell.live_of_deadline_le (x := ((p.run StoreOp.timed before).state.cell source))
    hd hle
  rw [get_eq_live] at hs
  have := hs.symm.trans hgone
  cases this

end Thesaurus
