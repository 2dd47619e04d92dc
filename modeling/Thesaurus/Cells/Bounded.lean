import Thesaurus.Cells.Deadline
import Thesaurus.Cells.Invariant
import Thesaurus.Cells.Rewrites

/-!
# Cells — deadlines are instants

Every deadline that a command sets is the sum of the time it reads and a duration, by an addition
that did not overflow.  A property of all such sums goes on to hold of the deadlines
(`DeadlineMeets.exec`).
-/

namespace Thesaurus
open StoreInner

namespace Cell

/-- The deadline, where there is one, meets `P`. -/
def DeadlineMeets (P : Instant → Prop) (x : Cell) : Prop := ∀ d, x.deadline = some d → P d

/-- The deadline is an instant that the clock can reach. -/
def Bounded (x : Cell) : Prop := ∀ d, x.deadline = some d → d < Instant.limit

variable {P : Instant → Prop} {x : Cell}

theorem meets_of_noDeadline (h : x.deadline = none) : x.DeadlineMeets P := fun d hd => by
  rw [h] at hd
  cases hd

namespace DeadlineMeets

/-- A change of the value alone. -/
theorem of_deadline {y : Cell} (h : x.DeadlineMeets P) (hd : y.deadline = x.deadline) :
    y.DeadlineMeets P := fun d hy => h d (hd ▸ hy)

theorem shrinkSet (h : x.DeadlineMeets P) (set : Finset String) :
    (x.shrinkSet set).DeadlineMeets P := by
  unfold Cell.shrinkSet
  split
  · exact meets_of_noDeadline rfl
  · exact h.of_deadline rfl

end DeadlineMeets

theorem deadlineMeets_cellInvariant : CellInvariant (DeadlineMeets P) where
  empty := meets_of_noDeadline rfl
  setString _ := meets_of_noDeadline rfl
  shrinkSet _ set h := h.shrinkSet set
  addMember now member x h := by
    unfold addMember
    split
    · exact h.of_deadline rfl
    · exact meets_of_noDeadline rfl

namespace DeadlineMeets

theorem setTtl (h : x.DeadlineMeets P) {t : Instant} (ht : P t) :
    (x.setTtl t).2.DeadlineMeets P := by
  unfold Cell.setTtl
  split
  · intro d hd
    cases hd
    exact ht
  · exact h

theorem rewrites {y : Cell} (h : x.DeadlineMeets P) {creates : Prop} {now : Instant}
    (hr : x.Rewrites creates now y) : y.DeadlineMeets P := by
  cases hr with
  | same => exact h
  | value _ w => exact h.of_deadline rfl
  | gone | fresh => exact meets_of_noDeadline rfl

section Sums

variable {c : Clock} (hP : ∀ d : Duration, c.mono + d < Instant.limit → P (c.mono + d))
include hP

theorem expireIn (h : x.DeadlineMeets P) {d : Duration} :
    (expireIn c d x).2.DeadlineMeets P := by
  unfold Cell.expireIn
  cases ht : c.mono.checkedAdd d with
  | none => exact h
  | some t =>
      obtain ⟨hlt, rfl⟩ := Instant.checkedAdd_eq_some.mp ht
      exact h.setTtl (hP d hlt)

theorem expireBy (h : x.DeadlineMeets P) {past : Bool} {d : Duration} :
    (expireBy past (c.mono.checkedAdd d) x).2.DeadlineMeets P := by
  unfold Cell.expireBy
  split
  · exact meets_of_noDeadline rfl
  · cases ht : c.mono.checkedAdd d with
    | none => exact h
    | some t =>
        obtain ⟨hlt, rfl⟩ := Instant.checkedAdd_eq_some.mp ht
        exact h.setTtl (hP d hlt)

/-- The deadline SET writes is the sum of an addition that fits, or the old one. -/
theorem setDeadline {e : Option SetExpiry} (h : x.DeadlineMeets P) {o : Option Instant}
    (ho : Executor.setDeadline c e x.deadline = .ok o) (d : Instant) (hd : o = some d) : P d := by
  subst hd
  cases e with
  | none => cases ho
  | some e =>
      cases hoff : e.offset c with
      | none =>
          rw [Executor.offset_eq_none_iff.mp hoff, Executor.setDeadline_keepTtl] at ho
          exact h d (Outcome.ok.inj ho)
      | some off =>
          by_cases hfit : c.mono + off < Instant.limit
          · rw [Executor.setDeadline_of_fits hoff hfit] at ho
            cases ho
            exact hP off hfit
          · rw [Executor.setDeadline_of_not_fits hoff (Nat.not_lt.mp hfit)] at ho
            split at ho <;> cases ho

theorem set (h : x.DeadlineMeets P) {ex : Executor} {value : String}
    {condition : Option SetCondition} {expiry : Option SetExpiry} {g : Bool} :
    (set ex c value condition expiry g x).2.DeadlineMeets P := by
  unfold Cell.set
  cases Store.asString (x.live c.mono) with
  | error e => exact h
  | ok prev =>
      dsimp only
      split
      · cases ho : Executor.setDeadline c expiry x.deadline with
        | panic => exact meets_of_noDeadline rfl
        | err text => exact meets_of_noDeadline rfl
        | ok o => exact fun d hd => h.setDeadline hP ho d hd
      · exact h

end Sums

/-- A command on one key keeps what holds of all sums that fit. -/
theorem exec (h : x.DeadlineMeets P) {ex : Executor} {env : Env}
    (hP : ∀ d : Duration, env.clock.mono + d < Instant.limit → P (env.clock.mono + d))
    {cmd : Command} {key : String} {g : Cell → Reply × Cell}
    (hg : Cell.exec ex env cmd = some (key, g)) : (g x).2.DeadlineMeets P := by
  cases cmd with
  | set => cases hg; exact h.set hP
  | expire | pExpire => cases hg; exact h.expireIn hP
  | expireAt | pExpireAt => cases hg; exact h.expireBy hP
  | persist => cases hg; exact meets_of_noDeadline rfl
  | getDel => cases hg; exact h.rewrites rewrites_getDelString
  | lPush | rPush | lPushX | rPushX => cases hg; exact h.rewrites rewrites_pushLoop
  | lPop | rPop =>
      cases hg
      rcases rewrites_pop with hr | ⟨v, -, heq⟩
      · exact h.rewrites hr
      · have hd := congrArg Cell.deadline heq
        exact h.of_deadline hd
  | lSet => cases hg; exact h.rewrites rewrites_lset
  | sAdd => cases hg; exact h.rewrites rewrites_sadd
  | sPop => cases hg; exact h.rewrites rewrites_spop
  | sRem => cases hg; exact h.rewrites rewrites_srem
  | _ => cases hg

end DeadlineMeets

theorem bounded_iff : x.Bounded ↔ x.DeadlineMeets (· < Instant.limit) := Iff.rfl

end Cell

/-- **Deadlines are instants** in every store a server reaches. -/
theorem run_bounded (ex : Executor) (c : Clock) (actions : List Action) :
    EveryCell Cell.Bounded (Server.run ex ⟨Store.new, c⟩ actions).store := by
  simp only [EveryCell, Cell.bounded_iff]
  refine Server.run_of_act
    (P := fun w => EveryCell (Cell.DeadlineMeets (· < Instant.limit)) w.store)
    (Q := fun _ _ => True) (fun w a _ hw => ?_) (.new Cell.deadlineMeets_cellInvariant)
    (Server.all_of_forall (fun _ _ _ => trivial) _)
  exact act_cells Cell.deadlineMeets_cellInvariant hw fun _ _ _ key _ hg =>
    (hw key).exec (fun _ h => h) hg

end Thesaurus
