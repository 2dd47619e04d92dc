import Thesaurus.Cells.Invariant
import Thesaurus.Cells.Rewrites

/-!
# Runs — ghosts

A key of the expiry index that is no key of the data is a ghost.  The calls that remove a key
remove it from both maps, except that LPOP and RPOP forget the deadline of a list they empty.

* `noGhosts_act_iff`: from a store without ghosts, a step leads to one exactly when it is such
  a pop.
* `run_noGhosts`: a run without such a pop never has a ghost.
-/

namespace Thesaurus
open StoreInner

/-- Every key with a deadline has a value. -/
def NoGhosts (s : StoreInner) : Prop := s.expiryIndex.keys ⊆ s.data.keys

/-- LPOP or RPOP of all that is left of a live list with a deadline. -/
def PopsToGhost (w : Server) : Action → Prop
  | .execute _ (.lPop key count) | .execute _ (.rPop key count) =>
      (w.store.expiryIndex.lookup key).isSome ∧ 24 * (count.getD 1).toNat ≤ 2 ^ 63 - 1 ∧
        ∃ l, w.store.get w.clock.mono key = some (.list l) ∧ l.length ≤ (count.getD 1).toNat
  | _ => False

/-- A cell with a deadline has a value. -/
def Cell.Grounded (x : Cell) : Prop := x.deadline.isSome → x.value.isSome

theorem noGhosts_iff {s : StoreInner} : NoGhosts s ↔ EveryCell Cell.Grounded s := by
  unfold NoGhosts EveryCell Cell.Grounded
  simp only [Finset.subset_iff, Maps.mem_keys_iff]
  rfl

/-! ### One cell -/

namespace Cell

theorem grounded_of_value {x : Cell} (h : x.value.isSome) : x.Grounded := fun _ => h

theorem grounded_of_noDeadline {x : Cell} (h : x.deadline = none) : x.Grounded := fun hd => by
  rw [h] at hd
  cases hd

theorem grounded_shrinkSet {x : Cell} (set : Finset String) : (x.shrinkSet set).Grounded := by
  unfold shrinkSet
  split
  · exact grounded_of_noDeadline rfl
  · exact grounded_of_value rfl

theorem grounded_cellInvariant : CellInvariant Grounded where
  empty := grounded_of_noDeadline rfl
  setString _ := grounded_of_noDeadline rfl
  shrinkSet _ set _ := grounded_shrinkSet set
  addMember now member x _ := by
    unfold addMember
    split <;> exact grounded_of_value rfl

theorem grounded_set {ex : Executor} {c : Clock} {value : String}
    {condition : Option SetCondition} {expiry : Option SetExpiry} {g : Bool} {x : Cell}
    (h : x.Grounded) : (set ex c value condition expiry g x).2.Grounded := by
  unfold set
  cases Store.asString (x.live c.mono) with
  | error e => exact h
  | ok prev =>
      dsimp only
      split
      · split <;> exact grounded_of_value rfl
      · exact h

theorem grounded_rewrites {creates : Prop} {now : Instant} {x y : Cell} (h : x.Grounded)
    (hr : x.Rewrites creates now y) : y.Grounded := by
  cases hr with
  | same => exact h
  | gone => exact grounded_of_noDeadline rfl
  | value | fresh => exact grounded_of_value rfl

theorem grounded_setTtl {x : Cell} (h : x.Grounded) (t : Instant) : (x.setTtl t).2.Grounded := by
  unfold setTtl
  split
  · next hv => exact grounded_of_value hv
  · exact h

theorem grounded_expireIn {c : Clock} {d : Duration} {x : Cell} (h : x.Grounded) :
    (expireIn c d x).2.Grounded := by
  unfold expireIn
  split
  · exact h
  · exact grounded_setTtl h _

theorem grounded_expireBy {past : Bool} {deadline : Option Instant} {x : Cell} (h : x.Grounded) :
    (expireBy past deadline x).2.Grounded := by
  unfold expireBy
  split
  · exact grounded_of_noDeadline rfl
  · split
    · exact h
    · exact grounded_setTtl h _

/-! ### Pops -/

theorem length_popLoop {popFn : List String → Option (String × List String)}
    (hp : ∀ l, (popFn l).elim (l = []) fun p => p.2.length + 1 = l.length) (count : Nat)
    (l : List String) : (Store.popLoop popFn count l).2.length = l.length - count := by
  induction count generalizing l with
  | zero => rfl
  | succ count ih =>
      have hl := hp l
      rw [Store.popLoop]
      cases hpop : popFn l with
      | none =>
          rw [hpop] at hl
          simp [show l = [] from hl]
      | some p =>
          rw [hpop] at hl
          have hlen : p.2.length + 1 = l.length := hl
          have := ih p.2
          dsimp only
          omega

theorem length_popFront (l : List String) :
    (Store.popFront l).elim (l = []) fun p => p.2.length + 1 = l.length := by
  cases l <;> simp [Store.popFront]

theorem length_popBack (l : List String) :
    (Store.popBack l).elim (l = []) fun p => p.2.length + 1 = l.length := by
  rcases List.eq_nil_or_concat l with rfl | ⟨l, x, rfl⟩ <;> simp [Store.popBack]

/-- A pop leaves a ghost when it takes the last element of a list with a deadline. -/
theorem grounded_pop_iff {now : Instant} {count : UInt64}
    {popFn : List String → Option (String × List String)} {x : Cell}
    (hp : ∀ l, (popFn l).elim (l = []) fun p => p.2.length + 1 = l.length) (h : x.Grounded) :
    (x.pop now count popFn).2.Grounded ↔
      ¬(x.deadline.isSome ∧ 24 * count.toNat ≤ 2 ^ 63 - 1 ∧
        ∃ l, x.live now = some (.list l) ∧ l.length ≤ count.toNat) := by
  unfold pop
  split
  · next hc => exact iff_of_true h fun ⟨_, hc', _⟩ => by omega
  · next hc =>
      cases hv : x.live now with
      | none => exact iff_of_true h fun ⟨_, _, l, hl, _⟩ => by cases hl
      | some v =>
          cases v with
          | str _ | set _ => exact iff_of_true h fun ⟨_, _, l, hl, _⟩ => by cases hl
          | list l =>
              have hlen := length_popLoop hp count.toNat l
              have hnil : (Store.popLoop popFn count.toNat l).2 = [] ↔ l.length ≤ count.toNat := by
                rw [← List.length_eq_zero_iff, hlen]
                omega
              have hmem : (∃ l', some (StoreValue.list l) = some (.list l') ∧
                  l'.length ≤ count.toNat) ↔ l.length ≤ count.toNat :=
                ⟨fun ⟨_, he, hl⟩ => by cases he; exact hl, fun hl => ⟨l, rfl, hl⟩⟩
              simp only [Grounded, shrinkList, List.isEmpty_iff, hnil, hmem,
                show 24 * count.toNat ≤ 2 ^ 63 - 1 by omega, true_and]
              by_cases hle : l.length ≤ count.toNat <;> simp [hle]

end Cell

/-! ### Steps and runs -/

variable {ex : Executor}

/-- A command on one key that is no pop grounds its cell. -/
theorem Cell.grounded_exec {env : Env} {cmd : Command} {key : String} {g : Cell → Reply × Cell}
    {x : Cell} (hg : Cell.exec ex env cmd = some (key, g)) (hl : ∀ k n, cmd ≠ .lPop k n)
    (hr : ∀ k n, cmd ≠ .rPop k n) (h : x.Grounded) : (g x).2.Grounded := by
  cases cmd with
  | set => cases hg; exact grounded_set h
  | lPop key count => exact absurd rfl (hl key count)
  | rPop key count => exact absurd rfl (hr key count)
  | expire | pExpire => cases hg; exact grounded_expireIn h
  | expireAt | pExpireAt => cases hg; exact grounded_expireBy h
  | persist => cases hg; exact grounded_of_noDeadline rfl
  | getDel => cases hg; exact grounded_rewrites h rewrites_getDelString
  | lPush | rPush | lPushX | rPushX => cases hg; exact grounded_rewrites h rewrites_pushLoop
  | lSet => cases hg; exact grounded_rewrites h rewrites_lset
  | sAdd => cases hg; exact grounded_rewrites h rewrites_sadd
  | sPop => cases hg; exact grounded_rewrites h rewrites_spop
  | sRem => cases hg; exact grounded_rewrites h rewrites_srem
  | _ => cases hg

/-- Where a pop on one key leaves a ghost, the store has one. -/
theorem noGhosts_setCell_iff {s : StoreInner} (h : NoGhosts s) {key : String} {x : Cell} :
    NoGhosts (s.setCell key x) ↔ x.Grounded := by
  rw [noGhosts_iff] at h ⊢
  exact ⟨fun h' => by simpa using h' key, fun hx => h.setCell key hx⟩

/-- **One step.**  From a store without ghosts, a step leads to a ghost exactly when it pops all
that is left of a live list with a deadline. -/
theorem noGhosts_act_iff {w : Server} (a : Action) (h : NoGhosts w.store) :
    NoGhosts (w.act ex a).store ↔ ¬PopsToGhost w a := by
  have hcells := noGhosts_iff.mp h
  have hother : (∀ draws k n, a ≠ .execute draws (.lPop k n)) →
      (∀ draws k n, a ≠ .execute draws (.rPop k n)) → NoGhosts (w.act ex a).store := by
    intro hl hr
    refine noGhosts_iff.mpr (act_cells Cell.grounded_cellInvariant hcells ?_)
    rintro draws cmd rfl key g hg
    exact Cell.grounded_exec hg (fun k n he => hl draws k n (by rw [he]))
      (fun k n he => hr draws k n (by rw [he])) (hcells key)
  cases a with
  | execute draws cmd =>
      cases cmd with
      | lPop key count =>
          rw [act_eq_setCell ex w draws (.lPop key count) rfl, noGhosts_setCell_iff h]
          exact Cell.grounded_pop_iff Cell.length_popFront (hcells key)
      | rPop key count =>
          rw [act_eq_setCell ex w draws (.rPop key count) rfl, noGhosts_setCell_iff h]
          exact Cell.grounded_pop_iff Cell.length_popBack (hcells key)
      | _ => exact iff_of_true (hother (by simp) (by simp)) id
  | evict draws => exact iff_of_true (hother (by simp) (by simp)) id
  | advance c => exact iff_of_true (hother (by simp) (by simp)) id

theorem noGhosts_new : NoGhosts Store.new := noGhosts_iff.mpr (.new Cell.grounded_cellInvariant)

/-- **No ghosts.**  A run from an empty store in which no LPOP or RPOP takes all that is left of a
live list with a deadline has no ghost in the end, and so in none of its states. -/
theorem run_noGhosts (ex : Executor) (c : Clock) (actions : List Action)
    (h : Server.All ex (fun w a => ¬PopsToGhost w a) ⟨Store.new, c⟩ actions) :
    NoGhosts (Server.run ex ⟨Store.new, c⟩ actions).store :=
  Server.run_of_act (P := fun w => NoGhosts w.store)
    (fun _ a ha hw => (noGhosts_act_iff a hw).mpr ha) noGhosts_new h

/-- RPUSH, EXPIRE, and the key is evicted after its deadline. -/
theorem run_noGhosts_evict :
    NoGhosts (Server.run .plain ⟨Store.new, Clock.at 0 0⟩
      [.execute .sorted (.rPush "k" ["a"]), .execute .sorted (.expire "k" 1),
        .advance (Clock.at 0 2000000000), .evict .sorted]).store :=
  run_noGhosts .plain (Clock.at 0 0) _ ⟨id, id, id, id, trivial⟩

/-- RPUSH `k` `a`, EXPIRE `k` 100, LPOP `k`: the deadline of `k` is left without a value. -/
theorem pop_leaves_ghost :
    ¬∀ (ex : Executor) (c : Clock) (actions : List Action),
      NoGhosts (Server.run ex ⟨Store.new, c⟩ actions).store := fun h =>
  absurd (h .plain (Clock.at 0 0)
    [.execute .sorted (.rPush "k" ["a"]), .execute .sorted (.expire "k" 100),
      .execute .sorted (.lPop "k" none)]) (by unfold NoGhosts; decide)

end Thesaurus
