import Thesaurus.Cells.Invariant
import Thesaurus.Cells.Replies
import Thesaurus.Wire.Parse

/-!
# Runs — empty collections

A list or set that loses its last element should go with its key.  LPOP, RPOP, SPOP and SMOVE see
to that; SREM stores the empty set.

* `noEmpty_act_iff`: from a store without empty collections, a parsed command leads to one exactly
  when it is an SREM of every member of a live set.
* `run_noEmpty`: a run without such an SREM never stores an empty collection.
-/

namespace Thesaurus
open StoreInner

/-- No key holds an empty list or an empty set. -/
def NoEmpty (s : StoreInner) : Prop :=
  ∀ key v, s.data.lookup key = some v → v ≠ .list [] ∧ v ≠ .set ∅

/-- SREM of every member of a live set. -/
def EmptiesSet (w : Server) : Action → Prop
  | .execute _ (.sRem key members) =>
      ∃ set, w.store.get w.clock.mono key = some (.set set) ∧ set ⊆ members.toFinset
  | _ => False

/-- A command the parser builds. -/
def ParsedCommand : Action → Prop
  | .execute _ cmd => ∃ frame, Command.fromResp2 frame = .ok cmd
  | _              => True

namespace Cell

/-- The cell holds no empty collection. -/
def Inhabited (x : Cell) : Prop := ∀ v, x.value = some v → v ≠ .list [] ∧ v ≠ .set ∅

theorem inhabited_none {x : Cell} (h : x.value = none) : x.Inhabited := fun v hv => by
  rw [h] at hv
  cases hv

theorem inhabited_str {x : Cell} {text : String} (h : x.value = some (.str text)) :
    x.Inhabited := fun v hv => by
  cases h.symm.trans hv
  simp

theorem inhabited_list {x : Cell} {l : List String} (h : x.value = some (.list l))
    (hl : l ≠ []) : x.Inhabited := fun v hv => by
  cases h.symm.trans hv
  simpa using hl

theorem inhabited_set_iff {x : Cell} {set : Finset String} (h : x.value = some (.set set)) :
    x.Inhabited ↔ set ≠ ∅ := by
  constructor
  · intro hx he
    exact (hx _ h).2 (by rw [he])
  · intro hne v hv
    cases h.symm.trans hv
    simpa using hne

/-- What a live set holds, where no collection is empty. -/
theorem inhabited_shrinkSet (x : Cell) (set : Finset String) : (x.shrinkSet set).Inhabited := by
  unfold shrinkSet
  split
  · exact inhabited_none rfl
  · next h => exact (inhabited_set_iff rfl).mpr h

theorem inhabited_cellInvariant : CellInvariant Inhabited where
  empty := inhabited_none rfl
  setString _ := inhabited_str rfl
  shrinkSet x set _ := inhabited_shrinkSet x set
  addMember now member x _ := by
    unfold addMember
    split
    · exact (inhabited_set_iff rfl).mpr (Finset.insert_ne_empty _ _)
    · exact (inhabited_set_iff rfl).mpr (Finset.singleton_ne_empty _)

/-! ### The commands -/

/-- A change of the deadline alone. -/
theorem Inhabited.of_value {x y : Cell} (h : x.Inhabited) (hv : y.value = x.value) :
    y.Inhabited := fun v hy => h v (hv ▸ hy)

theorem inhabited_setTtl {x : Cell} (h : x.Inhabited) (t : Instant) : (x.setTtl t).2.Inhabited := by
  unfold setTtl
  split
  · exact h.of_value rfl
  · exact h

theorem inhabited_expireIn {c : Clock} {d : Duration} {x : Cell} (h : x.Inhabited) :
    (expireIn c d x).2.Inhabited := by
  unfold expireIn
  split
  · exact h
  · exact inhabited_setTtl h _

theorem inhabited_expireBy {past : Bool} {deadline : Option Instant} {x : Cell}
    (h : x.Inhabited) : (expireBy past deadline x).2.Inhabited := by
  unfold expireBy
  split
  · exact inhabited_none rfl
  · split
    · exact h
    · exact inhabited_setTtl h _

theorem inhabited_set {ex : Executor} {c : Clock} {value : String}
    {condition : Option SetCondition} {expiry : Option SetExpiry} {g : Bool} {x : Cell}
    (h : x.Inhabited) : (set ex c value condition expiry g x).2.Inhabited := by
  unfold set
  cases Store.asString (x.live c.mono) with
  | error e => exact h
  | ok prev =>
      dsimp only
      split
      · split <;> exact inhabited_str rfl
      · exact h

theorem inhabited_pushLoop {now : Instant} {createIfMissing : Bool}
    {pushFn : List String → String → List String}
    (hlen : ∀ l e, (pushFn l e).length = l.length + 1) {elements : List String} {size : Nat}
    {x : Cell} (h : x.Inhabited) :
    (x.pushLoop now createIfMissing pushFn elements size).2.Inhabited := by
  have hne : ∀ l, l ≠ [] → elements.tail.foldl pushFn l ≠ [] := by
    intro l hl he
    have := congrArg List.length he
    rw [length_foldl hlen, List.length_nil] at this
    have := List.length_pos_iff.mpr hl
    omega
  cases elements with
  | nil => exact h
  | cons element elements =>
      rcases pushLoop_cases now createIfMissing pushFn x element elements size with
        ⟨l, -, heq⟩ | ⟨-, -, heq⟩ | ⟨-, -, heq⟩ | ⟨v, -, -, heq⟩
      all_goals rw [heq]
      · refine inhabited_list rfl (hne _ fun he => ?_)
        have := congrArg List.length he
        rw [hlen] at this
        cases this
      · exact inhabited_list rfl (hne _ (List.cons_ne_nil _ _))
      · exact h
      · exact h

theorem inhabited_pop {now : Instant} {count : UInt64}
    {popFn : List String → Option (String × List String)} {x : Cell} (h : x.Inhabited) :
    (x.pop now count popFn).2.Inhabited := by
  unfold pop
  split
  · exact h
  · split
    · next l _ =>
        rw [shrinkList]
        split
        · exact inhabited_none rfl
        · next hne => exact inhabited_list rfl (by simpa using hne)
    · exact h
    · exact h

theorem inhabited_lset {now : Instant} {index : Int} {element : String} {x : Cell}
    (h : x.Inhabited) : (x.lset now index element).2.Inhabited := by
  unfold lset
  cases x.live now with
  | none => exact h
  | some v =>
      cases v with
      | str _ | set _ => exact h
      | list l =>
          dsimp only
          cases Store.calculateIndex index l.length with
          | error e => exact h
          | ok i =>
              dsimp only
              split
              · exact h
              · next hi =>
                  have hi : i < l.length := Nat.lt_of_not_le hi
                  refine inhabited_list rfl ?_
                  rw [swapRemoveBack_pushBack hi, Ne, List.set_eq_nil_iff]
                  rintro rfl
                  exact absurd hi (Nat.not_lt_zero i)

theorem inhabited_sadd {now : Instant} {members : List String} (hm : members ≠ []) {x : Cell}
    (h : x.Inhabited) : (x.sadd now members).2.Inhabited := by
  have hne : members.toFinset ≠ ∅ := by rwa [Ne, List.toFinset_eq_empty_iff]
  unfold sadd
  split
  · exact (inhabited_set_iff rfl).mpr hne
  · refine (inhabited_set_iff rfl).mpr ?_
    rw [insertAll_eq]
    exact fun he => hne (Finset.union_eq_empty.mp he).2
  · exact h

theorem inhabited_spop {now : Instant} {draws : Draws} {count : Option UInt64} {x : Cell}
    (h : x.Inhabited) : (x.spop now draws count).2.Inhabited := by
  unfold spop
  split
  · exact inhabited_shrinkSet _ _
  · exact h
  · exact h

/-- SREM leaves an empty set when it removes every member. -/
theorem inhabited_srem_iff {now : Instant} {members : List String} {x : Cell} (h : x.Inhabited) :
    (x.srem now members).2.Inhabited ↔
      ¬∃ set, x.live now = some (.set set) ∧ set ⊆ members.toFinset := by
  unfold srem
  cases hv : x.live now with
  | none => exact iff_of_true h fun ⟨_, he, _⟩ => by cases he
  | some v =>
      cases v with
      | str _ | list _ => exact iff_of_true h fun ⟨_, he, _⟩ => by cases he
      | set set =>
          rw [inhabited_set_iff rfl, removeAll_eq, Ne, Finset.sdiff_eq_empty_iff_subset]
          exact not_congr ⟨fun hs => ⟨set, rfl, hs⟩, fun ⟨_, he, hs⟩ => by cases he; exact hs⟩

/-- A command on one key that is no SREM, and no SADD of no member. -/
theorem inhabited_exec {ex : Executor} {env : Env} {cmd : Command} {key : String}
    {g : Cell → Reply × Cell} {x : Cell} (hg : Cell.exec ex env cmd = some (key, g))
    (hadd : ∀ k, cmd ≠ .sAdd k []) (hrem : ∀ k ms, cmd ≠ .sRem k ms) (h : x.Inhabited) :
    (g x).2.Inhabited := by
  cases cmd with
  | set => cases hg; exact inhabited_set h
  | getDel =>
      cases hg
      simp only [reply, getDelString]
      split
      · exact h
      · exact inhabited_none rfl
  | lPush | rPush | lPushX | rPushX =>
      cases hg
      exact inhabited_pushLoop (by simp [Store.pushFront, Store.pushBack]) h
  | lPop | rPop => cases hg; exact inhabited_pop h
  | lSet => cases hg; exact inhabited_lset h
  | sAdd key members =>
      cases hg
      exact inhabited_sadd (fun he => hadd key (by rw [he])) h
  | sPop => cases hg; exact inhabited_spop h
  | sRem key members => exact absurd rfl (hrem key members)
  | persist => cases hg; exact h.of_value rfl
  | expire | pExpire => cases hg; exact inhabited_expireIn h
  | expireAt | pExpireAt => cases hg; exact inhabited_expireBy h
  | _ => cases hg

end Cell

/-! ### Steps and runs -/

variable {ex : Executor}

theorem noEmpty_iff {s : StoreInner} : NoEmpty s ↔ EveryCell Cell.Inhabited s := Iff.rfl

/-- The parser builds no SADD without members. -/
theorem fromResp2_ne_sAdd_nil {frame : RespValue} {cmd : Command}
    (h : Command.fromResp2 frame = .ok cmd) (key : String) : cmd ≠ .sAdd key [] := by
  rintro rfl
  obtain ⟨s, ss, rfl, -⟩ := Command.fromResp2_eq_ok h
  exact Command.fromResp2_shaped h rfl

/-- **One step.**  From a store without empty collections, a parsed command leads to an empty one
exactly when it is an SREM of every member of a live set. -/
theorem noEmpty_act_iff {w : Server} {a : Action} (hp : ParsedCommand a) (h : NoEmpty w.store) :
    NoEmpty (w.act ex a).store ↔ ¬EmptiesSet w a := by
  have hother : (∀ draws k ms, a ≠ .execute draws (.sRem k ms)) → NoEmpty (w.act ex a).store := by
    intro hrem
    refine act_cells Cell.inhabited_cellInvariant (noEmpty_iff.mp h) ?_
    rintro draws cmd rfl key g hg
    obtain ⟨frame, hframe⟩ := hp
    exact Cell.inhabited_exec hg (fromResp2_ne_sAdd_nil hframe)
      (fun k ms he => hrem draws k ms (by rw [he])) (h key)
  cases a with
  | execute draws cmd =>
      cases cmd with
      | sRem key members =>
          rw [act_eq_setCell ex w draws (.sRem key members) rfl]
          refine Iff.trans ⟨fun h' => ?_, fun hx => ?_⟩
            (Cell.inhabited_srem_iff (noEmpty_iff.mp h key))
          · have := noEmpty_iff.mp h' key
            rwa [cell_setCell_self] at this
          · exact (noEmpty_iff.mp h).setCell key hx
      | _ => exact iff_of_true (hother (by simp)) id
  | evict draws => exact iff_of_true (hother (by simp)) id
  | advance c => exact iff_of_true (hother (by simp)) id

theorem noEmpty_new : NoEmpty Store.new := noEmpty_iff.mpr (.new Cell.inhabited_cellInvariant)

/-- **No empty collections.**  A run of parsed commands and evictions from an empty store in which
no SREM removes every member of a live set stores no empty list and no empty set. -/
theorem run_noEmpty (ex : Executor) (c : Clock) (actions : List Action)
    (hp : ∀ a ∈ actions, ParsedCommand a)
    (h : Server.All ex (fun w a => ¬EmptiesSet w a) ⟨Store.new, c⟩ actions) :
    NoEmpty (Server.run ex ⟨Store.new, c⟩ actions).store :=
  Server.run_of_act (P := fun w => NoEmpty w.store)
    (fun _ _ ha hw => (noEmpty_act_iff ha.2 hw).mpr ha.1) noEmpty_new
    (h.and (Server.all_of_forall (fun a ha _ => hp a ha) _))

/-- SADD `s` `a` `b`, then SREM `s` `a`. -/
theorem run_noEmpty_sRem :
    NoEmpty (Server.run .plain ⟨Store.new, Clock.at 0 0⟩
      [.execute .sorted (.sAdd "s" ["a", "b"]), .execute .sorted (.sRem "s" ["a"])]).store := by
  refine run_noEmpty .plain (Clock.at 0 0) _ ?_ ⟨id, ?_, trivial⟩
  · intro a ha
    rcases List.mem_pair.mp ha with rfl | rfl
    · exact ⟨bulkArray ["SADD", "s", "a", "b"], rfl⟩
    · exact ⟨bulkArray ["SREM", "s", "a"], rfl⟩
  · rintro ⟨set, hset, hsub⟩
    have hb : Server.mk (Store.new.setCell "s" ⟨some (.set {"a", "b"}), none⟩) (Clock.at 0 0) =
        Server.act .plain ⟨Store.new, Clock.at 0 0⟩ (.execute .sorted (.sAdd "s" ["a", "b"])) := rfl
    rw [← hb] at hset
    have hset : some (StoreValue.set {"a", "b"}) = some (.set set) := hset
    cases hset
    exact absurd hsub (by decide)

/-- SADD `s` `a`, SREM `s` `a`: the key holds the empty set. -/
theorem sRem_stores_empty :
    ¬∀ (ex : Executor) (c : Clock) (actions : List Action), (∀ a ∈ actions, ParsedCommand a) →
      NoEmpty (Server.run ex ⟨Store.new, c⟩ actions).store := fun h => by
  have hrun := h .plain (Clock.at 0 0)
    [.execute .sorted (.sAdd "s" ["a"]), .execute .sorted (.sRem "s" ["a"])] (fun a ha => by
      rcases List.mem_pair.mp ha with rfl | rfl
      · exact ⟨bulkArray ["SADD", "s", "a"], rfl⟩
      · exact ⟨bulkArray ["SREM", "s", "a"], rfl⟩)
  exact (hrun "s" (.set ∅) (by decide)).2 rfl

end Thesaurus
