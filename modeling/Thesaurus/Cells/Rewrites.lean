import Thesaurus.Cells.Replies

/-!
# Cells — what a call leaves

The calls that take no deadline leave the cell as it was, replace a live value under its deadline,
empty the cell, or, where they may create, put a new value where none was live.  A pop may also
forget the value and keep the deadline.
-/

namespace Thesaurus.Cell

/-- What such a call may leave of the cell. -/
inductive Rewrites (creates : Prop) (now : Instant) (x : Cell) : Cell → Prop where
  | same : Rewrites creates now x x
  | value {v : StoreValue} (hv : x.live now = some v) (w : StoreValue) :
      Rewrites creates now x { x with value := some w }
  | gone : Rewrites creates now x empty
  | fresh (hc : creates) (hx : x.live now = none) (w : StoreValue) :
      Rewrites creates now x ⟨some w, none⟩

variable {now : Instant} {x : Cell}

theorem rewrites_getDelString : Rewrites False now x (x.getDelString now).2 := by
  unfold getDelString
  dsimp only
  split
  · exact .same
  · exact .gone

theorem rewrites_push {element : String} {createIfMissing : Bool}
    {pushFn : List String → String → List String} :
    Rewrites (createIfMissing = true) now x (x.push now element createIfMissing pushFn).2 := by
  unfold push
  cases hl : x.live now with
  | none =>
      cases createIfMissing with
      | true => exact .fresh rfl hl _
      | false => exact .same
  | some v =>
      cases v with
      | list l => exact .value hl _
      | str _ | set _ => exact .same

theorem rewrites_pushLoop {createIfMissing : Bool} {pushFn : List String → String → List String}
    {elements : List String} {size : Nat} :
    Rewrites (createIfMissing = true) now x
      (x.pushLoop now createIfMissing pushFn elements size).2 := by
  cases elements with
  | nil => exact .same
  | cons element elements =>
      rcases pushLoop_cases now createIfMissing pushFn x element elements size with
        ⟨l, hl, heq⟩ | ⟨hl, hc, heq⟩ | ⟨-, -, heq⟩ | ⟨v, -, -, heq⟩
      all_goals rw [heq]
      · exact .value hl _
      · exact .fresh hc hl _
      · exact .same
      · exact .same

/-- A pop of all that a list holds keeps its deadline. -/
theorem rewrites_pop {count : UInt64} {popFn : List String → Option (String × List String)} :
    Rewrites False now x (x.pop now count popFn).2 ∨
      ∃ v, x.live now = some v ∧ (x.pop now count popFn).2 = { x with value := none } := by
  unfold pop
  split
  · exact .inl .same
  cases hl : x.live now with
  | none => exact .inl .same
  | some v =>
      cases v with
      | list l =>
          dsimp only
          rw [shrinkList]
          split
          · exact .inr ⟨_, rfl, rfl⟩
          · exact .inl (.value hl _)
      | str _ | set _ => exact .inl .same

theorem rewrites_lset {index : Int} {element : String} :
    Rewrites False now x (x.lset now index element).2 := by
  unfold lset
  cases hl : x.live now with
  | none => exact .same
  | some v =>
      cases v with
      | list l =>
          dsimp only
          cases Store.calculateIndex index l.length with
          | error e => exact .same
          | ok i =>
              dsimp only
              split
              · exact .same
              · exact .value hl _
      | str _ | set _ => exact .same

theorem rewrites_sadd {members : List String} : Rewrites True now x (x.sadd now members).2 := by
  unfold sadd
  cases hl : x.live now with
  | none => exact .fresh trivial hl _
  | some v =>
      cases v with
      | set set => exact .value hl _
      | str _ | list _ => exact .same

theorem rewrites_shrinkSet {v : StoreValue} (hv : x.live now = some v) (set : Finset String) :
    Rewrites False now x (x.shrinkSet set) := by
  unfold shrinkSet
  split
  · exact .gone
  · exact .value hv _

/-- The destination of an SMOVE that moves. -/
theorem rewrites_addMember (hset : ∀ v, x.live now = some v → ∃ set, v = .set set)
    (member : String) : Rewrites (x.live now = none) now x (x.addMember now member) := by
  unfold addMember
  cases hl : x.live now with
  | none => exact .fresh rfl hl _
  | some v =>
      obtain ⟨set, rfl⟩ := hset v hl
      exact .value hl _

theorem rewrites_spop {draws : Draws} {count : Option UInt64} :
    Rewrites False now x (x.spop now draws count).2 := by
  unfold spop
  cases hl : x.live now with
  | none => exact .same
  | some v =>
      cases v with
      | set set => exact rewrites_shrinkSet hl _
      | str _ | list _ => exact .same

theorem rewrites_srem {members : List String} :
    Rewrites False now x (x.srem now members).2 := by
  unfold srem
  cases hl : x.live now with
  | none => exact .same
  | some v =>
      cases v with
      | set set => exact .value hl _
      | str _ | list _ => exact .same

end Thesaurus.Cell
