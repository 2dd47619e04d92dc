import Thesaurus.Support.Keyed
import Thesaurus.Model.StoreOps

/-!
# Cells — one key at a time

What the two maps of a store hold for one key, as a value of its own: `Cell`.  A store is the
function from keys to cells (`store : Keyed ..`), and every call of the store on a single key is
a function on that key's cell.  The `apply_*` equations state this for each call; they are the
only place where the maps are unfolded.

A deadline without a value is possible: a list whose last element is popped leaves its deadline
behind.
-/

namespace Thesaurus
open Maps

/-- What a store holds for one key. -/
structure Cell where
  value : Option StoreValue
  deadline : Option Instant
  deriving DecidableEq

/-- The cell of a key that was never written. -/
def Cell.empty : Cell := ⟨none, none⟩

namespace StoreInner

/-- The cell of a key. -/
def cell (s : StoreInner) (key : String) : Cell := ⟨s.data.lookup key, s.expiryIndex.lookup key⟩

/-- Write an optional entry of a map. -/
def putOption {V : Type} (m : Map String V) (key : String) : Option V → Map String V
  | some v => m.insert key v
  | none   => m.erase key

/-- The store with another cell at a key. -/
def setCell (s : StoreInner) (key : String) (c : Cell) : StoreInner :=
  ⟨putOption s.data key c.value, putOption s.expiryIndex key c.deadline⟩

theorem lookup_putOption {V : Type} (m : Map String V) (key k : String) (o : Option V) :
    (putOption m key o).lookup k = if k = key then o else m.lookup k := by
  cases o <;> simp [putOption]

theorem ext_cell {s t : StoreInner} (h : ∀ k, s.cell k = t.cell k) : s = t := by
  obtain ⟨data, index⟩ := s
  obtain ⟨data', index'⟩ := t
  simp only [StoreInner.mk.injEq]
  exact ⟨Maps.ext fun k => congrArg Cell.value (h k), Maps.ext fun k => congrArg Cell.deadline (h k)⟩

/-- A store is its cells. -/
def keyed : Keyed StoreInner String Cell where
  get := cell
  put := setCell
  get_put_self s k c := by simp [cell, setCell, lookup_putOption]
  get_put_ne s k c k' h := by simp [cell, setCell, lookup_putOption, h]
  ext := ext_cell

theorem cell_setCell (s : StoreInner) (key k : String) (c : Cell) :
    (s.setCell key c).cell k = if k = key then c else s.cell k := by
  split
  · next h => rw [h]; exact keyed.get_put_self s key c
  · next h => exact keyed.get_put_ne s key c k h

@[simp] theorem cell_setCell_self (s : StoreInner) (key : String) (c : Cell) :
    (s.setCell key c).cell key = c := keyed.get_put_self s key c

theorem cell_setCell_ne (s : StoreInner) {key k : String} (c : Cell) (h : k ≠ key) :
    (s.setCell key c).cell k = s.cell k := keyed.get_put_ne s key c k h

@[simp] theorem setCell_cell (s : StoreInner) (key : String) : s.setCell key (s.cell key) = s :=
  keyed.put_get s key

@[simp] theorem setCell_setCell (s : StoreInner) (key : String) (c c' : Cell) :
    (s.setCell key c).setCell key c' = s.setCell key c' := keyed.put_put s key c c'

@[simp] theorem cell_new (key : String) : Store.new.cell key = Cell.empty := by
  simp [Store.new, cell, Cell.empty]

theorem putData_eq (s : StoreInner) (key : String) (v : StoreValue) :
    s.putData key v = s.setCell key { s.cell key with value := some v } := ext_cell fun k => by
  rw [cell_setCell]
  simp only [putData, cell, lookup_insert]
  split
  · next h => rw [h]
  · rfl

theorem removeData_eq (s : StoreInner) (key : String) :
    s.removeData key = s.setCell key { s.cell key with value := none } := ext_cell fun k => by
  rw [cell_setCell]
  simp only [removeData, cell, lookup_erase]
  split
  · next h => rw [h]
  · rfl

theorem putExpiry_eq (s : StoreInner) (key : String) (t : Instant) :
    s.putExpiry key t = s.setCell key { s.cell key with deadline := some t } :=
  ext_cell fun k => by
    rw [cell_setCell]
    simp only [putExpiry, cell, lookup_insert]
    split
    · next h => rw [h]
    · rfl

theorem removeExpiry_eq (s : StoreInner) (key : String) :
    s.removeExpiry key = s.setCell key { s.cell key with deadline := none } :=
  ext_cell fun k => by
    rw [cell_setCell]
    simp only [removeExpiry, cell, lookup_erase]
    split
    · next h => rw [h]
    · rfl

end StoreInner

open StoreInner

/-! ### The calls on one cell -/

namespace Cell

/-- The deadline has passed. -/
def expired (now : Instant) (c : Cell) : Bool := c.deadline.any (· ≤ now)

/-- The value, unless the deadline has passed. -/
def live (now : Instant) (c : Cell) : Option StoreValue :=
  if c.expired now then none else c.value

theorem not_expired_of_live {now : Instant} {c : Cell} {v : StoreValue}
    (h : c.live now = some v) : c.expired now = false := by
  unfold live at h
  split at h
  · cases h
  · next h' => simpa using h'

theorem value_of_live {now : Instant} {c : Cell} {v : StoreValue} (h : c.live now = some v) :
    c.value = some v := by
  rw [live, not_expired_of_live h] at h
  exact h

/-- An update of the value alone keeps a cell that is not expired live. -/
theorem live_withValue {now : Instant} {c : Cell} (h : c.expired now = false)
    (v : Option StoreValue) : live now { c with value := v } = v := by
  rw [live, show expired now { c with value := v } = false from h]
  rfl

@[simp] theorem live_noDeadline (now : Instant) (v : Option StoreValue) :
    live now ⟨v, none⟩ = v := rfl

@[simp] theorem live_empty (now : Instant) : live now empty = none := rfl

/-- `delete`. -/
def delete (c : Cell) : Bool × Cell := (c.value.isSome, empty)

/-- `set_ttl`. -/
def setTtl (t : Instant) (c : Cell) : Bool × Cell :=
  if c.value.isSome then (true, { c with deadline := some t }) else (false, c)

/-- `persist`. -/
def persist (c : Cell) : Bool × Cell := (c.deadline.isSome, { c with deadline := none })

/-- `set_string`. -/
def setString (v : String) : Cell := ⟨some (.str v), none⟩

/-- `get_del_string`. -/
def getDelString (now : Instant) (c : Cell) : Except StoreError (Option String) × Cell :=
  (Store.asString (c.live now), if c.expired now then c else empty)

/-- `push_inner`. -/
def push (now : Instant) (element : String) (createIfMissing : Bool)
    (pushFn : List String → String → List String) (c : Cell) : Except StoreError Nat × Cell :=
  match c.live now with
  | none =>
      if createIfMissing then (.ok 1, ⟨some (.list [element]), none⟩) else (.ok 0, c)
  | some (.list l) =>
      (.ok (pushFn l element).length, { c with value := some (.list (pushFn l element)) })
  | some _ => (.error .wrongType, c)

/-- A list that lost elements: none is stored when it is empty. -/
def shrinkList (l : List String) (c : Cell) : Cell :=
  { c with value := if l.isEmpty then none else some (.list l) }

/-- `pop_inner`. -/
def pop (now : Instant) (count : UInt64)
    (popFn : List String → Option (String × List String)) (c : Cell) :
    Option (Except StoreError (Option (List String))) × Cell :=
  if 24 * count.toNat > 2 ^ 63 - 1 then (none, c)
  else
    match c.live now with
    | some (.list l) =>
        (some (.ok (some (Store.popLoop popFn count.toNat l).1)),
          c.shrinkList (Store.popLoop popFn count.toNat l).2)
    | some _ => (some (.error .wrongType), c)
    | none   => (some (.ok none), c)

/-- `lset`. -/
def lset (now : Instant) (index : Int) (element : String) (c : Cell) :
    Except StoreError Unit × Cell :=
  match c.live now with
  | some (.list l) =>
      match Store.calculateIndex index l.length with
      | .error e => (.error e, c)
      | .ok i    =>
          if i ≥ l.length then (.error .outOfIndex, c)
          else (.ok (), { c with
            value := some (.list (Store.swapRemoveBack (Store.pushBack l element) i)) })
  | some _ => (.error .wrongType, c)
  | none   => (.error .noSuchKey, c)

/-- `sadd`. -/
def sadd (now : Instant) (members : List String) (c : Cell) : Except StoreError Nat × Cell :=
  match c.live now with
  | none            => (.ok members.toFinset.card, ⟨some (.set members.toFinset), none⟩)
  | some (.set set) =>
      (.ok (Store.insertAll members set).1,
        { c with value := some (.set (Store.insertAll members set).2) })
  | some _ => (.error .wrongType, c)

/-- A set that lost members: the key and its deadline go when it is empty. -/
def shrinkSet (set : Finset String) (c : Cell) : Cell :=
  if set = ∅ then empty else { c with value := some (.set set) }

/-- `spop`. -/
def spop (now : Instant) (draws : Draws) (count : Option UInt64) (c : Cell) :
    Except StoreError (Option (List String)) × Cell :=
  match c.live now with
  | some (.set set) =>
      let popped := draws.sample set (count.getD 1).toNat
      (.ok (some popped), c.shrinkSet (popped.foldl (fun set member => set.erase member) set))
  | some _ => (.error .wrongType, c)
  | none   => (.ok none, c)

/-- What `smove` does to its destination. -/
def addMember (now : Instant) (member : String) (c : Cell) : Cell :=
  match c.live now with
  | some (.set set) => { c with value := some (.set (insert member set)) }
  | _               => ⟨some (.set {member}), none⟩

/-- `srem`. -/
def srem (now : Instant) (members : List String) (c : Cell) : Except StoreError Nat × Cell :=
  match c.live now with
  | some (.set set) =>
      (.ok (Store.removeAll members set).1,
        { c with value := some (.set (Store.removeAll members set).2) })
  | some _ => (.error .wrongType, c)
  | none   => (.ok 0, c)

end Cell

/-! ### Each call is a function on a cell -/

section Equations

variable (now : Instant) (draws : Draws) (s : StoreInner) (key : String)

theorem keyed_at {α : Type} (g : Cell → α × Cell) :
    keyed.at key g s = ((g (s.cell key)).1, s.setCell key (g (s.cell key)).2) := rfl

theorem get_eq_live : s.get now key = (s.cell key).live now := rfl

theorem getMut_eq_live : s.getMut now key = (s.cell key).live now := rfl

theorem lookup_data : s.data.lookup key = (s.cell key).value := rfl

theorem lookup_expiryIndex : s.expiryIndex.lookup key = (s.cell key).deadline := rfl

theorem all_lt_deadline (c : Cell) : (c.deadline.all fun v => now < v) = !c.expired now := by
  unfold Cell.expired
  cases c.deadline with
  | none => rfl
  | some t =>
      rw [Option.all_some, Option.any_some, ← decide_not]
      exact decide_eq_decide.mpr Nat.not_le.symm

theorem Store.get_eq_live : Store.get s now key = (s.cell key).live now := by
  simp only [Store.get, lookup_expiryIndex, all_lt_deadline, Cell.live, lookup_data]
  by_cases h : (s.cell key).expired now <;> simp [h]

theorem apply_getString :
    (StoreOp.getString key).apply now draws s =
      (Store.asString ((s.cell key).live now), s) := by
  rw [← Store.get_eq_live]
  rfl

theorem apply_getTtl : (StoreOp.getTtl key).apply now draws s = ((s.cell key).deadline, s) := rfl

theorem apply_exists :
    (StoreOp.exists key).apply now draws s = (((s.cell key).live now).isSome, s) := by
  simp only [StoreOp.apply, Store.exists, lookup_expiryIndex, all_lt_deadline, Cell.live,
    lookup_data]
  by_cases h : (s.cell key).expired now <;> simp [h]

theorem apply_delete : (StoreOp.delete key).apply now draws s = keyed.at key Cell.delete s := by
  simp only [StoreOp.apply, Store.delete, removeExpiry_eq, removeData_eq, cell_setCell_self,
    setCell_setCell]
  rfl

theorem apply_setTtl (t : Instant) :
    (StoreOp.setTtl key t).apply now draws s = keyed.at key (Cell.setTtl t) s := by
  simp only [StoreOp.apply, Store.setTtl, keyed_at, Cell.setTtl, lookup_data, putExpiry_eq]
  split <;> simp

theorem apply_persist : (StoreOp.persist key).apply now draws s = keyed.at key Cell.persist s := by
  simp only [StoreOp.apply, Store.persist, removeExpiry_eq]
  rfl

theorem apply_setString (v : String) :
    (StoreOp.setString key v).apply now draws s = ((), s.setCell key (Cell.setString v)) := by
  simp only [StoreOp.apply, Store.setString, Store.set, removeExpiry_eq, putData_eq,
    cell_setCell_self, setCell_setCell]
  rfl

theorem apply_getDelString :
    (StoreOp.getDelString key).apply now draws s = keyed.at key (Cell.getDelString now) s := by
  simp only [StoreOp.apply, Store.getDelString, Store.getDel, lookup_expiryIndex, all_lt_deadline,
    keyed_at, Cell.getDelString, Cell.live, lookup_data, removeExpiry_eq, removeData_eq,
    cell_setCell_self, setCell_setCell]
  by_cases h : (s.cell key).expired now <;> simp [h, Cell.empty]

theorem pushInner_eq (element : String) (createIfMissing : Bool)
    (pushFn : List String → String → List String) :
    Store.pushInner s now key element createIfMissing pushFn =
      keyed.at key (Cell.push now element createIfMissing pushFn) s := by
  simp only [Store.pushInner, getMut_eq_live, keyed_at, Cell.push, removeExpiry_eq, putData_eq,
    cell_setCell_self, setCell_setCell]
  rcases (s.cell key).live now with _ | _ | _ | _ <;> cases createIfMissing <;> simp

theorem apply_lpush (element : String) :
    (StoreOp.lpush key element).apply now draws s =
      keyed.at key (Cell.push now element true Store.pushFront) s :=
  pushInner_eq now s key element true _

theorem apply_rpush (element : String) :
    (StoreOp.rpush key element).apply now draws s =
      keyed.at key (Cell.push now element true Store.pushBack) s :=
  pushInner_eq now s key element true _

theorem apply_lpushx (element : String) :
    (StoreOp.lpushx key element).apply now draws s =
      keyed.at key (Cell.push now element false Store.pushFront) s :=
  pushInner_eq now s key element false _

theorem apply_rpushx (element : String) :
    (StoreOp.rpushx key element).apply now draws s =
      keyed.at key (Cell.push now element false Store.pushBack) s :=
  pushInner_eq now s key element false _

theorem popInner_eq (count : UInt64) (popFn : List String → Option (String × List String)) :
    Store.popInner s now key count popFn = keyed.at key (Cell.pop now count popFn) s := by
  simp only [Store.popInner, Store.popElements, Store.vecWithCapacity, getMut_eq_live, keyed_at,
    Cell.pop, removeData_eq, putData_eq]
  by_cases h : 24 * count.toNat > 2 ^ 63 - 1
  · simp only [if_pos h, setCell_cell]
  · simp only [if_neg h]
    rcases (s.cell key).live now with _ | _ | _ | _ <;> simp [Cell.shrinkList]
    split <;> rfl

theorem lset_eq (index : Int) (element : String) :
    Store.lset s now key index element = keyed.at key (Cell.lset now index element) s := by
  simp only [Store.lset, getMut_eq_live, keyed_at, Cell.lset, putData_eq]
  rcases (s.cell key).live now with _ | _ | l | _ <;> simp
  cases Store.calculateIndex index l.length with
  | error e => simp
  | ok i =>
      by_cases h : l.length ≤ i <;> simp [h]

theorem sadd_eq (members : List String) :
    Store.sadd s now key members = keyed.at key (Cell.sadd now members) s := by
  simp only [Store.sadd, getMut_eq_live, keyed_at, Cell.sadd, removeExpiry_eq, putData_eq,
    cell_setCell_self, setCell_setCell]
  rcases (s.cell key).live now with _ | _ | _ | _ <;> simp

theorem shrinkSet_eq (set : Finset String) :
    Store.shrinkSet s key set = s.setCell key ((s.cell key).shrinkSet set) := by
  simp only [Store.shrinkSet, Cell.shrinkSet, removeData_eq, removeExpiry_eq, putData_eq,
    cell_setCell_self, setCell_setCell]
  split <;> rfl

theorem spop_eq (count : Option UInt64) :
    Store.spop s now draws key count = keyed.at key (Cell.spop now draws count) s := by
  simp only [Store.spop, getMut_eq_live, keyed_at, Cell.spop, shrinkSet_eq]
  rcases (s.cell key).live now with _ | _ | _ | _ <;> simp

theorem srem_eq (members : List String) :
    Store.srem s now key members = keyed.at key (Cell.srem now members) s := by
  simp only [Store.srem, getMut_eq_live, keyed_at, Cell.srem, putData_eq]
  rcases (s.cell key).live now with _ | _ | _ | _ <;> simp

theorem mset_eq (items : List (String × String)) :
    Store.mset s items = items.foldl (fun s item => s.setCell item.1 (Cell.setString item.2)) s := by
  induction items generalizing s with
  | nil => rfl
  | cons item items ih =>
      rw [Store.mset, removeExpiry_eq, putData_eq, cell_setCell_self, setCell_setCell, ih]
      rfl

theorem deleteBulk_eq (keys : List String) :
    Store.deleteBulk s keys = keys.foldl (fun s k => s.setCell k Cell.empty) s := by
  induction keys generalizing s with
  | nil => rfl
  | cons k keys ih =>
      rw [Store.deleteBulk, removeExpiry_eq, removeData_eq, cell_setCell_self, setCell_setCell, ih]
      rfl

/-- SMOVE has something to move, and may move it. -/
def Moves (source destination member : String) (set : Finset String) : Prop :=
  (s.cell source).live now = some (.set set) ∧ member ∈ set ∧
    ∀ v, (s.cell destination).live now = some v → ∃ set', v = .set set'

theorem live_shrinkSet_eq_set {c : Cell} {set set' : Finset String} {v : StoreValue}
    (hc : c.live now = some (.set set)) (hv : (c.shrinkSet set').live now = some v) :
    v = .set set' := by
  unfold Cell.shrinkSet at hv
  split at hv
  · cases hv
  · rw [Cell.live_withValue (Cell.not_expired_of_live hc)] at hv
    exact (Option.some.inj hv).symm

/-- **SMOVE at one reading of the clock**, when it moves. -/
theorem smove_of_moves {source destination member : String} {set : Finset String}
    (h : Moves now s source destination member set) :
    Store.smove s now now now now source destination member =
      (some (.ok true),
        let s' := s.setCell source ((s.cell source).shrinkSet (set.erase member))
        s'.setCell destination ((s'.cell destination).addMember now member)) := by
  obtain ⟨hs, hm, hd⟩ := h
  have hd' : ∀ v, ((s.setCell source ((s.cell source).shrinkSet (set.erase member))).cell
      destination).live now = some v → ∃ set', v = .set set' := fun v hv => by
    by_cases he : destination = source
    · rw [he, cell_setCell_self] at hv
      exact ⟨_, live_shrinkSet_eq_set now hs hv⟩
    · rw [cell_setCell_ne s _ he] at hv
      exact hd v hv
  simp only [Store.smove, get_eq_live, getMut_eq_live, hs, shrinkSet_eq, removeExpiry_eq,
    putData_eq, cell_setCell_self, setCell_setCell, hm]
  generalize s.setCell source ((s.cell source).shrinkSet (set.erase member)) = s' at hd' ⊢
  have hcases : ∀ {o : Option StoreValue}, (∀ v, o = some v → ∃ set', v = .set set') →
      o = none ∨ ∃ set', o = some (.set set') := by
    rintro (_ | v) h
    · exact .inl rfl
    · obtain ⟨set', rfl⟩ := h v rfl
      exact .inr ⟨set', rfl⟩
  rcases hcases hd with h | ⟨_, h⟩ <;> rcases hcases hd' with h' | ⟨_, h'⟩ <;>
    simp [h, h', Cell.addMember]

/-- The reply of an SMOVE that does not move, from what is live at its two keys. -/
def smoveRefusal : Option StoreValue → Option StoreValue → Except StoreError Bool
  | none,          _                          => .ok false
  | some (.set _), some (.str _)
  | some (.set _), some (.list _)             => .error .wrongType
  | some (.set _), _                          => .ok false
  | some _,        _                          => .error .wrongType

/-- SMOVE, when it does not move. -/
theorem smove_of_not_moves {source destination member : String}
    (h : ∀ set, ¬Moves now s source destination member set) :
    Store.smove s now now now now source destination member =
      (some (smoveRefusal ((s.cell source).live now) ((s.cell destination).live now)), s) := by
  unfold Store.smove
  simp only [get_eq_live]
  cases hs : (s.cell source).live now with
  | none => rfl
  | some v =>
      cases v with
      | str _ | list _ => rfl
      | set set =>
          have hm : ∀ o, (s.cell destination).live now = o →
              (o = none ∨ ∃ set', o = some (.set set')) → member ∉ set := by
            rintro o ho hset hm
            refine h set ⟨hs, hm, fun v hv => ?_⟩
            rcases hset with rfl | ⟨set', rfl⟩
            · rw [ho] at hv; cases hv
            · exact ⟨set', (Option.some.inj (ho.symm.trans hv)).symm⟩
          cases hd : (s.cell destination).live now with
          | none => simp [hm _ hd (.inl rfl), smoveRefusal]
          | some v =>
              cases v with
              | str _ | list _ => rfl
              | set set' => simp [hm _ hd (.inr ⟨set', rfl⟩), smoveRefusal]

end Equations

end Thesaurus
