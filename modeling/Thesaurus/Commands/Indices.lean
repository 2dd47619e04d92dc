import Thesaurus.Log.WriteSet
import Thesaurus.Support.Sequence

/-!
# Commands — list indices

LINDEX, LSET and LRANGE turn an index of the client into a position three times over: LINDEX and
LSET by `calculate_index`, LRANGE in its own arithmetic, and LSET then removes by swapping.

* `rangeChecked_eq`, `calculateIndexChecked_eq`: no step of the arithmetic overflows.
* `list_indices`: the three agree, for every list and every index of an `i64`.
-/

namespace Thesaurus
open StoreInner

open Sequence

/-! ### The arithmetic of the machine -/

/-- A sum in an `i64`; nothing when it overflows. -/
def checkedI64 (n : Int) : Option Int := if -2 ^ 63 ≤ n ∧ n < 2 ^ 63 then some n else none

/-- A value of a `usize`; nothing when it has none. -/
def checkedUsize (n : Int) : Option Nat := if 0 ≤ n ∧ n < 2 ^ 64 then some n.toNat else none

/-- `VecDeque::range` with inclusive bounds: it panics when they are out of order or beyond the
end. -/
def checkedRange (l : List String) (first last : Nat) : Option (List String) :=
  if first ≤ last + 1 ∧ last + 1 ≤ l.length then
    some ((l.drop first).take (last + 1 - first))
  else none

/-- `calculate_index`, every step in its own type. -/
def calculateIndexChecked (index : Int64) (listLen : Nat) : Option (Except StoreError Nat) :=
  if index.toInt < 0 then do
    let abs ← checkedUsize (-index.toInt)
    if abs > listLen then return .error .outOfIndex
    else return .ok (← checkedUsize ((listLen : Int) - abs))
  else return .ok (← checkedUsize index.toInt)

/-- The lower bound of `lrange`. -/
def startChecked (len start : Int) : Option Int :=
  if start < 0 then (checkedI64 (start + len)).map fun n => max n 0 else some start

/-- The upper bound of `lrange`. -/
def stopChecked (len stop : Int) : Option Int :=
  if stop < 0 then checkedI64 (stop + len) else some stop

/-- The arithmetic of `lrange`, every step in its own type. -/
def rangeChecked (l : List String) (start stop : Int64) : Option (List String) := do
  let len ← checkedI64 l.length
  if len = 0 then return []
  else
    let start ← startChecked len start.toInt
    let stop ← stopChecked len stop.toInt
    if start > stop ∨ start ≥ len then return []
    else
      let last ← checkedI64 (len - 1)
      checkedRange l (← checkedUsize start) (← checkedUsize (min stop last))

theorem checkedI64_of {n : Int} (h₁ : -2 ^ 63 ≤ n) (h₂ : n < 2 ^ 63) : checkedI64 n = some n :=
  if_pos ⟨h₁, h₂⟩

theorem checkedUsize_of {n : Int} (h₁ : 0 ≤ n) (h₂ : n < 2 ^ 64) : checkedUsize n = some n.toNat :=
  if_pos ⟨h₁, h₂⟩

/-- **No step of `calculate_index` overflows**, for a list of any length a `usize` has. -/
theorem calculateIndexChecked_eq (index : Int64) {listLen : Nat} (hlen : listLen < 2 ^ 64) :
    calculateIndexChecked index listLen = some (Store.calculateIndex index.toInt listLen) := by
  have hlo := Int64.le_toInt index
  have hhi := Int64.toInt_lt index
  unfold calculateIndexChecked Store.calculateIndex
  by_cases hneg : index.toInt < 0
  · rw [if_pos hneg, if_pos hneg, checkedUsize_of (by omega) (by omega),
      show (-index.toInt).toNat = index.toInt.natAbs by omega]
    by_cases habs : index.toInt.natAbs > listLen
    · rw [Option.bind_eq_bind, Option.bind_some, if_pos habs, if_pos habs]
      rfl
    · have hsub : checkedUsize ((listLen : Int) - index.toInt.natAbs) =
          some (listLen - index.toInt.natAbs) := by
        rw [checkedUsize_of (by omega) (by omega)]
        congr 1
        omega
      rw [Option.bind_eq_bind, Option.bind_some, if_neg habs, if_neg habs, hsub]
      rfl
  · rw [if_neg hneg, if_neg hneg, checkedUsize_of (by omega) (by omega)]
    rfl

/-- The lower bound of `lrange`, clamped to zero when it was negative. -/
theorem start_eq (len start : Int) :
    (if start < 0 then max (start + len) 0 else start) =
      max (if start < 0 then len + start else start) 0 := by
  split_ifs <;> omega

theorem stop_eq (len stop : Int) :
    (if stop < 0 then stop + len else stop) = if stop < 0 then len + stop else stop := by
  rw [Int.add_comm]

/-- **LRANGE takes the elements between its bounds.** -/
theorem lrange_eq {s : StoreInner} {now : Instant} {key : String} {l : List String}
    (hlive : s.get now key = some (.list l)) (start stop : Int) :
    Store.lrange s now key start stop =
      .ok (elementsBetween (boundOf l.length start) (boundOf l.length stop) l) := by
  rw [Store.lrange, hlive]
  dsimp only
  rw [start_eq, stop_eq]
  change _ = Except.ok (elementsBetween (if start < 0 then (l.length : Int) + start else start)
    (if stop < 0 then (l.length : Int) + stop else stop) l)
  generalize (if start < 0 then (l.length : Int) + start else start) = lo,
    (if stop < 0 then (l.length : Int) + stop else stop) = hi
  split_ifs with hlen hempty
  · have hnil : l = [] := List.length_eq_zero_iff.mp (Int.ofNat_inj.mp hlen)
    rw [elementsBetween_eq_nil (.inr (by rw [hnil]; exact Int.le_max_right _ _))]
  · rw [elementsBetween_eq_nil hempty]
  · obtain ⟨h₁, h₂⟩ := not_or.mp hempty
    rw [elementsBetween_clamp (Int.not_lt.mp h₁) (Int.not_le.mp h₂)]

/-- **No step of `lrange` overflows, and its range is one of the list.** -/
theorem rangeChecked_eq {l : List String} (hlen : l.length < 2 ^ 63) (start stop : Int64) :
    rangeChecked l start stop =
      some (elementsBetween (boundOf l.length start.toInt) (boundOf l.length stop.toInt) l) := by
  have hstart₁ := Int64.le_toInt start
  have hstart₂ := Int64.toInt_lt start
  have hstop₁ := Int64.le_toInt stop
  have hstop₂ := Int64.toInt_lt stop
  have hlo : startChecked l.length start.toInt = some (max (boundOf l.length start.toInt) 0) := by
    rw [startChecked, boundOf, ← start_eq]
    split_ifs with h
    · rw [checkedI64_of (by omega) (by omega), Option.map_some]
    · rfl
  have hhi : stopChecked l.length stop.toInt = some (boundOf l.length stop.toInt) := by
    rw [stopChecked, boundOf, ← stop_eq]
    split_ifs with h
    · rw [checkedI64_of (by omega) (by omega)]
    · rfl
  have hhi₂ : boundOf l.length stop.toInt < 2 ^ 63 := by
    unfold boundOf
    split_ifs <;> omega
  unfold rangeChecked
  simp only [checkedI64_of (n := l.length) (by omega) (by omega), Option.bind_eq_bind,
    Option.bind_some, hlo, hhi]
  generalize boundOf l.length start.toInt = lo, boundOf l.length stop.toInt = hi at hhi₂ ⊢
  by_cases hzero : (l.length : Int) = 0
  · rw [if_pos hzero, elementsBetween_eq_nil (.inr (by omega))]
    rfl
  rw [if_neg hzero]
  by_cases hempty : max lo 0 > hi ∨ max lo 0 ≥ l.length
  · rw [if_pos hempty, elementsBetween_eq_nil hempty]
    rfl
  · obtain ⟨h₁, h₂⟩ := not_or.mp hempty
    rw [if_neg hempty, checkedI64_of (by omega) (by omega), Option.bind_some,
      checkedUsize_of (by omega) (by omega), Option.bind_some,
      checkedUsize_of (by omega) (by omega), Option.bind_some, checkedRange, if_pos (by omega),
      elementsBetween_clamp (Int.not_lt.mp h₁) (Int.not_le.mp h₂)]

/-! ### LINDEX and LSET -/

/-- What `calculate_index` says about the position of an index. -/
theorem calculateIndex_cases (index : Int) (len : Nat) :
    (∃ p, positionOf len index = some p ∧ p < len ∧ Store.calculateIndex index len = .ok p) ∨
      (positionOf len index = none ∧
        (Store.calculateIndex index len = .error .outOfIndex ∨
          ∃ n, Store.calculateIndex index len = .ok n ∧ len ≤ n)) := by
  unfold positionOf boundOf Store.calculateIndex
  by_cases hneg : index < 0
  · simp only [if_pos hneg]
    by_cases habs : index.natAbs > len
    · exact .inr ⟨if_neg (by omega), .inl (if_pos habs)⟩
    · refine .inl ⟨len - index.natAbs, ?_, by omega, if_neg habs⟩
      rw [if_pos (by omega)]
      congr 1
      omega
  · simp only [if_neg hneg]
    by_cases hlt : index < len
    · exact .inl ⟨index.toNat, if_pos ⟨by omega, hlt⟩, by omega, rfl⟩
    · exact .inr ⟨if_neg fun h => hlt h.2, .inr ⟨index.toNat, rfl, by omega⟩⟩

theorem lindex_eq {s : StoreInner} {now : Instant} {key : String} {l : List String}
    (hlive : s.get now key = some (.list l)) (index : Int) :
    Store.lindex s now key index = .ok ((positionOf l.length index).bind fun p => l[p]?) := by
  rw [Store.lindex, hlive]
  dsimp only
  rcases calculateIndex_cases index l.length with
    ⟨p, hp, -, hc⟩ | ⟨hp, hc | ⟨n, hc, hn⟩⟩
  · rw [hc, hp]
    rfl
  · rw [hc, hp]
    rfl
  · rw [hc, hp, Option.bind_none]
    exact congrArg Except.ok (List.getElem?_eq_none hn)

/-- LSET replaces the element at the position of its index, if it has one. -/
theorem lset_cell_eq {x : Cell} {now : Instant} {l : List String}
    (hlive : x.live now = some (.list l)) (index : Int) (element : String) :
    x.lset now index element =
      match positionOf l.length index with
      | some p => (.ok (), { x with value := some (.list (l.set p element)) })
      | none   => (.error .outOfIndex, x) := by
  rw [Cell.lset, hlive]
  dsimp only
  rcases calculateIndex_cases index l.length with
    ⟨p, hp, hlt, hc⟩ | ⟨hp, hc | ⟨n, hc, hn⟩⟩
  · rw [hc, hp]
    dsimp only
    rw [if_neg (Nat.not_le.mpr hlt), swapRemoveBack_pushBack hlt]
  · rw [hc, hp]
  · rw [hc, hp]
    dsimp only
    rw [if_pos hn]

/-! ### The commands -/

/-- The index commands on a list, at all indices. -/
structure ListIndices (ex : Executor) (env : Env) (s : StoreInner) (key : String)
    (l : List String) : Prop where
  /-- No step overflows, for a list that memory can hold. -/
  safe : 24 * l.length ≤ 2 ^ 63 - 1 →
    (∀ index, calculateIndexChecked index l.length =
        some (Store.calculateIndex index.toInt l.length)) ∧
      ∀ start stop, (rangeChecked l start stop).map Except.ok =
        some (Store.lrange s env.clock.mono key start.toInt stop.toInt)
  lrange : ∀ start stop, (ex.exec env (.lRange key start stop) s).1 =
    some (bulkReply
      (elementsBetween (boundOf l.length start.toInt) (boundOf l.length stop.toInt) l))
  lrange_one : ∀ i x, (ex.exec env (.lRange key i i) s).1 = some (bulkReply [x]) ↔
    (ex.exec env (.lIndex key i) s).1 = some (.bulkString (some x))
  lrange_none : ∀ i, (ex.exec env (.lRange key i i) s).1 = some (bulkReply []) ↔
    (ex.exec env (.lIndex key i) s).1 = some (.bulkString none)
  lset_iff : ∀ i e, (ex.exec env (.lSet key i e) s).1 = some okReply ↔
    (ex.exec env (.lIndex key i) s).1 ≠ some (.bulkString none)
  /-- LSET replaces the element at the index, and nothing else. -/
  lset_replaces : ∀ i e, (ex.exec env (.lIndex key i) s).1 ≠ some (.bulkString none) →
    ∃ p < l.length, (p : Int) = boundOf l.length i.toInt ∧
      (ex.exec env (.lSet key i e) s).2.get env.clock.mono key = some (.list (l.set p e)) ∧
      (∀ k, k ≠ key → (ex.exec env (.lSet key i e) s).2.cell k = s.cell k) ∧
      (l.set p e).length = l.length ∧ (l.set p e)[p]? = some e ∧
      ∀ q, q ≠ p → (l.set p e)[q]? = l[q]?
  lset_refuses : ∀ i e, (ex.exec env (.lIndex key i) s).1 = some (.bulkString none) →
    ex.exec env (.lSet key i e) s = (some (errorReply .outOfIndex), s)

theorem bulkReply_injective : Function.Injective bulkReply := fun _ _ h =>
  List.map_injective_iff.mpr (fun _ _ he => Option.some.inj (RespValue.bulkString.inj he))
    (Option.some.inj (RespValue.array.inj h))

theorem toList_eq_singleton_iff {α : Type} {o : Option α} {x : α} :
    o.toList = [x] ↔ o = some x := by
  cases o <;> simp

theorem getElem?_positionOf {l : List String} {index : Int} {p : Nat}
    (h : positionOf l.length index = some p) :
    p < l.length ∧ (p : Int) = boundOf l.length index := by
  unfold positionOf at h
  split_ifs at h with hb
  cases h
  omega

/-- **All index paths agree.**  For every live list and all indices of an `i64`: nothing overflows,
LRANGE takes the elements between its bounds, LRANGE of one index is LINDEX, and LSET replaces the
element that LINDEX finds or refuses. -/
theorem list_indices (ex : Executor) (env : Env) (s : StoreInner) (key : String) (l : List String)
    (hlive : s.get env.clock.mono key = some (.list l)) : ListIndices ex env s key l := by
  have hcell : (s.cell key).live env.clock.mono = some (.list l) := hlive
  have hrange : ∀ start stop, (ex.exec env (.lRange key start stop) s).1 =
      some (bulkReply
        (elementsBetween (boundOf l.length start.toInt) (boundOf l.length stop.toInt) l)) := by
    intro start stop
    show some (replyOf bulkReply (Store.lrange s env.clock.mono key start.toInt stop.toInt)) = _
    rw [lrange_eq hlive]
    rfl
  have hindex : ∀ i, (ex.exec env (.lIndex key i) s).1 =
      some (.bulkString ((positionOf l.length i.toInt).bind fun p => l[p]?)) := by
    intro i
    show some (replyOf .bulkString (Store.lindex s env.clock.mono key i.toInt)) = _
    rw [lindex_eq hlive]
    rfl
  have hset : ∀ i e, ex.exec env (.lSet key i e) s =
      match positionOf l.length i.toInt with
      | some p => (some okReply,
          s.setCell key { s.cell key with value := some (.list (l.set p e)) })
      | none   => (some (errorReply .outOfIndex), s) := by
    intro i e
    have hexec : Cell.exec ex env (.lSet key i e) = some (key, _) := rfl
    rw [exec_eq_at ex env s hexec, keyed_at, lset_cell_eq hcell]
    cases positionOf l.length i.toInt with
    | some p => rfl
    | none => exact congrArg (Prod.mk _) (setCell_cell s key)
  -- nil from LINDEX: the index has no position
  have hnil : ∀ i, (ex.exec env (.lIndex key i) s).1 = some (.bulkString none) ↔
      positionOf l.length i.toInt = none := by
    intro i
    rw [hindex]
    cases hp : positionOf l.length i.toInt with
    | none => simp
    | some p =>
        have hlt := (getElem?_positionOf hp).1
        simp [hlt]
  refine ⟨fun hlen => ⟨fun i => calculateIndexChecked_eq i (by omega), fun start stop => ?_⟩,
    hrange, fun i x => ?_, fun i => ?_, fun i e => ?_, fun i e h => ?_, fun i e h => ?_⟩
  · rw [rangeChecked_eq (by omega), lrange_eq hlive, Option.map_some]
  · rw [hrange, hindex, elementsBetween_self, Option.some.injEq, bulkReply_injective.eq_iff,
      toList_eq_singleton_iff, Option.some.injEq, RespValue.bulkString.injEq]
  · rw [hrange, hindex, elementsBetween_self, Option.some.injEq, bulkReply_injective.eq_iff,
      Option.toList_eq_nil_iff, Option.some.injEq, RespValue.bulkString.injEq]
  · rw [Ne, hnil, hset]
    cases positionOf l.length i.toInt with
    | some p => simp
    | none => exact iff_of_false (fun h => nomatch h) fun h => h rfl
  · obtain ⟨p, hp⟩ := Option.ne_none_iff_exists'.mp fun hp => h ((hnil i).mpr hp)
    obtain ⟨hlt, hbound⟩ := getElem?_positionOf hp
    have hexec := hset i e
    rw [hp] at hexec
    refine ⟨p, hlt, hbound, ?_, fun k hk => ?_, List.length_set, List.getElem?_set_self hlt,
      fun q hq => List.getElem?_set_ne (Ne.symm hq)⟩
    · rw [hexec, get_eq_live, cell_setCell_self,
        Cell.live_withValue (Cell.not_expired_of_live hcell)]
    · rw [hexec, cell_setCell_ne s _ hk]
  · have hexec := hset i e
    rwa [(hnil i).mp h] at hexec

/-- A list of two elements. -/
theorem list_indices_two :
    ListIndices .plain (Env.at 0 0) (Store.new.putData "k" (.list ["a", "b"])) "k" ["a", "b"] :=
  list_indices .plain (Env.at 0 0) (Store.new.putData "k" (.list ["a", "b"])) "k" ["a", "b"] rfl

end Thesaurus
