import Mathlib.Data.Finset.Basic
import Mathlib.Data.Finset.Card
import Mathlib.Data.Finset.Sort
import Mathlib.Data.String.Basic
import Thesaurus.Support.Maps
import Thesaurus.Model.Clock
import Thesaurus.Model.Pattern

/-!
# Model — Store

`store/`: the two maps behind the lock and the operations on them.  Every public method of
`Store` takes the lock once, so it is a function of the maps; a method that reads
`Instant::now()` takes the reading as `now`.

A `HashSet` is a `Finset` and a `HashMap` a finite map.  Neither has an order, and `rand` draws
from them: what a call takes from the iteration order and from the generator comes from its
`Draws`.
-/

namespace Thesaurus
open Maps

/-- The errors of a store operation. -/
inductive StoreError where
  | wrongType
  | outOfIndex
  | noSuchKey
  deriving DecidableEq, Repr

/-- The value stored under a key. -/
inductive StoreValue where
  | str (s : String)
  | list (l : List String)
  | set (s : Finset String)
  deriving DecidableEq

/-- What one execution takes from the order of a hash table and from `rand`. -/
structure Draws where
  /-- The order in which a hash table of these keys is iterated. -/
  iter : Finset String → List String
  /-- `IteratorRandom::sample`. -/
  sample : Finset String → Nat → List String
  /-- The `i`-th draw of `random_range(0..n)`. -/
  range : Nat → Nat → Nat
  iter_nodup : ∀ s, (iter s).Nodup
  mem_iter : ∀ s a, a ∈ iter s ↔ a ∈ s
  sample_nodup : ∀ s n, (sample s n).Nodup
  sample_subset : ∀ s n a, a ∈ sample s n → a ∈ s
  length_sample : ∀ s n, (sample s n).length = min n s.card
  range_lt : ∀ i n, 0 < n → range i n < n

/-- The draws that follow the order of the strings. -/
def Draws.sorted : Draws where
  iter s := s.sort
  sample s n := s.sort.take n
  range _ _ := 0
  iter_nodup s := s.sort_nodup (· ≤ ·)
  mem_iter s _ := s.mem_sort (· ≤ ·)
  sample_nodup s _ := (s.sort_nodup (· ≤ ·)).sublist (List.take_sublist _ _)
  sample_subset s _ _ h := (s.mem_sort (· ≤ ·)).mp (List.mem_of_mem_take h)
  length_sample s _ := by rw [List.length_take, s.length_sort]
  range_lt _ _ h := h

/-- The maps of a store. -/
structure StoreInner where
  data : Map String StoreValue
  expiryIndex : Map String Instant
  deriving DecidableEq

namespace StoreInner

/-- `StoreInner::get`. -/
def get (s : StoreInner) (now : Instant) (key : String) : Option StoreValue :=
  if (s.expiryIndex.lookup key).any (fun v => v ≤ now) then none else s.data.lookup key

/-- `StoreInner::get_mut`: the value a caller may update in place. -/
def getMut (s : StoreInner) (now : Instant) (key : String) : Option StoreValue :=
  if (s.expiryIndex.lookup key).any (fun v => v ≤ now) then none else s.data.lookup key

/-- `data.insert`, also the in-place update of a value. -/
def putData (s : StoreInner) (key : String) (value : StoreValue) : StoreInner :=
  { s with data := s.data.insert key value }

/-- `data.remove`. -/
def removeData (s : StoreInner) (key : String) : StoreInner :=
  { s with data := s.data.erase key }

/-- `expiry_index.insert`. -/
def putExpiry (s : StoreInner) (key : String) (ttl : Instant) : StoreInner :=
  { s with expiryIndex := s.expiryIndex.insert key ttl }

/-- `expiry_index.remove`. -/
def removeExpiry (s : StoreInner) (key : String) : StoreInner :=
  { s with expiryIndex := s.expiryIndex.erase key }

end StoreInner

namespace Store

/-- `Store::new`. -/
def new : StoreInner := ⟨∅, ∅⟩

/-! ### Keys and deadlines -/

/-- `Store::get`. -/
def get (s : StoreInner) (now : Instant) (key : String) : Option StoreValue :=
  if (s.expiryIndex.lookup key).all (fun v => now < v) then s.data.lookup key else none

/-- `Store::set`. -/
def set (s : StoreInner) (key : String) (value : StoreValue) : StoreInner :=
  (s.removeExpiry key).putData key value

/-- `Store::delete`. -/
def delete (s : StoreInner) (key : String) : Bool × StoreInner :=
  ((s.data.lookup key).isSome, (s.removeExpiry key).removeData key)

/-- `Store::get_del`. -/
def getDel (s : StoreInner) (now : Instant) (key : String) : Option StoreValue × StoreInner :=
  if (s.expiryIndex.lookup key).all (fun v => now < v) then
    (s.data.lookup key, (s.removeExpiry key).removeData key)
  else (none, s)

/-- `Store::exists`. -/
def «exists» (s : StoreInner) (now : Instant) (key : String) : Bool :=
  (s.data.lookup key).isSome && (s.expiryIndex.lookup key).all (fun v => now < v)

/-- `Store::get_ttl`. -/
def getTtl (s : StoreInner) (key : String) : Option Instant := s.expiryIndex.lookup key

/-- `Store::set_ttl`. -/
def setTtl (s : StoreInner) (key : String) (ttl : Instant) : Bool × StoreInner :=
  if (s.data.lookup key).isSome then (true, s.putExpiry key ttl) else (false, s)

/-- `Store::persist`. -/
def persist (s : StoreInner) (key : String) : Bool × StoreInner :=
  ((s.expiryIndex.lookup key).isSome, s.removeExpiry key)

/-- `Store::sample_eviction_index`. -/
def sampleEvictionIndex (s : StoreInner) (draws : Draws) (n : Nat) : List (String × Instant) :=
  (draws.sample s.expiryIndex.keys n).filterMap fun k =>
    (s.expiryIndex.lookup k).map fun v => (k, v)

/-- `Store::delete_bulk`. -/
def deleteBulk (s : StoreInner) : List String → StoreInner
  | []          => s
  | key :: keys => deleteBulk ((s.removeExpiry key).removeData key) keys

/-- `Store::keys`. -/
def keys (s : StoreInner) (now : Instant) (draws : Draws) (pattern : Bytes) : List String :=
  let allKeys := pattern == [42]
  (draws.iter s.data.keys).filter fun key =>
    (allKeys || Pattern.stringMatch key pattern) &&
      (s.expiryIndex.lookup key).all (fun v => now < v)

/-- `Store::size`. -/
def size (s : StoreInner) : Nat := s.data.keys.card

/-- `Store::clear`. -/
def clear (_ : StoreInner) : StoreInner := ⟨∅, ∅⟩

/-- `Store::clear_async`: the old maps are dropped later, by another task. -/
def clearAsync (_ : StoreInner) : StoreInner := ⟨∅, ∅⟩

/-! ### Strings -/

/-- The match of `get_string` and `get_del_string` on the value found. -/
def asString : Option StoreValue → Except StoreError (Option String)
  | some (.str s) => .ok (some s)
  | some _        => .error .wrongType
  | none          => .ok none

/-- `Store::get_string`. -/
def getString (s : StoreInner) (now : Instant) (key : String) :
    Except StoreError (Option String) :=
  asString (get s now key)

/-- `Store::set_string`. -/
def setString (s : StoreInner) (key value : String) : StoreInner := set s key (.str value)

/-- `Store::get_del_string`. -/
def getDelString (s : StoreInner) (now : Instant) (key : String) :
    Except StoreError (Option String) × StoreInner :=
  (asString (getDel s now key).1, (getDel s now key).2)

/-- `Store::mget`. -/
def mget (s : StoreInner) (now : Instant) (keys : List String) : List (Option String) :=
  keys.map fun key =>
    match s.get now key with
    | some (.str s) => some s
    | _             => none

/-- `Store::mset`. -/
def mset (s : StoreInner) : List (String × String) → StoreInner
  | []                    => s
  | (key, value) :: items => mset ((s.removeExpiry key).putData key (.str value)) items

/-! ### Lists -/

/-- `Store::push_inner`. -/
def pushInner (s : StoreInner) (now : Instant) (key element : String) (createIfMissing : Bool)
    (pushFn : List String → String → List String) : Except StoreError Nat × StoreInner :=
  match s.getMut now key with
  | none =>
      if createIfMissing then (.ok 1, (s.removeExpiry key).putData key (.list [element]))
      else (.ok 0, s)
  | some (.list l) =>
      (.ok (pushFn l element).length, s.putData key (.list (pushFn l element)))
  | some _ => (.error .wrongType, s)

/-- `VecDeque::push_front`. -/
def pushFront (l : List String) (element : String) : List String := element :: l

/-- `VecDeque::push_back`. -/
def pushBack (l : List String) (element : String) : List String := l ++ [element]

/-- `Store::lpush`. -/
def lpush (s : StoreInner) (now : Instant) (key element : String) :=
  pushInner s now key element true pushFront

/-- `Store::rpush`. -/
def rpush (s : StoreInner) (now : Instant) (key element : String) :=
  pushInner s now key element true pushBack

/-- `Store::lpushx`. -/
def lpushx (s : StoreInner) (now : Instant) (key element : String) :=
  pushInner s now key element false pushFront

/-- `Store::rpushx`. -/
def rpushx (s : StoreInner) (now : Instant) (key element : String) :=
  pushInner s now key element false pushBack

/-- `VecDeque::pop_front`. -/
def popFront : List String → Option (String × List String)
  | []     => none
  | x :: l => some (x, l)

/-- `VecDeque::pop_back`. -/
def popBack (l : List String) : Option (String × List String) :=
  l.getLast?.map fun x => (x, l.dropLast)

/-- The loop of `pop_inner`: up to `count` elements, and the list that is left. -/
def popLoop (popFn : List String → Option (String × List String)) :
    Nat → List String → List String × List String
  | 0,         l => ([], l)
  | count + 1, l =>
      match popFn l with
      | some (x, l) => (x :: (popLoop popFn count l).1, (popLoop popFn count l).2)
      | none        => ([], l)

/-- `Vec::<String>::with_capacity`: the bytes allocated for the strings, 24 each.  It panics when
they exceed `isize::MAX`. -/
def vecWithCapacity (capacity : Nat) : Option Nat :=
  if 24 * capacity > 2 ^ 63 - 1 then none else some (24 * capacity)

/-- `elements` of `pop_inner` at its start: the bytes allocated for it. -/
def popElements (count : UInt64) : Option Nat := vecWithCapacity count.toNat

/-- `Store::pop_inner`.  The vector is made first, whatever the key holds; when that panics the lock
is not taken. -/
def popInner (s : StoreInner) (now : Instant) (key : String) (count : UInt64)
    (popFn : List String → Option (String × List String)) :
    Option (Except StoreError (Option (List String))) × StoreInner :=
  match popElements count with
  | none   => (none, s)
  | some _ =>
      match s.getMut now key with
      | some (.list l) =>
          let (elements, l) := popLoop popFn count.toNat l
          (some (.ok (some elements)),
            if l.isEmpty then s.removeData key else s.putData key (.list l))
      | some _ => (some (.error .wrongType), s)
      | none   => (some (.ok none), s)

/-- `Store::lpop`. -/
def lpop (s : StoreInner) (now : Instant) (key : String) (count : UInt64) :=
  popInner s now key count popFront

/-- `Store::rpop`. -/
def rpop (s : StoreInner) (now : Instant) (key : String) (count : UInt64) :=
  popInner s now key count popBack

/-- `calculate_index`. -/
def calculateIndex (index : Int) (listLen : Nat) : Except StoreError Nat :=
  if index < 0 then
    if index.natAbs > listLen then .error .outOfIndex else .ok (listLen - index.natAbs)
  else .ok index.toNat

/-- `VecDeque::swap_remove_back`: the last element takes the place of the one removed. -/
def swapRemoveBack (l : List String) (i : Nat) : List String :=
  match l.getLast? with
  | some last => if i < l.length then (l.set i last).dropLast else l
  | none      => l

/-- `Store::lset`. -/
def lset (s : StoreInner) (now : Instant) (key : String) (index : Int) (element : String) :
    Except StoreError Unit × StoreInner :=
  match s.getMut now key with
  | some (.list l) =>
      match calculateIndex index l.length with
      | .error e => (.error e, s)
      | .ok i    =>
          if i ≥ l.length then (.error .outOfIndex, s)
          else (.ok (), s.putData key (.list (swapRemoveBack (pushBack l element) i)))
  | some _ => (.error .wrongType, s)
  | none   => (.error .noSuchKey, s)

/-- `Store::llen`. -/
def llen (s : StoreInner) (now : Instant) (key : String) : Except StoreError Nat :=
  match s.get now key with
  | none           => .ok 0
  | some (.list l) => .ok l.length
  | some _         => .error .wrongType

/-- `Store::lindex`. -/
def lindex (s : StoreInner) (now : Instant) (key : String) (index : Int) :
    Except StoreError (Option String) :=
  match s.get now key with
  | some (.list l) =>
      match calculateIndex index l.length with
      | .ok i    => .ok l[i]?
      | .error _ => .ok none
  | some _ => .error .wrongType
  | none   => .ok none

/-- `Store::lrange`. -/
def lrange (s : StoreInner) (now : Instant) (key : String) (start stop : Int) :
    Except StoreError (List String) :=
  match s.get now key with
  | some (.list l) =>
      let len : Int := l.length
      if len = 0 then .ok []
      else
        let start := if start < 0 then max (start + len) 0 else start
        let stop := if stop < 0 then stop + len else stop
        if start > stop ∨ start ≥ len then .ok []
        else
          let stop := min stop (len - 1)
          .ok ((l.drop start.toNat).take (stop.toNat + 1 - start.toNat))
  | some _ => .error .wrongType
  | none   => .ok []

/-! ### Sets -/

/-- `members.into_iter().filter(|m| s.insert(m)).count()`: how many members were new, and the
set with all of them. -/
def insertAll : List String → Finset String → Nat × Finset String
  | [],           s => (0, s)
  | m :: members, s =>
      if m ∈ s then insertAll members s
      else ((insertAll members (insert m s)).1 + 1, (insertAll members (insert m s)).2)

/-- `Store::sadd`. -/
def sadd (s : StoreInner) (now : Instant) (key : String) (members : List String) :
    Except StoreError Nat × StoreInner :=
  match s.getMut now key with
  | none =>
      let set := members.toFinset
      (.ok set.card, (s.removeExpiry key).putData key (.set set))
  | some (.set set) =>
      (.ok (insertAll members set).1, s.putData key (.set (insertAll members set).2))
  | some _ => (.error .wrongType, s)

/-- `Store::smembers`. -/
def smembers (s : StoreInner) (now : Instant) (draws : Draws) (key : String) :
    Except StoreError (List String) :=
  match s.get now key with
  | none            => .ok []
  | some (.set set) => .ok (draws.iter set)
  | some _          => .error .wrongType

/-- `Store::sismember`. -/
def sismember (s : StoreInner) (now : Instant) (draws : Draws) (key member : String) :
    Except StoreError Bool :=
  (smembers s now draws key).map fun members => members.contains member

/-- `Store::smismember`. -/
def smismember (s : StoreInner) (now : Instant) (key : String) (members : List String) :
    Except StoreError (List Bool) :=
  match s.get now key with
  | none            => .ok (members.map fun _ => false)
  | some (.set set) => .ok (members.map fun member => decide (member ∈ set))
  | some _          => .error .wrongType

/-- `Store::srandmember`.  Collecting `amount` strings panics as `Vec::with_capacity` does. -/
def srandmember (s : StoreInner) (now : Instant) (draws : Draws) (key : String)
    (count : Option Nat) (allowRepetition : Bool) : Option (Except StoreError (List String)) :=
  match s.get now key with
  | none            => some (.ok [])
  | some (.set set) =>
      let amount := count.getD 1
      if allowRepetition then
        if set = ∅ then some (.ok [])
        else if 24 * amount > 2 ^ 63 - 1 then none
        else
          let members := draws.iter set
          some (.ok ((List.range amount).map fun i =>
            members.getD (draws.range i members.length) ""))
      else some (.ok (draws.sample set amount))
  | some _ => some (.error .wrongType)

/-- `Store::scard`. -/
def scard (s : StoreInner) (now : Instant) (key : String) : Except StoreError Nat :=
  match s.get now key with
  | none            => .ok 0
  | some (.set set) => .ok set.card
  | some _          => .error .wrongType

/-- Update the set at `key` in place, and remove the key with its deadline when the set becomes
empty, as `smove` and `spop` do. -/
def shrinkSet (s : StoreInner) (key : String) (set : Finset String) : StoreInner :=
  if set = ∅ then (s.removeData key).removeExpiry key else s.putData key (.set set)

/-- `Store::smove`, with the reading of the clock at each of its four lookups.  The two
`unreachable!` arms panic. -/
def smove (s : StoreInner) (t₁ t₂ t₃ t₄ : Instant) (source destination member : String) :
    Option (Except StoreError Bool) × StoreInner :=
  match s.get t₁ source with
  | none            => (some (.ok false), s)
  | some (.set set) =>
      match s.get t₂ destination with
      | some (.str _) | some (.list _) => (some (.error .wrongType), s)
      | none | some (.set _) =>
          if member ∉ set then (some (.ok false), s)
          else
            match s.getMut t₃ source with
            | some (.set set) =>
                let s := shrinkSet s source (set.erase member)
                match s.getMut t₄ destination with
                | none =>
                    (some (.ok true),
                      (s.removeExpiry destination).putData destination (.set {member}))
                | some (.set set) =>
                    (some (.ok true), s.putData destination (.set (insert member set)))
                | some _ => (none, s)
            | _ => (none, s)
  | some _ => (some (.error .wrongType), s)

/-- `Store::spop`. -/
def spop (s : StoreInner) (now : Instant) (draws : Draws) (key : String)
    (count : Option UInt64) : Except StoreError (Option (List String)) × StoreInner :=
  match s.getMut now key with
  | some (.set set) =>
      let amount := (count.getD 1).toNat
      let popped := draws.sample set amount
      (.ok (some popped), shrinkSet s key (popped.foldl (fun set member => set.erase member) set))
  | some _ => (.error .wrongType, s)
  | none   => (.ok none, s)

/-- The loop of `srem`: how many members were present, and the set without any of them. -/
def removeAll : List String → Finset String → Nat × Finset String
  | [],           s => (0, s)
  | m :: members, s =>
      if m ∈ s then ((removeAll members (s.erase m)).1 + 1, (removeAll members (s.erase m)).2)
      else removeAll members s

/-- `Store::srem`. -/
def srem (s : StoreInner) (now : Instant) (key : String) (members : List String) :
    Except StoreError Nat × StoreInner :=
  match s.getMut now key with
  | some (.set set) =>
      (.ok (removeAll members set).1, s.putData key (.set (removeAll members set).2))
  | some _ => (.error .wrongType, s)
  | none   => (.ok 0, s)

end Store

end Thesaurus
