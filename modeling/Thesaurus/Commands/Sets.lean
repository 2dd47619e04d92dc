import Thesaurus.Cells.Frame
import Thesaurus.Cells.Replies
import Thesaurus.Support.Refinement

/-!
# Commands — sets

The set commands against finite sets: `sets_refine_finsets` says that a run of them is a run on
finite sets with the same replies, whatever the draws.  A stored set without members and an absent
key are the same finite set.
-/

namespace Thesaurus
open StoreInner Refinement

/-! ### The reference -/

/-- The keys of a command on sets; the other commands have none here. -/
def Command.setKeys : Command → List String
  | .sAdd key _ | .sRem key _ | .sPop key _ | .sRandMember key _ | .sCard key | .sMembers key
  | .sIsMember key _ | .sMIsMember key _ => [key]
  | .sMove source destination _ => [source, destination]
  | _ => []

/-- A finite set for each key. -/
abbrev Finsets : Type := String → Finset String

/-- The sets after `member` went from `source` to `destination`. -/
def Finsets.move (m : Finsets) (source destination member : String) : Finsets :=
  let taken : Finsets := Function.update m source ((m source).erase member)
  Function.update taken destination (insert member (taken destination))

/-- `members` are `n` distinct elements of `set`, or all of them. -/
structure Sampled (set : Finset String) (n : Nat) (members : List String) : Prop where
  nodup : members.Nodup
  subset : ∀ member ∈ members, member ∈ set
  length : members.length = min n set.card

/-- What a command replies on finite sets, and which sets it leaves. -/
def Finsets.Step (m : Finsets) : Command → RespValue → Finsets → Prop
  | .sAdd key members, r, m' =>
      r = .integer ((m' key).card - (m key).card) ∧
        m' = Function.update m key (m key ∪ members.toFinset)
  | .sRem key members, r, m' =>
      r = .integer ((m key).card - (m' key).card) ∧
        m' = Function.update m key (m key \ members.toFinset)
  | .sMove source destination member, r, m' =>
      if member ∈ m source then
        r = .integer 1 ∧ m' = m.move source destination member ∧
          m' source ∪ m' destination = m source ∪ m destination ∧ (source = destination → m' = m)
      else r = .integer 0 ∧ m' = m
  | .sPop key count, r, m' =>
      ∃ members, Sampled (m key) (count.getD 1).toNat members ∧
        r = (if count.isSome then bulkReply members else .bulkString members.getLast?) ∧
        m' = Function.update m key (m key \ members.toFinset)
  | .sRandMember key none, r, m' =>
      ∃ members, Sampled (m key) 1 members ∧ r = .bulkString members.getLast? ∧ m' = m
  | .sRandMember key (some count), r, m' =>
      ∃ members, r = bulkReply members ∧ m' = m ∧
        if count < 0 then
          (∀ member ∈ members, member ∈ m key) ∧
            members.length = if m key = ∅ then 0 else count.toInt.natAbs
        else Sampled (m key) count.toInt.natAbs members
  | .sCard key, r, m' => r = .integer (m key).card ∧ m' = m
  | .sMembers key, r, m' =>
      ∃ members, members.Nodup ∧ members.toFinset = m key ∧ r = bulkReply members ∧ m' = m
  | .sIsMember key member, r, m' => r = boolReply (member ∈ m key) ∧ m' = m
  | .sMIsMember key members, r, m' =>
      r = .array (some (members.map fun member => boolReply (member ∈ m key))) ∧ m' = m
  | _, _, _ => False

theorem Finsets.move_self {m : Finsets} {key member : String} (h : member ∈ m key) :
    m.move key key member = m := by
  rw [Finsets.move]
  simp only [Function.update_self, Function.update_idem, Finset.insert_erase h,
    Function.update_eq_self]

/-- SMOVE keeps the union of its two sets. -/
theorem Finsets.move_union {m : Finsets} {source destination member : String}
    (h : member ∈ m source) :
    m.move source destination member source ∪ m.move source destination member destination =
      m source ∪ m destination := by
  by_cases hd : source = destination
  · subst hd
    rw [move_self h]
  · rw [Finsets.move]
    simp only [Function.update_self, Function.update_of_ne hd, Function.update_of_ne (Ne.symm hd)]
    rw [Finset.union_insert, ← Finset.insert_union, Finset.insert_erase h]

/-! ### Draws -/

theorem foldl_erase (members : List String) (set : Finset String) :
    members.foldl (fun set member => set.erase member) set = set \ members.toFinset := by
  induction members generalizing set with
  | nil => simp
  | cons member members ih =>
      rw [List.foldl_cons, ih]
      ext a
      simp only [Finset.mem_sdiff, Finset.mem_erase, List.toFinset_cons, Finset.mem_insert]
      tauto

theorem Draws.sampled (draws : Draws) (set : Finset String) (n : Nat) :
    Sampled set n (draws.sample set n) where
  nodup := draws.sample_nodup set n
  subset := draws.sample_subset set n
  length := draws.length_sample set n

/-! ### Cells that hold a set -/

/-- The cell holds the set, without a deadline; an empty set need not be stored. -/
def Cell.IsSet (x : Cell) (set : Finset String) : Prop :=
  x = ⟨some (.set set), none⟩ ∨ x = Cell.empty ∧ set = ∅

namespace Cell.IsSet

variable {now : Instant} {x : Cell} {set : Finset String}

variable (now) in
theorem live (h : x.IsSet set) :
    x.live now = some (.set set) ∨ x.live now = none ∧ x = Cell.empty ∧ set = ∅ := by
  rcases h with rfl | ⟨rfl, rfl⟩
  · exact .inl rfl
  · exact .inr ⟨rfl, rfl, rfl⟩

theorem live_of_mem (h : x.IsSet set) {member : String} (hm : member ∈ set) :
    x.live now = some (.set set) := by
  rcases h with rfl | ⟨rfl, rfl⟩
  · rfl
  · exact absurd hm (Finset.notMem_empty _)

theorem withValue (h : x.IsSet set) (set' : Finset String) :
    Cell.IsSet { x with value := some (.set set') } set' := by
  rcases h with rfl | ⟨rfl, -⟩ <;> exact .inl rfl

theorem shrinkSet (h : x.IsSet set) (set' : Finset String) : (x.shrinkSet set').IsSet set' := by
  unfold Cell.shrinkSet
  split
  · next he => exact .inr ⟨rfl, he⟩
  · exact h.withValue set'

theorem addMember (h : x.IsSet set) (member : String) :
    (x.addMember now member).IsSet (insert member set) := by
  rcases h with rfl | ⟨rfl, rfl⟩ <;> exact .inl rfl

variable (now) in
theorem sadd (h : x.IsSet set) (members : List String) :
    ∃ y, x.sadd now members = (.ok ((set ∪ members.toFinset).card - set.card), y) ∧
      y.IsSet (set ∪ members.toFinset) := by
  rcases h.live now with hl | ⟨hl, -, rfl⟩
  · refine ⟨_, by rw [Cell.sadd, hl]; simp only [Cell.insertAll_eq], h.withValue _⟩
  · refine ⟨⟨some (.set members.toFinset), none⟩, ?_, .inl (by simp)⟩
    rw [Cell.sadd, hl]
    simp

variable (now) in
theorem srem (h : x.IsSet set) (members : List String) :
    ∃ y, x.srem now members = (.ok (set.card - (set \ members.toFinset).card), y) ∧
      y.IsSet (set \ members.toFinset) := by
  rcases h.live now with hl | ⟨hl, hx, rfl⟩
  · exact ⟨_, by rw [Cell.srem, hl]; simp only [Cell.removeAll_eq], h.withValue _⟩
  · exact ⟨x, by rw [Cell.srem, hl]; simp, .inr ⟨hx, by simp⟩⟩

variable (now) in
theorem spop (h : x.IsSet set) (draws : Draws) (count : Option UInt64) :
    ∃ members y, Sampled set (count.getD 1).toNat members ∧
      (reply (fun r => some (replyOf (Executor.spopReply count.isSome) r))
          (x.spop now draws count) =
        (some (if count.isSome then bulkReply members else .bulkString members.getLast?), y)) ∧
      y.IsSet (set \ members.toFinset) := by
  rcases h.live now with hl | ⟨hl, hx, rfl⟩
  · refine ⟨_, _, draws.sampled set _, by rw [Cell.spop, hl]; rfl, ?_⟩
    have hy := h.shrinkSet (List.foldl (fun set member => set.erase member) set
      (draws.sample set (count.getD 1).toNat))
    exact foldl_erase (draws.sample set (count.getD 1).toNat) set ▸ hy
  · refine ⟨[], x, ⟨List.nodup_nil, by simp, by simp⟩, ?_, .inr ⟨hx, by simp⟩⟩
    rw [Cell.spop, hl]
    cases count <;> rfl

end Cell.IsSet

/-! ### One command -/

/-- The store holds the sets of `m` at the keys of `K`, and what `s` holds at the others. -/
def HoldsSets (K : Set String) (s t : StoreInner) (m : Finsets) : Prop :=
  (∀ key ∈ K, (t.cell key).IsSet (m key)) ∧ ∀ key ∉ K, t.cell key = s.cell key

variable {K : Set String} {s t : StoreInner} {m : Finsets} {now : Instant} {draws : Draws}

theorem HoldsSets.setCell (h : HoldsSets K s t m) {key : String} (hkey : key ∈ K) {y : Cell}
    {set : Finset String} (hy : y.IsSet set) :
    HoldsSets K s (t.setCell key y) (Function.update m key set) := by
  refine ⟨fun k hK => ?_, fun k hK => ?_⟩
  · by_cases hk : k = key
    · rw [hk, cell_setCell_self, Function.update_self]
      exact hy
    · rw [cell_setCell_ne _ _ hk, Function.update_of_ne hk]
      exact h.1 k hK
  · have hk : k ≠ key := fun hk => hK (hk ▸ hkey)
    rw [cell_setCell_ne _ _ hk, h.2 k hK]

theorem HoldsSets.move (h : HoldsSets K s t m) {source destination member : String}
    (hs : source ∈ K) (hd : destination ∈ K) :
    let t' := t.setCell source ((t.cell source).shrinkSet ((m source).erase member))
    HoldsSets K s
      (t'.setCell destination ((t'.cell destination).addMember now member))
      (m.move source destination member) := by
  intro t'
  have h' : HoldsSets K s t' (Function.update m source ((m source).erase member)) :=
    h.setCell hs ((h.1 source hs).shrinkSet _)
  exact h'.setCell hd ((h'.1 destination hd).addMember member)

/-! SMOVE, over two keys that hold sets. -/

section Move

variable {source destination member : String} {set set' : Finset String}

theorem Cell.IsSet.moves (h : (t.cell source).IsSet set) (h' : (t.cell destination).IsSet set')
    (hm : member ∈ set) : Moves now t source destination member set := by
  refine ⟨h.live_of_mem hm, hm, fun v hv => ?_⟩
  rcases h'.live now with hl | ⟨hl, -⟩
  · exact ⟨set', (Option.some.inj (hl.symm.trans hv)).symm⟩
  · rw [hl] at hv
    cases hv

theorem Cell.IsSet.smove_of_notMem (h : (t.cell source).IsSet set)
    (h' : (t.cell destination).IsSet set') (hm : member ∉ set) :
    Store.smove t now now now now source destination member = (some (.ok false), t) := by
  have hnot : ∀ set'', ¬Moves now t source destination member set'' := by
    rintro set'' ⟨hs, hm', -⟩
    rcases h.live now with hl | ⟨hl, -⟩
    · obtain rfl : set = set'' := StoreValue.set.inj (Option.some.inj (hl.symm.trans hs))
      exact hm hm'
    · rw [hl] at hs
      cases hs
  rw [smove_of_not_moves now t hnot]
  rcases h.live now with hl | ⟨hl, -⟩ <;>
    rcases h'.live now with hl' | ⟨hl', -⟩ <;> rw [hl, hl'] <;> rfl

end Move

/-! The reads of a set, over a key that holds one. -/

section Reads

variable (now draws) {key : String} {set : Finset String}

theorem smembers_isSet (h : (t.cell key).IsSet set) :
    ∃ members, Store.smembers t now draws key = .ok members ∧ members.Nodup ∧
      members.toFinset = set := by
  rw [Store.smembers, get_eq_live]
  rcases h.live now with hl | ⟨hl, -, rfl⟩
  · rw [hl]
    refine ⟨_, rfl, draws.iter_nodup set, ?_⟩
    ext a
    rw [List.mem_toFinset, draws.mem_iter]
  · rw [hl]
    exact ⟨[], rfl, List.nodup_nil, rfl⟩

theorem sismember_isSet (h : (t.cell key).IsSet set) (member : String) :
    Store.sismember t now draws key member = .ok (decide (member ∈ set)) := by
  obtain ⟨members, hms, -, rfl⟩ := smembers_isSet now draws h
  rw [Store.sismember, hms]
  simp [Except.map]

theorem smismember_isSet (h : (t.cell key).IsSet set) (members : List String) :
    Store.smismember t now key members =
      .ok (members.map fun member => decide (member ∈ set)) := by
  rw [Store.smismember, get_eq_live]
  rcases h.live now with hl | ⟨hl, -, rfl⟩
  · rw [hl]
  · rw [hl]
    simp

theorem scard_isSet (h : (t.cell key).IsSet set) : Store.scard t now key = .ok set.card := by
  rw [Store.scard, get_eq_live]
  rcases h.live now with hl | ⟨hl, -, rfl⟩ <;> rw [hl]
  rfl

theorem srandmember_sampled (h : (t.cell key).IsSet set) (count : Option Nat) :
    ∃ members, Store.srandmember t now draws key count false = some (.ok members) ∧
      Sampled set (count.getD 1) members := by
  rw [Store.srandmember, get_eq_live]
  rcases h.live now with hl | ⟨hl, -, rfl⟩
  · rw [hl]
    exact ⟨_, rfl, draws.sampled set _⟩
  · rw [hl]
    exact ⟨[], rfl, ⟨List.nodup_nil, by simp, by simp⟩⟩

theorem srandmember_repeated (h : (t.cell key).IsSet set) (amount : Nat)
    (hret : Store.srandmember t now draws key (some amount) true ≠ none) :
    ∃ members, Store.srandmember t now draws key (some amount) true = some (.ok members) ∧
      (∀ member ∈ members, member ∈ set) ∧
      members.length = if set = ∅ then 0 else amount := by
  rw [Store.srandmember, get_eq_live] at hret ⊢
  rcases h.live now with hl | ⟨hl, -, rfl⟩ <;> rw [hl] at hret ⊢
  · simp only [if_true, Option.getD_some] at hret ⊢
    split at hret
    · next he => exact ⟨[], by rw [if_pos he], by simp, by rw [if_pos he]; rfl⟩
    · next he =>
      split at hret
      · exact absurd rfl hret
      · next hcap =>
        rw [if_neg he, if_neg hcap, if_neg he]
        refine ⟨_, rfl, ?_, by simp⟩
        intro member hm
        obtain ⟨i, -, rfl⟩ := List.mem_map.mp hm
        have hpos : 0 < (draws.iter set).length := by
          obtain ⟨a, ha⟩ := Finset.nonempty_of_ne_empty he
          exact List.length_pos_of_mem ((draws.mem_iter set a).mpr ha)
        have hi := draws.range_lt i _ hpos
        rw [List.getD_eq_getElem?_getD, List.getElem?_eq_getElem hi, Option.getD_some]
        exact (draws.mem_iter set _).mp (List.getElem_mem hi)
  · exact ⟨[], rfl, by simp, by simp⟩

end Reads

variable (ex : Executor) (env : Env)

/-- **One command** on keys that hold finite sets is a step of the reference. -/
theorem exec_holdsSets {c : Command} (hset : c.setKeys ≠ []) (hkeys : ∀ key ∈ c.setKeys, key ∈ K)
    (h : HoldsSets K s t m) (hret : (ex.exec env c t).1 ≠ none) :
    ∃ m', (∃ r, (ex.exec env c t).1 = some r ∧ m.Step c r m') ∧
      HoldsSets K s (ex.exec env c t).2 m' := by
  cases c with
  | sAdd key members =>
      have hK : key ∈ K := hkeys key (List.mem_singleton_self key)
      obtain ⟨y, heq, hy⟩ := (h.1 key hK).sadd env.clock.mono members
      rw [exec_eq_at ex env t rfl, keyed_at]
      simp only [heq]
      refine ⟨_, ⟨_, rfl, ?_, rfl⟩, h.setCell hK hy⟩
      rw [Function.update_self]
      exact congrArg RespValue.integer
        (Nat.cast_sub (Finset.card_le_card Finset.subset_union_left))
  | sRem key members =>
      have hK : key ∈ K := hkeys key (List.mem_singleton_self key)
      obtain ⟨y, heq, hy⟩ := (h.1 key hK).srem env.clock.mono members
      rw [exec_eq_at ex env t rfl, keyed_at]
      simp only [heq]
      refine ⟨_, ⟨_, rfl, ?_, rfl⟩, h.setCell hK hy⟩
      rw [Function.update_self]
      exact congrArg RespValue.integer (Nat.cast_sub (Finset.card_le_card Finset.sdiff_subset))
  | sPop key count =>
      have hK : key ∈ K := hkeys key (List.mem_singleton_self key)
      obtain ⟨members, y, hsampled, heq, hy⟩ :=
        (h.1 key hK).spop env.clock.mono env.draws count
      rw [exec_eq_at ex env t rfl, keyed_at]
      simp only [heq]
      exact ⟨_, ⟨_, rfl, members, hsampled, rfl, rfl⟩, h.setCell hK hy⟩
  | sMove source destination member =>
      have hs : source ∈ K := hkeys source (List.mem_cons_self ..)
      have hd : destination ∈ K :=
        hkeys destination (List.mem_cons_of_mem _ (List.mem_cons_self ..))
      rw [exec_sMove]
      by_cases hm : member ∈ m source
      · rw [smove_of_moves env.clock.mono t ((h.1 source hs).moves (h.1 destination hd) hm)]
        refine ⟨_, ⟨_, rfl, ?_⟩, h.move hs hd⟩
        -- to its own key, the member stays where it is
        rw [Finsets.Step, if_pos hm]
        exact ⟨rfl, rfl, Finsets.move_union hm, fun he => he ▸ Finsets.move_self hm⟩
      · rw [(h.1 source hs).smove_of_notMem (h.1 destination hd) hm]
        refine ⟨m, ⟨_, rfl, ?_⟩, h⟩
        rw [Finsets.Step, if_neg hm]
        exact ⟨rfl, rfl⟩
  | sRandMember key count =>
      -- the reply is a sample of the members, or, of a negative count, so many draws from them
      have hx := h.1 key (hkeys key (List.mem_singleton_self key))
      have heq : ex.exec env (.sRandMember key count) t =
        (Option.map (replyOf (Executor.membersReply count.isSome))
          (Store.srandmember t env.clock.mono env.draws key (count.map fun c => c.toInt.natAbs)
            (count.any fun c => c < 0)), t) := rfl
      rw [heq] at hret ⊢
      cases count with
      | none =>
          obtain ⟨members, hms, hsampled⟩ :=
            srandmember_sampled env.clock.mono env.draws hx none
          simp only [Option.map_none, Option.any_none, hms]
          exact ⟨m, ⟨_, rfl, members, hsampled, rfl, rfl⟩, h⟩
      | some count =>
          simp only [Option.map_some, Option.any_some] at hret ⊢
          by_cases hneg : count < 0
          · rw [decide_eq_true hneg] at hret ⊢
            obtain ⟨members, hms, hmem, hlen⟩ := srandmember_repeated env.clock.mono env.draws hx
              count.toInt.natAbs
              fun hnone => hret (congrArg (Option.map _) hnone)
            rw [hms]
            refine ⟨m, ⟨_, rfl, members, rfl, rfl, ?_⟩, h⟩
            rw [if_pos hneg]
            exact ⟨hmem, hlen⟩
          · rw [decide_eq_false hneg]
            obtain ⟨members, hms, hsampled⟩ :=
              srandmember_sampled env.clock.mono env.draws hx (some count.toInt.natAbs)
            rw [hms]
            refine ⟨m, ⟨_, rfl, members, rfl, rfl, ?_⟩, h⟩
            rw [if_neg hneg]
            exact hsampled
  | sCard key =>
      have hcard := scard_isSet env.clock.mono (h.1 key (hkeys key (List.mem_singleton_self key)))
      have heq : ex.exec env (.sCard key) t =
        (some (replyOf (fun n => .integer (Int.ofNat n)) (Store.scard t env.clock.mono key)), t) :=
          rfl
      rw [heq, hcard]
      exact ⟨m, ⟨_, rfl, rfl, rfl⟩, h⟩
  | sMembers key =>
      obtain ⟨members, hms, hnodup, hset⟩ := smembers_isSet env.clock.mono env.draws
        (h.1 key (hkeys key (List.mem_singleton_self key)))
      have heq : ex.exec env (.sMembers key) t =
        (some (replyOf bulkReply (Store.smembers t env.clock.mono env.draws key)), t) := rfl
      rw [heq, hms]
      exact ⟨m, ⟨_, rfl, members, hnodup, hset, rfl, rfl⟩, h⟩
  | sIsMember key member =>
      have hmem := sismember_isSet env.clock.mono env.draws
        (h.1 key (hkeys key (List.mem_singleton_self key))) member
      have heq : ex.exec env (.sIsMember key member) t =
        (some (replyOf boolReply (Store.sismember t env.clock.mono env.draws key member)), t) := rfl
      rw [heq, hmem]
      exact ⟨m, ⟨_, rfl, rfl, rfl⟩, h⟩
  | sMIsMember key members =>
      have hmems := smismember_isSet env.clock.mono
        (h.1 key (hkeys key (List.mem_singleton_self key))) members
      have heq : ex.exec env (.sMIsMember key members) t =
        (some (replyOf (fun flags => .array (some (flags.map boolReply)))
          (Store.smismember t env.clock.mono key members)), t) := rfl
      rw [heq, hmems]
      refine ⟨m, ⟨_, rfl, ?_, rfl⟩, h⟩
      simp [replyOf]
  | _ => exact absurd rfl hset

/-! ### Runs -/

/-- Execute the commands one after the other, each at its own environment. -/
def Executor.serveAll (run : List (Env × Command)) (s : StoreInner) : List Reply × StoreInner :=
  serve (fun call => ex.exec call.1 call.2) run s

variable (s)

/-- **Sets are finite sets.**  A run of set commands on keys that start absent, each of which
returns, is a run on finite sets with the same replies, whatever was drawn.  It leaves these sets,
and every other key as it is. -/
theorem sets_refine_finsets (run : List (Env × Command))
    (hrun : ∀ call ∈ run, call.2.setKeys ≠ [] ∧ ∀ key ∈ call.2.setKeys, s.cell key = Cell.empty)
    (hret : ∀ r ∈ (ex.serveAll run s).1, r ≠ none) :
    ∃ m' : Finsets,
      Trace (fun m c reply m' => ∃ r, reply = some r ∧ Finsets.Step m c r m') (fun _ => ∅)
        (run.map Prod.snd) (ex.serveAll run s).1 m' ∧
      (∀ call ∈ run, ∀ key ∈ call.2.setKeys, ((ex.serveAll run s).2.cell key).IsSet (m' key)) ∧
      ∀ key, (∀ call ∈ run, key ∉ call.2.setKeys) →
        (ex.serveAll run s).2.cell key = s.cell key := by
  let K : Set String := { key | ∃ call ∈ run, key ∈ call.2.setKeys }
  have hstart : HoldsSets K s s fun _ => ∅ := by
    refine ⟨?_, fun _ _ => rfl⟩
    rintro key ⟨call, hcall, hkey⟩
    exact .inr ⟨(hrun call hcall).2 key hkey, rfl⟩
  have hok : ∀ call ∈ run, call.2.setKeys ≠ [] ∧ ∀ key ∈ call.2.setKeys, key ∈ K :=
    fun call hcall => ⟨(hrun call hcall).1, fun key hkey => ⟨call, hcall, hkey⟩⟩
  obtain ⟨m', htrace, hend⟩ := Trace.of_sim
    (fun m c reply m' => ∃ r, reply = some r ∧ Finsets.Step m c r m') (HoldsSets K s) Prod.snd
    (fun call _ _ hc h hgood => exec_holdsSets ex call.1 hc.1 hc.2 h hgood) hok hstart hret
  exact ⟨m', htrace, fun call hcall key hkey => hend.1 key ⟨call, hcall, hkey⟩,
    fun key hkey => hend.2 key fun ⟨call, hcall, hk⟩ => hkey call hcall hk⟩

/-- `SADD k a a` and `SPOP k` on an empty store. -/
theorem sets_refine_finsets_new : ∃ m' : Finsets,
    Trace (fun m c reply m' => ∃ r, reply = some r ∧ Finsets.Step m c r m') (fun _ => ∅)
      [.sAdd "k" ["a", "a"], .sPop "k" none]
      (Executor.plain.serveAll [(.at 0 0, .sAdd "k" ["a", "a"]), (.at 0 0, .sPop "k" none)]
        Store.new).1 m' := by
  have hsome : ∀ r ∈ (Executor.plain.serveAll [(.at 0 0, .sAdd "k" ["a", "a"]),
      (.at 0 0, .sPop "k" none)] Store.new).1, r.isSome := by decide +kernel
  obtain ⟨m', htrace, -⟩ := sets_refine_finsets Store.new .plain
    [(.at 0 0, .sAdd "k" ["a", "a"]), (.at 0 0, .sPop "k" none)]
    (by simp [Command.setKeys])
    fun r hr => Option.isSome_iff_ne_none.mp (hsome r hr)
  exact ⟨m', htrace⟩

end Thesaurus
