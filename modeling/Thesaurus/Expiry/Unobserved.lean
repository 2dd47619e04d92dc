import Thesaurus.Cells.Frame
import Thesaurus.Cells.Replies

/-!
# Expiry — eviction is not observable

When the daemon deletes an expired key is not up to the clients, and the commands on values do not
tell: each has the same outcomes, which are its reply and the store it leaves without the expired
keys, before and after a `delete_bulk` of keys that have expired.

* `Evicted now s t`: `t` is `s` without some keys that have expired at `now`.
* `eviction_unobserved`: the outcomes are the same.
-/

namespace Thesaurus
open Bytes StoreInner
open Atomic (Prog)

/-! ### Without the expired keys -/

/-- The cell, or an empty one when its deadline has passed. -/
def Cell.unexpired (now : Instant) (x : Cell) : Cell := if x.expired now then empty else x

/-- The store without its expired keys, in both maps. -/
def StoreInner.dropExpired (now : Instant) (s : StoreInner) : StoreInner :=
  Store.deleteBulk s ((Draws.sorted.iter s.expiryIndex.keys).filter fun k => (s.cell k).expired now)

/-- `t` is `s` without some keys that have expired. -/
def Evicted (now : Instant) (s t : StoreInner) : Prop :=
  ∀ k, t.cell k = s.cell k ∨ ((s.cell k).expired now = true ∧ t.cell k = Cell.empty)

/-- The commands on values: all but those about deadlines, the number of keys or no key, DEL, and
SET with KEEPTTL. -/
def Command.onValues : Command → Bool
  | .get _ | .mGet _ | .mSet _ | .strLen _ | .digest _ | .getDel _ | .exists _ | .keys _
  | .lPush .. | .rPush .. | .lPushX .. | .rPushX .. | .lPop .. | .rPop .. | .lSet .. | .lLen _
  | .lIndex .. | .lRange .. | .sAdd .. | .sRem .. | .sMove .. | .sPop .. | .sCard _ | .sMembers _
  | .sIsMember .. | .sMIsMember .. | .sRandMember .. | .flushDb _ => true
  | .set _ _ _ (some .keepTtl) _ => false
  | .set .. => true
  | _ => false

/-- What a command can come to: its reply, and the store it leaves without the expired keys. -/
def Outcomes (ex : Executor) (c : Clock) (cmd : Command) (s : StoreInner) :
    Set (Reply × StoreInner) :=
  {o | ∃ draws, o = ((ex.exec ⟨c, draws⟩ cmd s).1, (ex.exec ⟨c, draws⟩ cmd s).2.dropExpired c.mono)}

variable {now : Instant} {s t : StoreInner}

theorem Cell.live_of_expired {x : Cell} (h : x.expired now = true) : x.live now = none := if_pos h

theorem Cell.unexpired_of_expired {x : Cell} (h : x.expired now = true) :
    x.unexpired now = empty := if_pos h

theorem Cell.unexpired_empty : empty.unexpired now = empty := rfl

theorem cell_dropExpired (now : Instant) (s : StoreInner) (k : String) :
    (s.dropExpired now).cell k = (s.cell k).unexpired now := by
  rw [dropExpired, cell_deleteBulk, Cell.unexpired]
  refine if_congr ?_ rfl rfl
  rw [List.mem_filter, Draws.mem_iter]
  refine ⟨fun h => h.2, fun h => ⟨?_, h⟩⟩
  obtain ⟨d, hd, -⟩ := Option.any_eq_true _ _ |>.mp h
  exact Finmap.mem_keys.mpr (Finmap.mem_iff.mpr ⟨d, hd⟩)

theorem dropExpired_congr (h : ∀ k, (s.cell k).unexpired now = (t.cell k).unexpired now) :
    s.dropExpired now = t.dropExpired now :=
  ext_cell fun k => by rw [cell_dropExpired, cell_dropExpired, h]

namespace Evicted

theorem deleteBulk {keys : List String} (h : ∀ k ∈ keys, (s.cell k).expired now = true) :
    Evicted now s (Store.deleteBulk s keys) := fun k => by
  rw [cell_deleteBulk]
  split
  · next hk => exact .inr ⟨h k hk, rfl⟩
  · exact .inl rfl

theorem live (h : Evicted now s t) (k : String) : (t.cell k).live now = (s.cell k).live now := by
  rcases h k with he | ⟨hx, he⟩
  · rw [he]
  · rw [he, Cell.live_of_expired hx, Cell.live_empty]

theorem unexpired (h : Evicted now s t) (k : String) :
    (s.cell k).unexpired now = (t.cell k).unexpired now := by
  rcases h k with he | ⟨hx, he⟩
  · rw [he]
  · rw [he, Cell.unexpired_of_expired hx, Cell.unexpired_empty]

theorem dropExpired (h : Evicted now s t) : s.dropExpired now = t.dropExpired now :=
  dropExpired_congr h.unexpired

/-- The same cell under one key of both. -/
theorem setCell (h : Evicted now s t) (key : String) (x : Cell) :
    Evicted now (s.setCell key x) (t.setCell key x) := fun k => by
  rw [cell_setCell, cell_setCell]
  split
  · exact .inl rfl
  · exact h k

end Evicted

/-! ### Commands on one cell -/

/-- On an expired cell the action replies as on an empty one, and leaves the same if what has
expired is dropped. -/
def Cell.IgnoresExpired {α : Type} (now : Instant) (g : Cell → α × Cell) : Prop :=
  ∀ x, x.expired now = true →
    (g x).1 = (g empty).1 ∧ (g x).2.unexpired now = (g empty).2.unexpired now

namespace Cell

theorem IgnoresExpired.reply {α : Type} {g : Cell → α × Cell} (h : IgnoresExpired now g)
    (f : α → Reply) : IgnoresExpired now fun x => Cell.reply f (g x) := fun x hx =>
  ⟨congrArg f (h x hx).1, (h x hx).2⟩

/-- An action that leaves a cell without a live value as it is. -/
theorem ignoresExpired_of_keeps {α : Type} {g : Cell → α × Cell} {r : α}
    (h : ∀ x, x.live now = none → g x = (r, x)) : IgnoresExpired now g := fun x hx => by
  rw [h x (live_of_expired hx), h empty (live_empty now), unexpired_of_expired hx]
  exact ⟨rfl, rfl⟩

/-- An action that replaces such a cell. -/
theorem ignoresExpired_of_replaces {α : Type} {g : Cell → α × Cell} {r : α} {y : Cell}
    (h : ∀ x, x.live now = none → g x = (r, y)) : IgnoresExpired now g := fun x hx => by
  rw [h x (live_of_expired hx), h empty (live_empty now)]
  exact ⟨rfl, rfl⟩

theorem ignoresExpired_pushLoop {createIfMissing : Bool}
    {pushFn : List String → String → List String} (elements : List String) (size : Nat) :
    IgnoresExpired now (pushLoop now createIfMissing pushFn elements size) := by
  cases elements with
  | nil => exact ignoresExpired_of_keeps fun x _ => rfl
  | cons element elements =>
      cases createIfMissing with
      | true =>
          exact ignoresExpired_of_replaces fun x hl => pushLoop_create hl element elements size
      | false => exact ignoresExpired_of_keeps fun x hl => pushLoop_absent hl _ size

theorem ignoresExpired_set {ex : Executor} {c : Clock} {value : String}
    {condition : Option SetCondition} {expiry : Option SetExpiry} {g : Bool}
    (hne : expiry ≠ some .keepTtl) :
    IgnoresExpired c.mono (set ex c value condition expiry g) := by
  by_cases hmet : ex.conditionMet condition none = true
  · refine ignoresExpired_of_replaces (r := (set ex c value condition expiry g empty).1)
      (y := (set ex c value condition expiry g empty).2) fun x hl => ?_
    show set ex c value condition expiry g x = set ex c value condition expiry g empty
    rw [set, set, hl, live_empty, setDeadline_of_ne hne x.deadline empty.deadline]
    dsimp only [Store.asString]
    rw [if_pos hmet, if_pos hmet]
  · refine ignoresExpired_of_keeps (r := some (Executor.setReply g false none)) fun x hl => ?_
    rw [set, hl]
    exact if_neg hmet

theorem ignoresExpired_pop {count : UInt64}
    {popFn : List String → Option (String × List String)} :
    IgnoresExpired now (pop now count popFn) := by
  by_cases hcount : 24 * count.toNat > 2 ^ 63 - 1
  · exact ignoresExpired_of_keeps fun x _ => by rw [pop, if_pos hcount]
  · exact ignoresExpired_of_keeps fun x hl => by rw [pop, if_neg hcount, hl]

theorem ignoresExpired_exec {ex : Executor} {env : Env} {cmd : Command} {key : String}
    {g : Cell → Reply × Cell} (hg : Cell.exec ex env cmd = some (key, g))
    (hcmd : cmd.onValues = true) : IgnoresExpired env.clock.mono g := by
  cases cmd with
  | set k value condition expiry get =>
      cases hg
      exact ignoresExpired_set fun he => by subst he; cases hcmd
  | getDel k =>
      cases hg
      refine IgnoresExpired.reply (fun x hx => ?_) _
      rw [getDelString, getDelString, live_of_expired hx, live_empty, if_pos hx]
      exact ⟨rfl, unexpired_of_expired hx⟩
  | lPush | rPush | lPushX | rPushX => cases hg; exact ignoresExpired_pushLoop _ _
  | lPop | rPop => cases hg; exact ignoresExpired_pop.reply _
  | lSet k index element =>
      cases hg
      exact (ignoresExpired_of_keeps fun x hl => by rw [lset, hl]).reply _
  | sAdd k members =>
      cases hg
      exact (ignoresExpired_of_replaces fun x hl => by rw [sadd, hl]).reply _
  | sPop k count => cases hg; exact (ignoresExpired_of_keeps fun x hl => by rw [spop, hl]).reply _
  | sRem k members => cases hg; exact (ignoresExpired_of_keeps fun x hl => by rw [srem, hl]).reply _
  | persist | expire | pExpire | expireAt | pExpireAt => cases hcmd
  | _ => cases hg

end Cell

theorem exec_cell_unobserved {ex : Executor} {env : Env} {cmd : Command} {key : String}
    {g : Cell → Reply × Cell} (hg : Cell.exec ex env cmd = some (key, g))
    (hcmd : cmd.onValues = true) (h : Evicted env.clock.mono s t) :
    (ex.exec env cmd t).1 = (ex.exec env cmd s).1 ∧
      (ex.exec env cmd t).2.dropExpired env.clock.mono =
        (ex.exec env cmd s).2.dropExpired env.clock.mono := by
  have hcell : (g (t.cell key)).1 = (g (s.cell key)).1 ∧
      (g (t.cell key)).2.unexpired env.clock.mono =
        (g (s.cell key)).2.unexpired env.clock.mono := by
    rcases h key with he | ⟨hx, he⟩
    · rw [he]; exact ⟨rfl, rfl⟩
    · obtain ⟨h₁, h₂⟩ := Cell.ignoresExpired_exec hg hcmd _ hx
      rw [he]
      exact ⟨h₁.symm, h₂.symm⟩
  rw [exec_eq_at ex env t hg, exec_eq_at ex env s hg, keyed_at, keyed_at]
  refine ⟨hcell.1, dropExpired_congr fun k => ?_⟩
  rw [cell_setCell, cell_setCell]
  split
  · exact hcell.2
  · exact (h.unexpired k).symm

/-! ### Commands that read -/

/-- The calls that read live values only. -/
def StoreOp.readsLive : StoreOp → Bool
  | .exists _ | .getString _ | .mget _ | .llen _ | .lindex .. | .lrange .. | .smembers _
  | .sismember .. | .smismember .. | .srandmember .. | .scard _ => true
  | _ => false

theorem apply_readsLive {op : StoreOp} (hop : op.readsLive = true) (draws : Draws)
    (h : Evicted now s t) :
    (op.apply now draws t).1 = (op.apply now draws s).1 ∧
      Evicted now (op.apply now draws s).2 (op.apply now draws t).2 := by
  have hget : ∀ key, t.get now key = s.get now key := h.live
  have hread : op.isRead = true := by cases op <;> first | rfl | cases hop
  rw [StoreOp.apply_of_isRead hread, StoreOp.apply_of_isRead hread]
  refine ⟨?_, h⟩
  cases op with
  | «exists» key => rw [apply_exists, apply_exists, h.live]
  | getString key => rw [apply_getString, apply_getString, h.live]
  | mget keys =>
      show Store.mget t now keys = Store.mget s now keys
      rw [Store.mget, Store.mget]
      simp only [hget]
  | llen key => show Store.llen t now key = Store.llen s now key; rw [Store.llen, Store.llen, hget]
  | lindex key index =>
      show Store.lindex t now key index.toInt = Store.lindex s now key index.toInt
      rw [Store.lindex, Store.lindex, hget]
  | lrange key start stop =>
      show Store.lrange t now key start.toInt stop.toInt =
        Store.lrange s now key start.toInt stop.toInt
      rw [Store.lrange, Store.lrange, hget]
  | smembers key =>
      show Store.smembers t now draws key = Store.smembers s now draws key
      rw [Store.smembers, Store.smembers, hget]
  | sismember key member =>
      show Store.sismember t now draws key member = Store.sismember s now draws key member
      rw [Store.sismember, Store.sismember, Store.smembers, Store.smembers, hget]
  | smismember key members =>
      show Store.smismember t now key members = Store.smismember s now key members
      rw [Store.smismember, Store.smismember, hget]
  | srandmember key count rep =>
      show Store.srandmember t now draws key count rep = Store.srandmember s now draws key count rep
      rw [Store.srandmember, Store.srandmember, hget]
  | scard key =>
      show Store.scard t now key = Store.scard s now key
      rw [Store.scard, Store.scard, hget]
  | _ => cases hop

theorem readsLive_existsLoop (keys : List String) :
    (Executor.existsLoop keys).All fun op => op.readsLive = true := by
  induction keys with
  | nil => trivial
  | cons key keys ih =>
      rw [Executor.existsLoop, Prog.invoke_bind]
      exact ⟨rfl, fun _ => Prog.all_bind ih fun _ => trivial⟩

theorem exec_read_unobserved {ex : Executor} {env : Env} {cmd : Command}
    (hread : (ex.execute env.clock cmd).All fun op => op.readsLive = true)
    (h : Evicted env.clock.mono s t) :
    (ex.exec env cmd t).1 = (ex.exec env cmd s).1 ∧
      (ex.exec env cmd t).2.dropExpired env.clock.mono =
        (ex.exec env cmd s).2.dropExpired env.clock.mono := by
  obtain ⟨hreply, hstore⟩ := Prog.run_sim (R := fun t s => Evicted env.clock.mono s t)
    (fun op t s hop h => apply_readsLive hop env.draws h) hread h
  exact ⟨hreply, hstore.dropExpired.symm⟩

/-! ### SMOVE -/

theorem Evicted.moves (h : Evicted now s t) {source destination member : String}
    {set : Finset String} :
    Moves now t source destination member set ↔ Moves now s source destination member set := by
  rw [Moves, Moves, h.live, h.live]

theorem Evicted.cell_of_live (h : Evicted now s t) {key : String} {v : StoreValue}
    (hv : (s.cell key).live now = some v) : t.cell key = s.cell key :=
  (h key).resolve_right fun ⟨hx, _⟩ => by rw [Cell.live_of_expired hx] at hv; cases hv

theorem addMember_unexpired {x y : Cell} (h : y = x ∨ (x.expired now = true ∧ y = Cell.empty))
    (member : String) : y.addMember now member = x.addMember now member := by
  rcases h with rfl | ⟨hx, rfl⟩
  · rfl
  · rw [Cell.addMember, Cell.addMember, Cell.live_of_expired hx, Cell.live_empty]

theorem smove_unobserved (h : Evicted now s t) (source destination member : String) :
    (Store.smove t now now now now source destination member).1 =
        (Store.smove s now now now now source destination member).1 ∧
      Evicted now (Store.smove s now now now now source destination member).2
        (Store.smove t now now now now source destination member).2 := by
  by_cases hm : ∃ set, Moves now s source destination member set
  · obtain ⟨set, hm⟩ := hm
    rw [smove_of_moves now s hm, smove_of_moves now t (h.moves.mpr hm)]
    refine ⟨rfl, ?_⟩
    have hsource : t.cell source = s.cell source := h.cell_of_live hm.1
    have h' := h.setCell source ((s.cell source).shrinkSet (set.erase member))
    rw [hsource]
    dsimp only
    rw [addMember_unexpired (h' destination) member]
    exact h'.setCell destination _
  · have hm' : ∀ set, ¬Moves now t source destination member set := fun set ht =>
      hm ⟨set, h.moves.mp ht⟩
    rw [smove_of_not_moves now s fun set hs => hm ⟨set, hs⟩, smove_of_not_moves now t hm',
      h.live, h.live]
    exact ⟨rfl, h⟩

theorem mset_unobserved (h : Evicted now s t) (items : List (String × String)) :
    Evicted now (Store.mset s items) (Store.mset t items) := by
  rw [mset_eq, mset_eq]
  induction items generalizing s t with
  | nil => exact h
  | cons item items ih =>
      exact ih (h.setCell item.1 (Cell.setString item.2))

/-! ### KEYS -/

/-- The same draws, but for the order of one table. -/
def Draws.withIter (draws : Draws) (s : Finset String) (l : List String) (hn : l.Nodup)
    (hm : ∀ a, a ∈ l ↔ a ∈ s) : Draws :=
  { draws with
    iter := fun u => if u = s then l else draws.iter u
    iter_nodup := fun u => by
      split
      · exact hn
      · exact draws.iter_nodup u
    mem_iter := fun u a => by
      split
      · next h => rw [h, hm]
      · exact draws.mem_iter u a }

theorem Draws.iter_withIter {draws : Draws} {s : Finset String} {l : List String} {hn : l.Nodup}
    {hm : ∀ a, a ∈ l ↔ a ∈ s} : (draws.withIter s l hn hm).iter s = l := if_pos rfl

theorem mem_keys_iff_cell {k : String} : k ∈ s.data.keys ↔ (s.cell k).value.isSome := by
  rw [Finmap.mem_keys, ← Finmap.lookup_isSome]
  rfl

/-- A key that is left is untouched. -/
theorem Evicted.cell_of_mem (h : Evicted now s t) {k : String} (hk : k ∈ t.data.keys) :
    t.cell k = s.cell k :=
  (h k).resolve_right fun ⟨_, he⟩ => by
    rw [mem_keys_iff_cell, he] at hk
    cases hk

theorem Evicted.keys_subset (h : Evicted now s t) : t.data.keys ⊆ s.data.keys := fun k hk => by
  rw [mem_keys_iff_cell, ← h.cell_of_mem hk]
  exact mem_keys_iff_cell.mp hk

/-- KEYS shows the key. -/
def shown (now : Instant) (pattern : Bytes) (s : StoreInner) (k : String) : Bool :=
  (pattern == [42] || Pattern.stringMatch k pattern) && !(s.cell k).expired now

theorem keys_eq_filter (s : StoreInner) (draws : Draws) (pattern : Bytes) :
    Store.keys s now draws pattern = (draws.iter s.data.keys).filter (shown now pattern s) := by
  rw [Store.keys]
  refine List.filter_congr fun k _ => ?_
  rw [shown, ← all_lt_deadline]
  rfl

theorem Evicted.shown_of_mem (h : Evicted now s t) {pattern : Bytes} {k : String}
    (hk : k ∈ t.data.keys) : shown now pattern t k = shown now pattern s k := by
  rw [shown, shown, h.cell_of_mem hk]

theorem Evicted.shown_of_not_mem (h : Evicted now s t) {pattern : Bytes} {k : String}
    (hs : k ∈ s.data.keys) (ht : k ∉ t.data.keys) : shown now pattern s k = false := by
  rcases h k with he | ⟨hx, -⟩
  · rw [mem_keys_iff_cell, he, ← mem_keys_iff_cell] at ht
    exact absurd hs ht
  · rw [shown, hx, Bool.not_true, Bool.and_false]

/-- Every order of the keys of a store shows what some order of the keys of the other shows. -/
theorem keys_unobserved (h : Evicted now s t) (pattern : Bytes) (draws : Draws) :
    (∃ draws', Store.keys t now draws' pattern = Store.keys s now draws pattern) ∧
      ∃ draws', Store.keys s now draws' pattern = Store.keys t now draws pattern := by
  constructor
  · have hm : ∀ a, a ∈ (draws.iter s.data.keys).filter (· ∈ t.data.keys) ↔ a ∈ t.data.keys := by
      intro a
      rw [List.mem_filter, draws.mem_iter, decide_eq_true_iff]
      exact ⟨And.right, fun ha => ⟨h.keys_subset ha, ha⟩⟩
    refine ⟨draws.withIter t.data.keys _ ((draws.iter_nodup _).filter _) hm, ?_⟩
    rw [keys_eq_filter, keys_eq_filter, Draws.iter_withIter, List.filter_filter]
    refine List.filter_congr fun k hk => ?_
    by_cases ht : k ∈ t.data.keys
    · rw [h.shown_of_mem ht, decide_eq_true ht, Bool.and_true]
    · rw [h.shown_of_not_mem ((draws.mem_iter _ _).mp hk) ht, decide_eq_false ht, Bool.and_false]
  · -- the keys that went are listed last
    have hm : ∀ a, a ∈ draws.iter t.data.keys ++ draws.iter (s.data.keys \ t.data.keys) ↔
        a ∈ s.data.keys := by
      intro a
      rw [List.mem_append, draws.mem_iter, draws.mem_iter, Finset.mem_sdiff]
      refine ⟨fun ha => ha.elim (fun ha => h.keys_subset ha) And.left, fun ha => ?_⟩
      by_cases ht : a ∈ t.data.keys
      · exact .inl ht
      · exact .inr ⟨ha, ht⟩
    have hn : (draws.iter t.data.keys ++ draws.iter (s.data.keys \ t.data.keys)).Nodup := by
      refine List.nodup_append.mpr ⟨draws.iter_nodup _, draws.iter_nodup _, ?_⟩
      rintro a ha b hb rfl
      exact (Finset.mem_sdiff.mp ((draws.mem_iter _ _).mp hb)).2 ((draws.mem_iter _ _).mp ha)
    refine ⟨draws.withIter s.data.keys _ hn hm, ?_⟩
    rw [keys_eq_filter, keys_eq_filter, Draws.iter_withIter, List.filter_append]
    have hgone : (draws.iter (s.data.keys \ t.data.keys)).filter (shown now pattern s) = [] := by
      refine List.filter_eq_nil_iff.mpr fun k hk => ?_
      obtain ⟨hs, ht⟩ := Finset.mem_sdiff.mp ((draws.mem_iter _ _).mp hk)
      rw [h.shown_of_not_mem hs ht]
      exact Bool.false_ne_true
    rw [hgone, List.append_nil]
    exact List.filter_congr fun k hk => (h.shown_of_mem ((draws.mem_iter _ _).mp hk)).symm

/-! ### All of them -/

/-- **A command on values does not tell** whether the expired keys are still there. -/
theorem exec_unobserved {ex : Executor} {env : Env} {cmd : Command} (hcmd : cmd.onValues = true)
    (hkeys : ∀ pattern, cmd ≠ .keys pattern) (h : Evicted env.clock.mono s t) :
    (ex.exec env cmd t).1 = (ex.exec env cmd s).1 ∧
      (ex.exec env cmd t).2.dropExpired env.clock.mono =
        (ex.exec env cmd s).2.dropExpired env.clock.mono := by
  cases hg : Cell.exec ex env cmd with
  | some p =>
      obtain ⟨key, g⟩ := p
      exact exec_cell_unobserved hg hcmd h
  | none =>
      cases cmd with
      | mSet items =>
          rw [exec_mSet, exec_mSet]
          exact ⟨rfl, (mset_unobserved h items).dropExpired.symm⟩
      | flushDb mode => rw [exec_flushDb, exec_flushDb]; exact ⟨rfl, rfl⟩
      | sMove source destination member =>
          obtain ⟨hreply, hstore⟩ := smove_unobserved h source destination member
          rw [exec_sMove, exec_sMove]
          exact ⟨congrArg (Option.map (replyOf boolReply)) hreply, hstore.dropExpired.symm⟩
      | «exists» keys =>
          exact exec_read_unobserved (Prog.all_bind (readsLive_existsLoop keys) fun _ => trivial) h
      | get | mGet | strLen | digest | lLen | lIndex | lRange | sMembers | sIsMember | sMIsMember
      | sRandMember | sCard => exact exec_read_unobserved ⟨rfl, fun _ => trivial⟩ h
      | keys pattern => exact absurd rfl (hkeys pattern)
      | set | getDel | lPush | rPush | lPushX | rPushX | lPop | rPop | lSet | sAdd | sPop | sRem =>
          cases hg
      | _ => cases hcmd

/-- **Eviction is not observable.**  For every store, every set of keys whose deadlines have passed
and every command on values: the outcomes after `delete_bulk` of the keys are the outcomes
before. -/
theorem eviction_unobserved (ex : Executor) (c : Clock) (s : StoreInner) (keys : List String)
    (cmd : Command) (hcmd : cmd.onValues = true)
    (hexpired : ∀ k ∈ keys, ∃ d, s.expiryIndex.lookup k = some d ∧ d ≤ c.mono) :
    Outcomes ex c cmd (Store.deleteBulk s keys) = Outcomes ex c cmd s := by
  have h : Evicted c.mono s (Store.deleteBulk s keys) := Evicted.deleteBulk fun k hk => by
    obtain ⟨d, hd, hle⟩ := hexpired k hk
    rw [Cell.expired, ← lookup_expiryIndex, hd]
    exact decide_eq_true hle
  by_cases hkeys : ∃ pattern, cmd = .keys pattern
  · obtain ⟨pattern, rfl⟩ := hkeys
    have hexec : ∀ (draws : Draws) (s : StoreInner), ex.exec ⟨c, draws⟩ (.keys pattern) s =
        (some (bulkReply (Store.keys s c.mono draws (utf8 pattern))), s) := fun _ _ => rfl
    ext o
    simp only [Outcomes, hexec, ← h.dropExpired]
    constructor
    · rintro ⟨draws, rfl⟩
      obtain ⟨draws', hk⟩ := (keys_unobserved h (utf8 pattern) draws).2
      exact ⟨draws', by rw [hk]⟩
    · rintro ⟨draws, rfl⟩
      obtain ⟨draws', hk⟩ := (keys_unobserved h (utf8 pattern) draws).1
      exact ⟨draws', by rw [hk]⟩
  · ext o
    refine exists_congr fun draws => ?_
    obtain ⟨hreply, hstore⟩ : (ex.exec ⟨c, draws⟩ cmd (Store.deleteBulk s keys)).1 =
        (ex.exec ⟨c, draws⟩ cmd s).1 ∧
      (ex.exec ⟨c, draws⟩ cmd (Store.deleteBulk s keys)).2.dropExpired c.mono =
        (ex.exec ⟨c, draws⟩ cmd s).2.dropExpired c.mono :=
      exec_unobserved hcmd (fun pattern he => hkeys ⟨pattern, he⟩) h
    rw [hreply, hstore]

/-- GET of a key that has expired. -/
theorem eviction_unobserved_get :
    Outcomes .plain (Clock.at 0 2000) (.get "k")
        (Store.deleteBulk ((Store.new.putData "k" (.str "v")).putExpiry "k" 1000) ["k"]) =
      Outcomes .plain (Clock.at 0 2000) (.get "k")
        ((Store.new.putData "k" (.str "v")).putExpiry "k" 1000) :=
  eviction_unobserved .plain (Clock.at 0 2000)
    ((Store.new.putData "k" (.str "v")).putExpiry "k" 1000) ["k"] (.get "k") rfl fun k hk => by
      obtain rfl := List.mem_singleton.mp hk
      exact ⟨1000, rfl, by decide⟩

end Thesaurus
