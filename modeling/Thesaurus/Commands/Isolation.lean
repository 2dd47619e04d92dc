import Thesaurus.Cells.Frame
import Thesaurus.Model.Clients

/-!
# Commands — isolation

Clients that name different keys do not notice each other, whatever their commands are and however
the calls of their handlers interleave.  KEYS, DBSIZE and FLUSHDB name no key, and reach all.

* `confined_apply`: a call stays within the keys it names.
* `clients_isolated`: every client gets the replies, and leaves under its keys what it leaves, when
  it is alone.
-/

namespace Thesaurus
open StoreInner Atomic

/-- The keys a call names; `none` when it reaches all. -/
def StoreOp.touched : StoreOp → Option (List String)
  | .delete key | .exists key | .getTtl key | .setTtl key _ | .persist key | .getString key
  | .setString key _ | .getDelString key | .lpush key _ | .rpush key _ | .lpushx key _
  | .rpushx key _ | .lpop key _ | .rpop key _ | .lset key _ _ | .llen key | .lindex key _
  | .lrange key _ _ | .sadd key _ | .smembers key | .sismember key _ | .smismember key _
  | .srandmember key _ _ | .scard key | .spop key _ | .srem key _ => some [key]
  | .deleteBulk ks | .mget ks   => some ks
  | .mset items                 => some (items.map Prod.fst)
  | .smove source destination _ => some [source, destination]
  | .sampleEvictionIndex _ | .keys _ | .size | .clear | .clearAsync => none

/-- The keys a command names; `none` when it reaches all. -/
def Command.touched : Command → Option (List String)
  | .ping _ | .select _ => some []
  | .get key | .set key _ _ _ _ | .getDel key | .strLen key | .lPush key _ | .rPush key _
  | .lPushX key _ | .rPushX key _ | .lPop key _ | .rPop key _ | .lSet key _ _ | .lLen key
  | .lIndex key _ | .lRange key _ _ | .sAdd key _ | .sMembers key | .sIsMember key _
  | .sMIsMember key _ | .sRandMember key _ | .sCard key | .sPop key _ | .sRem key _ | .ttl key
  | .pTtl key | .expireTime key | .pExpireTime key | .persist key | .expire key _
  | .pExpire key _ | .expireAt key _ | .pExpireAt key _ | .digest key => some [key]
  | .delete ks | .exists ks | .mGet ks => some ks
  | .mSet items                 => some (items.map Prod.fst)
  | .sMove source destination _ => some [source, destination]
  | .keys _ | .dbSize | .flushDb _ => none

/-- The call names no key outside `P`. -/
def StoreOp.Within (P : String → Prop) (op : StoreOp) : Prop :=
  ∃ keys, op.touched = some keys ∧ ∀ k ∈ keys, P k

/-- The command names no key outside `P`. -/
def Command.Within (P : String → Prop) (cmd : Command) : Prop :=
  ∃ keys, cmd.touched = some keys ∧ ∀ k ∈ keys, P k

/-- A call of one key. -/
theorem within_one {P : String → Prop} {op : StoreOp} {key : String}
    (hop : op.touched = some [key]) (h : P key) : op.Within P :=
  ⟨[key], hop, fun _ hk => List.mem_singleton.mp hk ▸ h⟩

/-! ### Calls -/

section Calls

variable {now : Instant} {draws : Draws} {P : String → Prop}

/-- A call that only reads depends on the cells it names. -/
theorem read_congr {op : StoreOp} (hop : op.isRead = true) {keys : List String}
    (hk : op.touched = some keys) {s t : StoreInner} (h : ∀ k ∈ keys, s.cell k = t.cell k) :
    (op.apply now draws s).1 = (op.apply now draws t).1 := by
  have hget : ∀ k ∈ keys, s.get now k = t.get now k := fun k hk => congrArg (Cell.live now) (h k hk)
  have hone : ∀ key, op.touched = some [key] → s.cell key = t.cell key := fun key hkey => by
    obtain rfl : keys = [key] := Option.some.inj (hk.symm.trans hkey)
    exact h key (List.mem_singleton_self key)
  have hget1 : ∀ key, op.touched = some [key] → s.get now key = t.get now key := fun key hkey =>
    congrArg (Cell.live now) (hone key hkey)
  cases op with
  | «exists» key => rw [apply_exists, apply_exists, hone key rfl]
  | getTtl key => rw [apply_getTtl, apply_getTtl, hone key rfl]
  | getString key => rw [apply_getString, apply_getString, hone key rfl]
  | mget ks =>
      cases hk
      exact List.map_congr_left fun k hk => by rw [hget k hk]
  | llen key =>
      show Store.llen s now key = Store.llen t now key
      rw [Store.llen, Store.llen, hget1 key rfl]
  | lindex key index =>
      show Store.lindex s now key index.toInt = Store.lindex t now key index.toInt
      rw [Store.lindex, Store.lindex, hget1 key rfl]
  | lrange key start stop =>
      show Store.lrange s now key start.toInt stop.toInt =
        Store.lrange t now key start.toInt stop.toInt
      rw [Store.lrange, Store.lrange, hget1 key rfl]
  | smembers key =>
      show Store.smembers s now draws key = Store.smembers t now draws key
      rw [Store.smembers, Store.smembers, hget1 key rfl]
  | sismember key member =>
      show Store.sismember s now draws key member = Store.sismember t now draws key member
      rw [Store.sismember, Store.sismember, Store.smembers, Store.smembers, hget1 key rfl]
  | smismember key members =>
      show Store.smismember s now key members = Store.smismember t now key members
      rw [Store.smismember, Store.smismember, hget1 key rfl]
  | srandmember key count rep =>
      show Store.srandmember s now draws key count rep = Store.srandmember t now draws key count rep
      rw [Store.srandmember, Store.srandmember, hget1 key rfl]
  | scard key =>
      show Store.scard s now key = Store.scard t now key
      rw [Store.scard, Store.scard, hget1 key rfl]
  | sampleEvictionIndex | keys | size => cases hk
  | _ => cases hop

/-- A call that is the action of a cell. -/
theorem confined_of_at {op : StoreOp} {key : String} (hP : P key) {g : Cell → op.Res × Cell}
    (h : ∀ s, op.apply now draws s = keyed.at key g s) :
    keyed.Confined P (op.apply now draws) := by
  rw [funext h]
  exact Keyed.confined_at hP g

theorem confined_mset {items : List (String × String)} (h : ∀ k ∈ items.map Prod.fst, P k) :
    keyed.Confined P ((StoreOp.mset items).apply now draws) := by
  have hfold : (StoreOp.mset items).apply now draws = fun s =>
      ((), items.foldl (fun s item => s.setCell item.1 (Cell.setString item.2)) s) :=
    funext fun s => congrArg (Prod.mk ()) (mset_eq s items)
  rw [hfold]
  exact Keyed.confined_puts Prod.fst (fun item => Cell.setString item.2)
    (fun item hi => h _ (List.mem_map_of_mem hi)) ()

theorem confined_deleteBulk {keys : List String} (h : ∀ k ∈ keys, P k) :
    keyed.Confined P ((StoreOp.deleteBulk keys).apply now draws) := by
  have hfold : (StoreOp.deleteBulk keys).apply now draws = fun s =>
      ((), keys.foldl (fun s k => s.setCell k Cell.empty) s) :=
    funext fun s => congrArg (Prod.mk ()) (deleteBulk_eq s keys)
  rw [hfold]
  exact Keyed.confined_puts id (fun _ => Cell.empty) h ()

/-- SMOVE reads and writes its two keys. -/
theorem confined_smove {source destination member : String} (hs : P source) (hd : P destination) :
    keyed.Confined P ((StoreOp.smove source destination member).apply now draws) := by
  have hmoves : ∀ {s t : StoreInner}, (∀ k, P k → s.cell k = t.cell k) → ∀ set,
      Moves now s source destination member set → Moves now t source destination member set := by
    rintro s t hst set ⟨h₁, hm, h₂⟩
    rw [hst source hs] at h₁
    rw [hst destination hd] at h₂
    exact ⟨h₁, hm, h₂⟩
  refine ⟨?_, ?_, ?_⟩
  · exact fun s k hk => cell_smove (fun h => hk (by rwa [h])) (fun h => hk (by rwa [h])) s
  all_goals
    intro s t hst
    by_cases hm : ∃ set, Moves now s source destination member set
  · obtain ⟨set, hm⟩ := hm
    simp only [StoreOp.apply, smove_of_moves now s hm, smove_of_moves now t (hmoves hst set hm)]
  · have hm' : ∀ set, ¬Moves now t source destination member set := fun set h =>
      hm ⟨set, hmoves (fun k hk => (hst k hk).symm) set h⟩
    simp only [StoreOp.apply, smove_of_not_moves now s fun set h => hm ⟨set, h⟩,
      smove_of_not_moves now t hm']
    have h₁ : s.cell source = t.cell source := hst source hs
    have h₂ : s.cell destination = t.cell destination := hst destination hd
    rw [h₁, h₂]
  · obtain ⟨set, hm⟩ := hm
    intro k hk
    simp only [StoreOp.apply, smove_of_moves now s hm, smove_of_moves now t (hmoves hst set hm)]
    have h₁ : s.cell source = t.cell source := hst source hs
    have h₂ : s.cell destination = t.cell destination := hst destination hd
    have h₃ : s.cell k = t.cell k := hst k hk
    show StoreInner.cell _ k = StoreInner.cell _ k
    simp only [cell_setCell, h₁, h₂, h₃]
  · have hm' : ∀ set, ¬Moves now t source destination member set := fun set h =>
      hm ⟨set, hmoves (fun k hk => (hst k hk).symm) set h⟩
    simp only [StoreOp.apply, smove_of_not_moves now s fun set h => hm ⟨set, h⟩,
      smove_of_not_moves now t hm']
    exact hst

/-- **A call stays within the keys it names.** -/
theorem confined_apply {op : StoreOp} (h : op.Within P) (now : Instant) (draws : Draws) :
    keyed.Confined P (op.apply now draws) := by
  obtain ⟨keys, hk, hP⟩ := h
  have hone : ∀ key, op.touched = some [key] → P key := fun key hkey => by
    obtain rfl : keys = [key] := Option.some.inj (hk.symm.trans hkey)
    exact hP key (List.mem_singleton_self key)
  by_cases hread : op.isRead = true
  · have hsame : op.apply now draws = fun s => ((op.apply now draws s).1, s) :=
      funext fun s => Prod.ext rfl (StoreOp.apply_of_isRead hread now draws s)
    rw [hsame]
    exact Keyed.confined_of_read fun s t hst => read_congr hread hk fun k hk => hst k (hP k hk)
  cases op with
  | delete key => exact confined_of_at (hone key rfl) (apply_delete now draws · key)
  | setTtl key ttl => exact confined_of_at (hone key rfl) (apply_setTtl now draws · key ttl)
  | persist key => exact confined_of_at (hone key rfl) (apply_persist now draws · key)
  | setString key value =>
      have hput : (StoreOp.setString key value).apply now draws =
          fun s => ((), s.setCell key (Cell.setString value)) :=
        funext fun s => apply_setString now draws s key value
      rw [hput]
      exact Keyed.confined_put (hone key rfl) _ _
  | getDelString key => exact confined_of_at (hone key rfl) (apply_getDelString now draws · key)
  | lpush key element => exact confined_of_at (hone key rfl) (apply_lpush now draws · key element)
  | rpush key element => exact confined_of_at (hone key rfl) (apply_rpush now draws · key element)
  | lpushx key element => exact confined_of_at (hone key rfl) (apply_lpushx now draws · key element)
  | rpushx key element => exact confined_of_at (hone key rfl) (apply_rpushx now draws · key element)
  | lpop key count => exact confined_of_at (hone key rfl) (popInner_eq now · key count _)
  | rpop key count => exact confined_of_at (hone key rfl) (popInner_eq now · key count _)
  | lset key index element =>
      exact confined_of_at (hone key rfl) (lset_eq now · key index.toInt element)
  | sadd key members => exact confined_of_at (hone key rfl) (sadd_eq now · key members)
  | spop key count => exact confined_of_at (hone key rfl) (spop_eq now draws · key count)
  | srem key members => exact confined_of_at (hone key rfl) (srem_eq now · key members)
  | mset items => cases hk; exact confined_mset hP
  | deleteBulk ks => cases hk; exact confined_deleteBulk hP
  | smove source destination member =>
      cases hk
      exact confined_smove (hP source (by simp)) (hP destination (by simp))
  | clear | clearAsync => cases hk
  | _ => exact absurd rfl hread

end Calls

/-! ### Commands -/

section Commands

variable {P : String → Prop} {ex : Executor} {c : Clock}

theorem all_deleteLoop {Q : StoreOp → Prop} {keys : List String} (h : ∀ k ∈ keys, Q (.delete k)) :
    (Executor.deleteLoop keys).All Q := by
  induction keys with
  | nil => trivial
  | cons key keys ih =>
      rw [Executor.deleteLoop, Prog.invoke_bind]
      exact ⟨h key List.mem_cons_self, fun _ =>
        Prog.all_bind (ih fun k hk => h k (List.mem_cons_of_mem _ hk)) fun _ => trivial⟩

theorem all_existsLoop {Q : StoreOp → Prop} {keys : List String} (h : ∀ k ∈ keys, Q (.exists k)) :
    (Executor.existsLoop keys).All Q := by
  induction keys with
  | nil => trivial
  | cons key keys ih =>
      rw [Executor.existsLoop, Prog.invoke_bind]
      exact ⟨h key List.mem_cons_self, fun _ =>
        Prog.all_bind (ih fun k hk => h k (List.mem_cons_of_mem _ hk)) fun _ => trivial⟩

theorem all_pushLoop {Q : StoreOp → Prop}
    {call : String → String → StoreProg (Except StoreError Nat)} {key : String}
    (h : ∀ element, (call key element).All Q) (elements : List String) (size : Nat) :
    (Executor.pushLoop call key elements size).All Q := by
  induction elements generalizing size with
  | nil => trivial
  | cons element elements ih =>
      rw [Executor.pushLoop]
      refine Prog.all_bind (h element) fun r => ?_
      cases r with
      | ok n => exact ih n
      | error e => trivial

theorem within_resolveExpiry {key : String} (h : P key) (f : Duration → Int) :
    (Executor.resolveExpiry c key f).All (StoreOp.Within P) := by
  rw [Executor.resolveExpiry, Prog.invoke_bind]
  refine ⟨within_one rfl h, fun expiry => ?_⟩
  dsimp only
  split
  · split <;> trivial
  · exact ⟨within_one rfl h, fun _ => trivial⟩

theorem within_set {key value : String} (h : P key) (condition : Option SetCondition)
    (expiry : Option SetExpiry) (g : Bool) :
    (ex.set c key value condition expiry g).All (StoreOp.Within P) := by
  have hexpire : ∀ deadline r, (Executor.setExpire key deadline r).All (StoreOp.Within P) := by
    intro deadline r
    unfold Executor.setExpire
    split
    · trivial
    · trivial
    · trivial
    · exact ⟨within_one rfl h, fun _ => trivial⟩
  rw [Executor.set, Prog.invoke_bind]
  refine ⟨within_one rfl h, fun found => ?_⟩
  dsimp only
  split
  · trivial
  · split
    · unfold Executor.setWrite
      split
      · exact ⟨within_one rfl h, fun _ => ⟨within_one rfl h, fun _ => hexpire _ _⟩⟩
      · exact ⟨within_one rfl h, fun _ => hexpire _ _⟩
    · trivial

theorem within_expireIn {key : String} (h : P key) (d : Duration) :
    (Executor.expireIn c key d).All (StoreOp.Within P) := by
  unfold Executor.expireIn
  split
  · trivial
  · exact ⟨within_one rfl h, fun _ => trivial⟩

theorem within_expireBy {key : String} (h : P key) (past : Bool) (deadline : Option Instant) :
    (Executor.expireBy key past deadline).All (StoreOp.Within P) := by
  unfold Executor.expireBy
  split
  · exact ⟨within_one rfl h, fun _ => trivial⟩
  · split
    · trivial
    · exact ⟨within_one rfl h, fun _ => trivial⟩

/-- **A command stays within the keys it names.** -/
theorem within_execute {cmd : Command} (h : cmd.Within P) :
    (ex.execute c cmd).All (StoreOp.Within P) := by
  obtain ⟨keys, hk, hP⟩ := h
  have hself : ∀ key, cmd.touched = some [key] → P key := by
    intro key hkey
    obtain rfl : keys = [key] := Option.some.inj (hk.symm.trans hkey)
    exact hP key (List.mem_singleton_self key)
  cases cmd with
  | ping message => cases message <;> trivial
  | select index =>
      show (Executor.select index).All _
      unfold Executor.select
      split <;> trivial
  | set key value condition expiry g => exact within_set (hself key rfl) condition expiry g
  | delete ks =>
      cases hk
      exact Prog.all_bind (all_deleteLoop fun k hk => within_one rfl (hP k hk)) fun _ => trivial
  | «exists» ks =>
      cases hk
      exact Prog.all_bind (all_existsLoop fun k hk => within_one rfl (hP k hk)) fun _ => trivial
  | mGet ks => cases hk; exact ⟨⟨_, rfl, hP⟩, fun _ => trivial⟩
  | mSet items => cases hk; exact ⟨⟨_, rfl, hP⟩, fun _ => trivial⟩
  | sMove source destination member => cases hk; exact ⟨⟨_, rfl, hP⟩, fun _ => trivial⟩
  | lPush key elements =>
      exact all_pushLoop (fun element => show (Prog.invoke (StoreOp.lpush key element)).All _ from
        ⟨within_one rfl (hself key rfl), fun _ => trivial⟩) elements 0
  | rPush key elements =>
      exact all_pushLoop (fun element => show (Prog.invoke (StoreOp.rpush key element)).All _ from
        ⟨within_one rfl (hself key rfl), fun _ => trivial⟩) elements 0
  | lPushX key elements =>
      exact all_pushLoop (fun element => show (Prog.invoke (StoreOp.lpushx key element)).All _ from
        ⟨within_one rfl (hself key rfl), fun _ => trivial⟩) elements 0
  | rPushX key elements =>
      exact all_pushLoop (fun element => show (Prog.invoke (StoreOp.rpushx key element)).All _ from
        ⟨within_one rfl (hself key rfl), fun _ => trivial⟩) elements 0
  | ttl key | pTtl key | expireTime key | pExpireTime key =>
      exact within_resolveExpiry (hself key rfl) _
  | expire key n | pExpire key n => exact within_expireIn (hself key rfl) _
  | expireAt key n | pExpireAt key n => exact within_expireBy (hself key rfl) _ _
  | keys | dbSize | flushDb => cases hk
  | _ => exact ⟨within_one rfl (hself _ rfl), fun _ => trivial⟩

end Commands

/-! ### Clients -/

end Thesaurus
