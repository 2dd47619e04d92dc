import Thesaurus.Model.Executor
import Thesaurus.Cells.Cell

/-!
# Cells — commands on one key

A command on a single key, run alone, is a function on that key's cell.  `Cell.exec` gives the
function for every such command that can write, and `exec_eq_at` says that the executor's
program computes it.
-/

namespace Thesaurus
open StoreInner Atomic

namespace Cell

/-! ### The commands -/

/-- A reply made from the result of a call. -/
def reply {α : Type} (f : α → Reply) (r : α × Cell) : Reply × Cell := (f r.1, r.2)

/-- SET. -/
def set (ex : Executor) (c : Clock) (value : String) (condition : Option SetCondition)
    (expiry : Option SetExpiry) (get : Bool) (x : Cell) : Reply × Cell :=
  match Store.asString (x.live c.mono) with
  | .error e => (some (errorReply e), x)
  | .ok prev =>
      if ex.conditionMet condition prev then
        match Executor.setDeadline c expiry x.deadline with
        | .panic       => (none, setString value)
        | .err text    => (some (.simpleError text), setString value)
        | .ok deadline =>
            (some (Executor.setReply get true prev), { setString value with deadline := deadline })
      else (some (Executor.setReply get false prev), x)

/-- The four pushes. -/
def pushLoop (now : Instant) (createIfMissing : Bool)
    (pushFn : List String → String → List String) : List String → Nat → Cell → Reply × Cell
  | [],                  size, x => (some (.integer size), x)
  | element :: elements, _,    x =>
      match push now element createIfMissing pushFn x with
      | (.ok n, x)    => pushLoop now createIfMissing pushFn elements n x
      | (.error e, x) => (some (errorReply e), x)

/-- EXPIRE and PEXPIRE. -/
def expireIn (c : Clock) (d : Duration) (x : Cell) : Reply × Cell :=
  match c.mono.checkedAdd d with
  | none          => (some (.simpleError "ERR invalid expire time in 'expire' command"), x)
  | some deadline => reply (fun b => some (boolReply b)) (x.setTtl deadline)

/-- EXPIREAT and PEXPIREAT. -/
def expireBy (past : Bool) (deadline : Option Instant) (x : Cell) : Reply × Cell :=
  if past then (some (.integer 0), empty)
  else
    match deadline with
    | none          => (none, x)
    | some deadline => reply (fun b => some (boolReply b)) (x.setTtl deadline)

/-- The key of a command that writes one key, and what it does to that key's cell. -/
def exec (ex : Executor) (env : Env) : Command → Option (String × (Cell → Reply × Cell))
  | .set key value condition expiry g =>
      some (key, set ex env.clock value condition expiry g)
  | .getDel key =>
      some (key, fun x => reply (fun r => some (replyOf .bulkString r))
        (x.getDelString env.clock.mono))
  | .lPush key elements => some (key, pushLoop env.clock.mono true Store.pushFront elements 0)
  | .rPush key elements => some (key, pushLoop env.clock.mono true Store.pushBack elements 0)
  | .lPushX key elements => some (key, pushLoop env.clock.mono false Store.pushFront elements 0)
  | .rPushX key elements => some (key, pushLoop env.clock.mono false Store.pushBack elements 0)
  | .lPop key count =>
      some (key, fun x => reply (Option.map (replyOf (Executor.popReply count.isSome)))
        (x.pop env.clock.mono (count.getD 1) Store.popFront))
  | .rPop key count =>
      some (key, fun x => reply (Option.map (replyOf (Executor.popReply count.isSome)))
        (x.pop env.clock.mono (count.getD 1) Store.popBack))
  | .lSet key index element =>
      some (key, fun x => reply (fun r => some (replyOf (fun _ => okReply) r))
        (x.lset env.clock.mono index.toInt element))
  | .sAdd key members =>
      some (key, fun x => reply (fun r => some (replyOf (fun n => .integer (Int.ofNat n)) r))
        (x.sadd env.clock.mono members))
  | .sPop key count =>
      some (key, fun x => reply (fun r => some (replyOf (Executor.spopReply count.isSome) r))
        (x.spop env.clock.mono env.draws count))
  | .sRem key members =>
      some (key, fun x => reply (fun r => some (replyOf (fun n => .integer (Int.ofNat n)) r))
        (x.srem env.clock.mono members))
  | .persist key => some (key, fun x => reply (fun b => some (boolReply b)) x.persist)
  | .expire key seconds => some (key, expireIn env.clock (Duration.fromSecs seconds.toNat))
  | .pExpire key milliseconds =>
      some (key, expireIn env.clock (Duration.fromMillis milliseconds.toNat))
  | .expireAt key deadlineSecs =>
      some (key, expireBy (deadlineSecs.toNat ≤ env.clock.nowSecs)
        (Executor.unixSecsToInstant env.clock deadlineSecs))
  | .pExpireAt key deadlineMs =>
      some (key, expireBy (deadlineMs.toNat ≤ env.clock.nowMillis)
        (Executor.unixMsToInstant env.clock deadlineMs))
  | _ => none

end Cell

/-! ### The executor computes them -/

section Runs

variable (ex : Executor) (env : Env) (s : StoreInner) (key : String)

/-- The meaning of a call at an environment. -/
abbrev Env.apply : (op : StoreOp) → StoreInner → op.Res × StoreInner :=
  StoreOp.apply env.clock.mono env.draws

theorem setDeadline_of_ne {c : Clock} {expiry : Option SetExpiry} (h : expiry ≠ some .keepTtl)
    (o o' : Option Instant) :
    Executor.setDeadline c expiry o = Executor.setDeadline c expiry o' := by
  rcases expiry with _ | _ | _ | _ | _ | _ <;> first | rfl | exact absurd rfl h

theorem run_setExpire (deadline : Outcome String (Option Instant)) (r : RespValue)
    (v : String) :
    (Executor.setExpire key deadline r).run env.apply (s.setCell key (Cell.setString v)) =
      match deadline with
      | .panic       => (none, s.setCell key (Cell.setString v))
      | .err text    => (some (.simpleError text), s.setCell key (Cell.setString v))
      | .ok deadline => (some r, s.setCell key { Cell.setString v with deadline := deadline }) := by
  unfold Executor.setExpire
  split
  · rfl
  · rfl
  · rfl
  · show (some r, (Env.apply env (.setTtl key _) _).2) = _
    rw [Env.apply, apply_setTtl, keyed_at, cell_setCell_self, setCell_setCell]
    rfl

theorem run_setWrite (value : String) (expiry : Option SetExpiry) (r : RespValue) :
    (Executor.setWrite env.clock key value expiry r).run env.apply s =
      match Executor.setDeadline env.clock expiry (s.cell key).deadline with
      | .panic       => (none, s.setCell key (Cell.setString value))
      | .err text    => (some (.simpleError text), s.setCell key (Cell.setString value))
      | .ok deadline =>
          (some r, s.setCell key { Cell.setString value with deadline := deadline }) := by
  unfold Executor.setWrite
  split
  · rw [Prog.invoke_bind, Prog.run_call, Env.apply, apply_getTtl, Prog.invoke_bind, Prog.run_call,
      apply_setString]
    exact run_setExpire env s key _ r value
  · next h =>
      rw [Prog.invoke_bind, Prog.run_call, Env.apply, apply_setString,
        setDeadline_of_ne h (s.cell key).deadline none]
      exact run_setExpire env s key _ r value

theorem run_set (value : String) (condition : Option SetCondition) (expiry : Option SetExpiry)
    (g : Bool) :
    (ex.set env.clock key value condition expiry g).run env.apply s =
      keyed.at key (Cell.set ex env.clock value condition expiry g) s := by
  unfold Executor.set
  rw [Prog.invoke_bind, Prog.run_call, Env.apply, apply_getString, keyed_at, Cell.set]
  cases Store.asString ((s.cell key).live env.clock.mono) with
  | error e => simp
  | ok prev =>
      dsimp only
      split
      · rw [run_setWrite]
        cases Executor.setDeadline env.clock expiry (s.cell key).deadline <;> rfl
      · simp

theorem run_pushLoop {call : String → String → StoreProg (Except StoreError Nat)} {now : Instant}
    {createIfMissing : Bool} {pushFn : List String → String → List String}
    (hcall : ∀ s element, (call key element).run env.apply s =
      keyed.at key (Cell.push now element createIfMissing pushFn) s)
    (elements : List String) (size : Nat) :
    (Executor.pushLoop call key elements size).run env.apply s =
      keyed.at key (Cell.pushLoop now createIfMissing pushFn elements size) s := by
  induction elements generalizing s size with
  | nil => simp [Executor.pushLoop, keyed_at, Cell.pushLoop]
  | cons element elements ih =>
      rw [Executor.pushLoop, Prog.run_bind, hcall]
      simp only [keyed_at, Cell.pushLoop]
      cases h : Cell.push now element createIfMissing pushFn (s.cell key) with
      | mk r x =>
          cases r with
          | error e => rfl
          | ok n =>
              dsimp only
              rw [ih, keyed_at, cell_setCell_self, setCell_setCell]

theorem run_expireIn (d : Duration) :
    (Executor.expireIn env.clock key d).run env.apply s =
      keyed.at key (Cell.expireIn env.clock d) s := by
  simp only [Executor.expireIn, keyed_at, Cell.expireIn]
  cases env.clock.mono.checkedAdd d with
  | none => simp
  | some deadline =>
      dsimp only
      rw [Prog.invoke_bind, Prog.run_call, Env.apply, apply_setTtl]
      rfl

theorem run_expireBy (past : Bool) (deadline : Option Instant) :
    (Executor.expireBy key past deadline).run env.apply s =
      keyed.at key (Cell.expireBy past deadline) s := by
  simp only [Executor.expireBy, keyed_at, Cell.expireBy]
  split
  · rw [Prog.invoke_bind, Prog.run_call, Env.apply, apply_delete]
    rfl
  · cases deadline with
    | none => simp
    | some deadline =>
        dsimp only
        rw [Prog.invoke_bind, Prog.run_call, Env.apply, apply_setTtl]
        rfl

/-- A command of a single call, whose reply is made from the result. -/
theorem run_call_at (op : StoreOp) {g : Cell → op.Res × Cell}
    (h : env.apply op s = keyed.at key g s) (f : op.Res → Reply) :
    (Prog.call op fun r => .ret (f r)).run env.apply s =
      keyed.at key (fun x => Cell.reply f (g x)) s := by
  rw [Prog.run_call, h]
  rfl

/-- **A command on one key** is its function on that key's cell. -/
theorem exec_eq_at {cmd : Command} {key : String} {g : Cell → Reply × Cell}
    (h : Cell.exec ex env cmd = some (key, g)) : ex.exec env cmd s = keyed.at key g s := by
  cases cmd with
  | set key value condition expiry get => cases h; exact run_set ex env s key _ _ _ _
  | lPush key elements =>
      cases h
      refine run_pushLoop env s key (fun s e => ?_) elements 0
      exact apply_lpush env.clock.mono env.draws s key e
  | rPush key elements =>
      cases h
      refine run_pushLoop env s key (fun s e => ?_) elements 0
      exact apply_rpush env.clock.mono env.draws s key e
  | lPushX key elements =>
      cases h
      refine run_pushLoop env s key (fun s e => ?_) elements 0
      exact apply_lpushx env.clock.mono env.draws s key e
  | rPushX key elements =>
      cases h
      refine run_pushLoop env s key (fun s e => ?_) elements 0
      exact apply_rpushx env.clock.mono env.draws s key e
  | expire key seconds => cases h; exact run_expireIn env s key _
  | pExpire key milliseconds => cases h; exact run_expireIn env s key _
  | expireAt key deadlineSecs => cases h; exact run_expireBy env s key _ _
  | pExpireAt key deadlineMs => cases h; exact run_expireBy env s key _ _
  | getDel key =>
      cases h
      exact run_call_at env s key (.getDelString key)
        (apply_getDelString env.clock.mono env.draws s key) _
  | lPop key count =>
      cases h
      exact run_call_at env s key (.lpop key (count.getD 1))
        (popInner_eq env.clock.mono s key _ _) _
  | rPop key count =>
      cases h
      exact run_call_at env s key (.rpop key (count.getD 1))
        (popInner_eq env.clock.mono s key _ _) _
  | lSet key index element =>
      cases h
      exact run_call_at env s key (.lset key index element) (lset_eq env.clock.mono s key _ _) _
  | sAdd key members =>
      cases h
      exact run_call_at env s key (.sadd key members) (sadd_eq env.clock.mono s key _) _
  | sPop key count =>
      cases h
      exact run_call_at env s key (.spop key count) (spop_eq env.clock.mono env.draws s key _) _
  | sRem key members =>
      cases h
      exact run_call_at env s key (.srem key members) (srem_eq env.clock.mono s key _) _
  | persist key =>
      cases h
      exact run_call_at env s key (.persist key) (apply_persist env.clock.mono env.draws s key) _
  | _ => cases h

/-! ### Commands on several keys -/

theorem cell_deleteBulk (keys : List String) (k : String) :
    (Store.deleteBulk s keys).cell k = if k ∈ keys then Cell.empty else s.cell k := by
  rw [deleteBulk_eq]
  induction keys generalizing s with
  | nil => simp
  | cons key keys ih =>
      rw [List.foldl_cons, ih, cell_setCell]
      by_cases hk : k ∈ keys <;> by_cases he : k = key <;> simp [hk, he]

/-- How many of the keys DEL finds; a key listed twice is found once. -/
def deletedCount : List String → StoreInner → Nat
  | [],          _ => 0
  | key :: keys, s =>
      (s.cell key).value.isSome.toNat + deletedCount keys (s.setCell key Cell.empty)

theorem deletedCount_eq_zero {keys : List String} {s : StoreInner} (h : deletedCount keys s = 0) :
    ∀ k ∈ keys, (s.cell k).value = none := by
  induction keys generalizing s with
  | nil => simp
  | cons key keys ih =>
      obtain ⟨h₁, h₂⟩ := Nat.add_eq_zero_iff.mp h
      have hkey : (s.cell key).value = none := by
        cases hv : (s.cell key).value with
        | none => rfl
        | some v => rw [hv] at h₁; cases h₁
      intro k hk
      by_cases he : k = key
      · rw [he, hkey]
      · have := ih h₂ k ((List.mem_cons.mp hk).resolve_left he)
        rwa [cell_setCell_ne s _ he] at this

theorem run_deleteLoop (keys : List String) :
    (Executor.deleteLoop keys).run env.apply s =
      (deletedCount keys s, Store.deleteBulk s keys) := by
  induction keys generalizing s with
  | nil => rfl
  | cons key keys ih =>
      have hstep : env.apply (.delete key) s =
          ((s.cell key).value.isSome, s.setCell key Cell.empty) := apply_delete _ _ s key
      rw [Executor.deleteLoop, Prog.invoke_bind, Prog.run_call, hstep, Prog.run_bind, ih]
      simp [deleteBulk_eq, deletedCount]

theorem exec_delete (keys : List String) :
    ex.exec env (.delete keys) s =
      (some (.integer (deletedCount keys s)), Store.deleteBulk s keys) := by
  show ((Executor.deleteLoop keys) >>= fun count => Prog.ret (some (RespValue.integer count))).run
    env.apply s = _
  rw [Prog.run_bind, run_deleteLoop]
  rfl

theorem exec_mSet (items : List (String × String)) :
    ex.exec env (.mSet items) s = (some okReply, Store.mset s items) := rfl

theorem exec_flushDb (mode : Option FlushMode) :
    ex.exec env (.flushDb mode) s = (some okReply, Store.new) := by
  show (ex.flushDb mode).run env.apply s = _
  unfold Executor.flushDb
  rcases mode with _ | _ | _
  · cases ex.lazyfreeLazyUserFlush <;> rfl
  · rfl
  · rfl

theorem exec_sMove (source destination member : String) :
    ex.exec env (.sMove source destination member) s =
      let moved := Store.smove s env.clock.mono env.clock.mono env.clock.mono env.clock.mono
        source destination member
      (moved.1.map (replyOf boolReply), moved.2) := rfl

end Runs

/-! ### EXISTS of one key -/

section

variable {ex : Executor} {env : Env} {s : StoreInner} {key : String}

theorem exec_exists_one :
    (ex.exec env (.exists [key]) s).1 =
      some (.integer (((s.cell key).live env.clock.mono).isSome.toNat)) := by
  show some (RespValue.integer (Bool.toNat
    (StoreOp.apply env.clock.mono env.draws (.exists key) s).1 + 0 : Nat)) = _
  rw [apply_exists]
  rfl

theorem exec_exists_zero_iff :
    (ex.exec env (.exists [key]) s).1 = some (.integer 0) ↔
      (s.cell key).live env.clock.mono = none := by
  rw [exec_exists_one]
  cases (s.cell key).live env.clock.mono <;> simp

theorem exec_exists_one_iff :
    (ex.exec env (.exists [key]) s).1 = some (.integer 1) ↔
      ((s.cell key).live env.clock.mono).isSome := by
  rw [exec_exists_one]
  cases (s.cell key).live env.clock.mono <;> simp

end

end Thesaurus
