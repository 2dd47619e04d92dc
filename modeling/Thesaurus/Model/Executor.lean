import Thesaurus.Model.Command
import Thesaurus.Model.StoreOps

/-!
# Model — Executor

`executor/`: each command as a program of store calls that ends in a reply.  The lock is free
between two calls, so another client may come in there; `Executor.exec` is a command that runs
alone.  A reply is `none` when the command panics.

`xxh3_64` is a function of another crate, and the executor has it as a field.
-/

namespace Thesaurus
open Bytes Atomic Atomic.Prog

/-- Bridges commands to the store. -/
structure Executor where
  lazyfreeLazyUserFlush : Bool
  xxh3_64 : Bytes → UInt64

/-- What one execution reads from outside the store. -/
structure Env where
  clock : Clock
  draws : Draws

/-- An executor whose digests are all zero. -/
def Executor.plain : Executor := ⟨false, fun _ => 0⟩

/-- Sorted draws, and the clocks `t` nanoseconds after a start at `epoch`. -/
def Env.at (epoch t : Nat) : Env := ⟨Clock.at epoch t, Draws.sorted⟩

/-- The reply of a command; `none` is a panic. -/
abbrev Reply : Type := Option RespValue

/-- `Display` of `StoreError`. -/
def StoreError.display : StoreError → String
  | .wrongType  => "WRONGTYPE Operation against a key holding the wrong kind of value"
  | .outOfIndex => "ERR index out of range"
  | .noSuchKey  => "ERR No such key"

/-- `RespValue::SimpleError(e.to_string())`. -/
def errorReply (e : StoreError) : RespValue := .simpleError e.display

/-- `RespValue::SimpleString("OK")`. -/
def okReply : RespValue := .simpleString "OK"

/-- An array of bulk strings. -/
def bulkReply (items : List String) : RespValue :=
  .array (some (items.map fun s => .bulkString (some s)))

/-- The reply to a call that returns a value or an error. -/
def replyOf {α : Type} (f : α → RespValue) : Except StoreError α → RespValue
  | .ok a    => f a
  | .error e => errorReply e

/-- `b as i64`. -/
def boolReply (b : Bool) : RespValue := .integer b.toNat

namespace Executor

variable (ex : Executor) (c : Clock)

/-! ### Keys and deadlines -/

/-- `Executor::ping`. -/
def ping : Option String → StoreProg Reply
  | none     => return some (.simpleString "PONG")
  | some msg => return some (.bulkString (some msg))

/-- The sum of `store.delete(k)` over the keys. -/
def deleteLoop : List String → StoreProg Nat
  | []        => return 0
  | k :: keys => do
      let deleted ← invoke (.delete k)
      let count ← deleteLoop keys
      return Bool.toNat deleted + count

/-- `Executor::delete`. -/
def delete (keys : List String) : StoreProg Reply := do
  return some (.integer (← deleteLoop keys))

/-- The sum of `store.exists(k)` over the keys. -/
def existsLoop : List String → StoreProg Nat
  | []        => return 0
  | k :: keys => do
      let found ← invoke (.exists k)
      let count ← existsLoop keys
      return Bool.toNat found + count

/-- `Executor::exists`. -/
def «exists» (keys : List String) : StoreProg Reply := do
  return some (.integer (← existsLoop keys))

/-- `Executor::resolve_expiry`. -/
def resolveExpiry (key : String) (f : Duration → Int) : StoreProg Reply := do
  let expiry ← invoke (.getTtl key)
  match (expiry : Option Instant) with
  | some instant =>
      match instant.checkedDurationSince c.mono with
      | some remaining => return some (.integer (f remaining))
      | none           => return some (.integer (-2))
  | none => do
      let found ← invoke (.exists key)
      return some (.integer (if found then -1 else -2))

/-- `Executor::ttl`. -/
def ttl (key : String) : StoreProg Reply := resolveExpiry c key fun r => toI64 r.asSecs

/-- `Executor::pttl`. -/
def pttl (key : String) : StoreProg Reply := resolveExpiry c key fun r => toI64 r.asMillis

/-- `Executor::expire_time`.  The `i64` sum wraps in a release build. -/
def expireTime (key : String) : StoreProg Reply :=
  resolveExpiry c key fun r => toI64 (toI64 c.nowSecs + toI64 r.asSecs)

/-- `Executor::pexpire_time`. -/
def pexpireTime (key : String) : StoreProg Reply :=
  resolveExpiry c key fun r => toI64 (toI64 c.wall.asMillis + toI64 r.asMillis)

/-- `Executor::persist`. -/
def persist (key : String) : StoreProg Reply := do
  let removed ← invoke (.persist key)
  return some (boolReply removed)

/-- The body of `Executor::expire` and `Executor::pexpire` after the conversion of the
argument. -/
def expireIn (key : String) (d : Duration) : StoreProg Reply :=
  match c.mono.checkedAdd d with
  | none          => return some (.simpleError "ERR invalid expire time in 'expire' command")
  | some deadline => do
      let set ← invoke (.setTtl key deadline)
      return some (boolReply set)

/-- `Executor::expire`. -/
def expire (key : String) (seconds : UInt64) : StoreProg Reply :=
  expireIn c key (Duration.fromSecs seconds.toNat)

/-- `Executor::pexpire`. -/
def pexpire (key : String) (milliseconds : UInt64) : StoreProg Reply :=
  expireIn c key (Duration.fromMillis milliseconds.toNat)

/-- `Executor::unix_secs_to_instant`.  `Instant + Duration` panics on overflow. -/
def unixSecsToInstant (deadlineSecs : UInt64) : Option Instant :=
  c.mono.checkedAdd (Duration.fromSecs (deadlineSecs.toNat - c.nowSecs))

/-- `Executor::unix_ms_to_instant`. -/
def unixMsToInstant (deadlineMs : UInt64) : Option Instant :=
  c.mono.checkedAdd (Duration.fromMillis (deadlineMs.toNat - c.nowMillis))

/-- The body of `Executor::expire_at` and `Executor::pexpire_at`: a deadline that has passed
deletes the key. -/
def expireBy (key : String) (past : Bool) (deadline : Option Instant) : StoreProg Reply :=
  if past then do
    let _ ← invoke (.delete key)
    return some (.integer 0)
  else
    match deadline with
    | none          => return none
    | some deadline => do
        let set ← invoke (.setTtl key deadline)
        return some (boolReply set)

/-- `Executor::expire_at`. -/
def expireAt (key : String) (deadlineSecs : UInt64) : StoreProg Reply :=
  expireBy key (deadlineSecs.toNat ≤ c.nowSecs) (unixSecsToInstant c deadlineSecs)

/-- `Executor::pexpire_at`. -/
def pexpireAt (key : String) (deadlineMs : UInt64) : StoreProg Reply :=
  expireBy key (deadlineMs.toNat ≤ c.nowMillis) (unixMsToInstant c deadlineMs)

/-- `Executor::keys`. -/
def keys (pattern : String) : StoreProg Reply := do
  let found ← invoke (.keys (utf8 pattern))
  return some (bulkReply found)

/-- `Executor::select`. -/
def select (index : UInt8) : StoreProg Reply :=
  if index ≠ 0 then return some (.simpleError "ERR DB index is out of range")
  else return some okReply

/-- `Executor::db_size`. -/
def dbSize : StoreProg Reply := do
  let size ← invoke .size
  return some (.integer (Int.ofNat size))

/-- `Executor::flush_db`. -/
def flushDb (mode : Option FlushMode) : StoreProg Reply := do
  match mode with
  | some .sync  => let _ ← invoke .clear
  | some .async => let _ ← invoke .clearAsync
  | none        =>
      if ex.lazyfreeLazyUserFlush then let _ ← invoke .clearAsync else let _ ← invoke .clear
  return some okReply

/-! ### Strings -/

/-- `Executor::digest_value`. -/
def digestValue (v : String) : UInt64 := ex.xxh3_64 (utf8 v)

/-- `Executor::get`. -/
def get (key : String) : StoreProg Reply := do
  let value ← invoke (.getString key)
  return some (replyOf .bulkString value)

/-- `condition_met` of `Executor::set`. -/
def conditionMet (condition : Option SetCondition) (prev : Option String) : Bool :=
  match condition with
  | none            => true
  | some .nx        => prev.isNone
  | some .xx        => prev.isSome
  | some (.ifEq s)  => prev.any fun v => v == s
  | some (.ifNe s)  => prev.any fun v => v != s
  | some (.ifDeq u) => prev.any fun v => ex.digestValue v == u
  | some (.ifDne u) => prev.any fun v => ex.digestValue v != u

/-- The match of `Executor::set` on its expiry: the deadline to set, if any, or the error that
ends the command. -/
def setDeadline (expiry : Option SetExpiry) (prevTtl : Option Instant) :
    Outcome String (Option Instant) :=
  match expiry with
  | none             => .ok none
  | some (.ex secs)  =>
      match c.mono.checkedAdd (Duration.fromSecs secs.toNat) with
      | none          => .err "ERR invalid expire time in 'set' command"
      | some deadline => .ok (some deadline)
  | some (.px millis) =>
      match c.mono.checkedAdd (Duration.fromMillis millis.toNat) with
      | none          => .err "ERR invalid expire time in 'set' command"
      | some deadline => .ok (some deadline)
  | some (.exAt deadlineSecs) =>
      match unixSecsToInstant c deadlineSecs with
      | none          => .panic
      | some deadline => .ok (some deadline)
  | some (.pxAt deadlineMs) =>
      match unixMsToInstant c deadlineMs with
      | none          => .panic
      | some deadline => .ok (some deadline)
  | some .keepTtl => .ok prevTtl

/-- The reply of `Executor::set` when no error ended it. -/
def setReply (get met : Bool) (prev : Option String) : RespValue :=
  if get then .bulkString prev else if met then okReply else .bulkString none

/-- The part of `Executor::set` after `set_string`. -/
def setExpire (key : String) (deadline : Outcome String (Option Instant)) (reply : RespValue) :
    StoreProg Reply :=
  match deadline with
  | .panic        => return none
  | .err text     => return some (.simpleError text)
  | .ok none      => return some reply
  | .ok (some d)  => do
      let _ ← invoke (.setTtl key d)
      return some reply

/-- The part of `Executor::set` under `if condition_met`. -/
def setWrite (key value : String) (expiry : Option SetExpiry) (reply : RespValue) :
    StoreProg Reply :=
  match expiry with
  | some .keepTtl => do
      let prevTtl ← invoke (.getTtl key)
      let _ ← invoke (.setString key value)
      setExpire key (setDeadline c expiry prevTtl) reply
  | _ => do
      let _ ← invoke (.setString key value)
      setExpire key (setDeadline c expiry none) reply

/-- `Executor::set`. -/
def set (key value : String) (condition : Option SetCondition) (expiry : Option SetExpiry)
    (get : Bool) : StoreProg Reply := do
  let found ← invoke (.getString key)
  match (found : Except StoreError (Option String)) with
  | .error e => return some (errorReply e)
  | .ok prev =>
      if ex.conditionMet condition prev then
        setWrite c key value expiry (setReply get true prev)
      else return some (setReply get false prev)

/-- `Executor::get_del`. -/
def getDel (key : String) : StoreProg Reply := do
  let value ← invoke (.getDelString key)
  return some (replyOf .bulkString value)

/-- `Executor::mget`. -/
def mget (keys : List String) : StoreProg Reply := do
  let values ← invoke (.mget keys)
  return some (.array (some (List.map .bulkString values)))

/-- `Executor::mset`. -/
def mset (items : List (String × String)) : StoreProg Reply := do
  let _ ← invoke (.mset items)
  return some okReply

/-- `Executor::strlen`: the length in bytes. -/
def strlen (key : String) : StoreProg Reply := do
  let value ← invoke (.getString key)
  return some (replyOf (fun v => .integer ((v.map fun s => (utf8 s).length).getD 0)) value)

/-- `format!("{:016x}", n)`. -/
def hex16 (n : UInt64) : String :=
  String.ofList ((Nat.toDigits 16 n.toNat).leftpad 16 '0')

/-- `Executor::digest`. -/
def digest (key : String) : StoreProg Reply := do
  let value ← invoke (.getString key)
  return some (replyOf (fun v => .bulkString (v.map fun s => hex16 (ex.digestValue s))) value)

/-! ### Lists -/

/-- `Executor::push_inner`: one call of the store for each element. -/
def pushLoop (pushFn : String → String → StoreProg (Except StoreError Nat)) (key : String) :
    List String → Nat → StoreProg Reply
  | [],                  size => return some (.integer size)
  | element :: elements, _    => do
      match ← pushFn key element with
      | .ok n    => pushLoop pushFn key elements n
      | .error e => return some (errorReply e)

/-- `Executor::lpush`. -/
def lpush (key : String) (elements : List String) : StoreProg Reply :=
  pushLoop (fun key element => invoke (StoreOp.lpush key element)) key elements 0

/-- `Executor::rpush`. -/
def rpush (key : String) (elements : List String) : StoreProg Reply :=
  pushLoop (fun key element => invoke (StoreOp.rpush key element)) key elements 0

/-- `Executor::lpushx`. -/
def lpushx (key : String) (elements : List String) : StoreProg Reply :=
  pushLoop (fun key element => invoke (StoreOp.lpushx key element)) key elements 0

/-- `Executor::rpushx`. -/
def rpushx (key : String) (elements : List String) : StoreProg Reply :=
  pushLoop (fun key element => invoke (StoreOp.rpushx key element)) key elements 0

/-- The match of `Executor::pop_inner` on what the store returned. -/
def popReply (hasCount : Bool) : Option (List String) → RespValue
  | some elements => if hasCount then bulkReply elements else .bulkString elements.head?
  | none          => .bulkString none

/-- `Executor::lpop`. -/
def lpop (key : String) (count : Option UInt64) : StoreProg Reply := do
  let popped ← invoke (.lpop key (count.getD 1))
  return Option.map (replyOf (popReply count.isSome)) popped

/-- `Executor::rpop`. -/
def rpop (key : String) (count : Option UInt64) : StoreProg Reply := do
  let popped ← invoke (.rpop key (count.getD 1))
  return Option.map (replyOf (popReply count.isSome)) popped

/-- `Executor::lset`. -/
def lset (key : String) (index : Int64) (element : String) : StoreProg Reply := do
  let done ← invoke (.lset key index element)
  return some (replyOf (fun _ => okReply) done)

/-- `Executor::llen`. -/
def llen (key : String) : StoreProg Reply := do
  let len ← invoke (.llen key)
  return some (replyOf (fun n => .integer (Int.ofNat n)) len)

/-- `Executor::lindex`. -/
def lindex (key : String) (index : Int64) : StoreProg Reply := do
  let element ← invoke (.lindex key index)
  return some (replyOf .bulkString element)

/-- `Executor::lrange`. -/
def lrange (key : String) (start stop : Int64) : StoreProg Reply := do
  let elements ← invoke (.lrange key start stop)
  return some (replyOf bulkReply elements)

/-! ### Sets -/

/-- `Executor::sadd`. -/
def sadd (key : String) (members : List String) : StoreProg Reply := do
  let added ← invoke (.sadd key members)
  return some (replyOf (fun n => .integer (Int.ofNat n)) added)

/-- `Executor::smembers`. -/
def smembers (key : String) : StoreProg Reply := do
  let members ← invoke (.smembers key)
  return some (replyOf bulkReply members)

/-- `Executor::sismember`. -/
def sismember (key member : String) : StoreProg Reply := do
  let found ← invoke (.sismember key member)
  return some (replyOf boolReply found)

/-- `Executor::smismember`. -/
def smismember (key : String) (members : List String) : StoreProg Reply := do
  let flags ← invoke (.smismember key members)
  return some (replyOf (fun flags => .array (some (flags.map boolReply))) flags)

/-- The replies of SRANDMEMBER and SPOP: an array when a count was given, else the last of the
members taken. -/
def membersReply (hasCount : Bool) (members : List String) : RespValue :=
  if hasCount then bulkReply members else .bulkString members.getLast?

/-- `Executor::srandmember`. -/
def srandmember (key : String) (count : Option Int64) : StoreProg Reply := do
  let amount := count.map fun c => c.toInt.natAbs
  let allowRepetition := count.any fun c => c < 0
  let members ← invoke (.srandmember key amount allowRepetition)
  return Option.map (replyOf (membersReply count.isSome)) members

/-- `Executor::scard`. -/
def scard (key : String) : StoreProg Reply := do
  let card ← invoke (.scard key)
  return some (replyOf (fun n => .integer (Int.ofNat n)) card)

/-- `Executor::smove`. -/
def smove (source destination member : String) : StoreProg Reply := do
  let moved ← invoke (.smove source destination member)
  return Option.map (replyOf boolReply) moved

/-- The match of `Executor::spop` on what the store returned. -/
def spopReply (hasCount : Bool) : Option (List String) → RespValue
  | none         => if hasCount then .array (some []) else .bulkString none
  | some members => membersReply hasCount members

/-- `Executor::spop`. -/
def spop (key : String) (count : Option UInt64) : StoreProg Reply := do
  let members ← invoke (.spop key count)
  return some (replyOf (spopReply count.isSome) members)

/-- `Executor::srem`. -/
def srem (key : String) (members : List String) : StoreProg Reply := do
  let removed ← invoke (.srem key members)
  return some (replyOf (fun n => .integer (Int.ofNat n)) removed)

/-! ### Dispatch -/

/-- `Executor::execute`: the store calls of a command, with its reply. -/
def execute : Command → StoreProg Reply
  | .ping message                      => ping message
  | .get key                           => get key
  | .set key value condition expiry g  => ex.set c key value condition expiry g
  | .delete keys                       => delete keys
  | .getDel key                        => getDel key
  | .exists keys                       => «exists» keys
  | .mGet keys                         => mget keys
  | .mSet items                        => mset items
  | .strLen key                        => strlen key
  | .lPush key elements                => lpush key elements
  | .rPush key elements                => rpush key elements
  | .lPushX key elements               => lpushx key elements
  | .rPushX key elements               => rpushx key elements
  | .lPop key count                    => lpop key count
  | .rPop key count                    => rpop key count
  | .lSet key index element            => lset key index element
  | .lLen key                          => llen key
  | .lIndex key index                  => lindex key index
  | .lRange key start stop             => lrange key start stop
  | .sAdd key members                  => sadd key members
  | .sMembers key                      => smembers key
  | .sIsMember key member              => sismember key member
  | .sMIsMember key members            => smismember key members
  | .sRandMember key count             => srandmember key count
  | .sCard key                         => scard key
  | .sMove source destination member   => smove source destination member
  | .sPop key count                    => spop key count
  | .sRem key members                  => srem key members
  | .ttl key                           => ttl c key
  | .pTtl key                          => pttl c key
  | .expireTime key                    => expireTime c key
  | .pExpireTime key                   => pexpireTime c key
  | .persist key                       => persist key
  | .expire key seconds                => expire c key seconds
  | .pExpire key milliseconds          => pexpire c key milliseconds
  | .expireAt key deadlineSecs         => expireAt c key deadlineSecs
  | .pExpireAt key deadlineMs          => pexpireAt c key deadlineMs
  | .keys pattern                      => keys pattern
  | .digest key                        => ex.digest key
  | .select index                      => select index
  | .dbSize                            => dbSize
  | .flushDb mode                      => ex.flushDb mode

/-- A command that runs alone, at one reading of the clocks. -/
def exec (env : Env) (cmd : Command) (s : StoreInner) : Reply × StoreInner :=
  (ex.execute env.clock cmd).run (StoreOp.apply env.clock.mono env.draws) s

end Executor

end Thesaurus
