import Thesaurus.Support.Atomic
import Thesaurus.Model.Store

/-!
# Model — Store calls

The public methods of `Store` as the atomic calls of a program: each takes the lock once, runs
and releases it.  `StoreOp` names a call with its arguments, `StoreOp.Res` is the type of its
result, and `StoreOp.apply` runs it at one reading of the clock.
-/

namespace Thesaurus

/-- A call of a public method of `Store`. -/
inductive StoreOp where
  | delete (key : String)
  | exists (key : String)
  | getTtl (key : String)
  | setTtl (key : String) (ttl : Instant)
  | persist (key : String)
  | sampleEvictionIndex (n : Nat)
  | deleteBulk (keys : List String)
  | keys (pattern : Bytes)
  | size
  | clear
  | clearAsync
  | getString (key : String)
  | setString (key value : String)
  | getDelString (key : String)
  | mget (keys : List String)
  | mset (items : List (String × String))
  | lpush (key element : String)
  | rpush (key element : String)
  | lpushx (key element : String)
  | rpushx (key element : String)
  | lpop (key : String) (count : UInt64)
  | rpop (key : String) (count : UInt64)
  | lset (key : String) (index : Int64) (element : String)
  | llen (key : String)
  | lindex (key : String) (index : Int64)
  | lrange (key : String) (start stop : Int64)
  | sadd (key : String) (members : List String)
  | smembers (key : String)
  | sismember (key member : String)
  | smismember (key : String) (members : List String)
  | srandmember (key : String) (count : Option Nat) (allowRepetition : Bool)
  | scard (key : String)
  | smove (source destination member : String)
  | spop (key : String) (count : Option UInt64)
  | srem (key : String) (members : List String)
  deriving DecidableEq

/-- What a call returns.  `Option` around an `Except` marks a call that can panic. -/
abbrev StoreOp.Res : StoreOp → Type
  | .delete _ | .exists _ | .setTtl .. | .persist _                   => Bool
  | .getTtl _                                                         => Option Instant
  | .sampleEvictionIndex _                                            => List (String × Instant)
  | .deleteBulk _ | .clear | .clearAsync | .setString .. | .mset _    => Unit
  | .keys _                                                           => List String
  | .size                                                             => Nat
  | .getString _ | .getDelString _ | .lindex ..                       =>
      Except StoreError (Option String)
  | .mget _                                                           => List (Option String)
  | .lpush .. | .rpush .. | .lpushx .. | .rpushx .. | .llen _ | .sadd .. | .scard _ | .srem ..  =>
      Except StoreError Nat
  | .lpop .. | .rpop ..                                               =>
      Option (Except StoreError (Option (List String)))
  | .lset ..                                                          => Except StoreError Unit
  | .lrange .. | .smembers _                                          =>
      Except StoreError (List String)
  | .sismember ..                                                     => Except StoreError Bool
  | .smismember ..                                                    =>
      Except StoreError (List Bool)
  | .srandmember ..                                                   =>
      Option (Except StoreError (List String))
  | .smove ..                                                         =>
      Option (Except StoreError Bool)
  | .spop ..                                                          =>
      Except StoreError (Option (List String))

/-- One atomic call, at the reading `now` of the monotonic clock. -/
def StoreOp.apply (now : Instant) (draws : Draws) :
    (op : StoreOp) → StoreInner → op.Res × StoreInner
  | .delete key,                   s => Store.delete s key
  | .exists key,                   s => (Store.exists s now key, s)
  | .getTtl key,                   s => (Store.getTtl s key, s)
  | .setTtl key ttl,               s => Store.setTtl s key ttl
  | .persist key,                  s => Store.persist s key
  | .sampleEvictionIndex n,        s => (Store.sampleEvictionIndex s draws n, s)
  | .deleteBulk ks,                s => ((), Store.deleteBulk s ks)
  | .keys pattern,                 s => (Store.keys s now draws pattern, s)
  | .size,                         s => (Store.size s, s)
  | .clear,                        s => ((), Store.clear s)
  | .clearAsync,                   s => ((), Store.clearAsync s)
  | .getString key,                s => (Store.getString s now key, s)
  | .setString key value,          s => ((), Store.setString s key value)
  | .getDelString key,             s => Store.getDelString s now key
  | .mget ks,                      s => (Store.mget s now ks, s)
  | .mset items,                   s => ((), Store.mset s items)
  | .lpush key element,            s => Store.lpush s now key element
  | .rpush key element,            s => Store.rpush s now key element
  | .lpushx key element,           s => Store.lpushx s now key element
  | .rpushx key element,           s => Store.rpushx s now key element
  | .lpop key count,               s => Store.lpop s now key count
  | .rpop key count,               s => Store.rpop s now key count
  | .lset key index element,       s => Store.lset s now key index.toInt element
  | .llen key,                     s => (Store.llen s now key, s)
  | .lindex key index,             s => (Store.lindex s now key index.toInt, s)
  | .lrange key start stop,        s => (Store.lrange s now key start.toInt stop.toInt, s)
  | .sadd key members,             s => Store.sadd s now key members
  | .smembers key,                 s => (Store.smembers s now draws key, s)
  | .sismember key member,         s => (Store.sismember s now draws key member, s)
  | .smismember key members,       s => (Store.smismember s now key members, s)
  | .srandmember key count rep,    s => (Store.srandmember s now draws key count rep, s)
  | .scard key,                    s => (Store.scard s now key, s)
  | .smove source destination m,   s => Store.smove s now now now now source destination m
  | .spop key count,               s => Store.spop s now draws key count
  | .srem key members,             s => Store.srem s now key members

/-- A program of calls of the store. -/
abbrev StoreProg (α : Type) := Atomic.Prog StoreOp.Res α

namespace StoreOp

/-- The calls that only read. -/
def isRead : StoreOp → Bool
  | .exists _ | .getTtl _ | .sampleEvictionIndex _ | .keys _ | .size | .getString _ | .mget _ => true
  | .llen _ | .lindex .. | .lrange .. | .smembers _ | .sismember .. | .smismember ..          => true
  | .srandmember .. | .scard _                                                                => true
  | _                                                                                         => false

theorem apply_of_isRead {op : StoreOp} (h : op.isRead = true) (now : Instant) (draws : Draws)
    (s : StoreInner) : (op.apply now draws s).2 = s := by
  cases op <;> first | rfl | cases h

end StoreOp

end Thesaurus
