import Thesaurus.Model.Executor

/-!
# Model — Handler

`handler.rs` and `aof.rs`: what a handler does with one decoded frame, the connection that
feeds it frames, and the replay of the AOF at startup.

* `handle` executes a frame and says what the handler appends to the AOF.
* `Session.step` is one turn of `run_handler` with the AOF on and the append in place.
* `World.step` is a step of the server: a connection executes a frame, or appends the entry it
  holds.  The two happen under different locks.
* `syncStoreWithAof` is the replay.
-/

namespace Thesaurus
open Bytes

/-- What a frame does to the store, and what its handler appends and replies. -/
structure Handled where
  /-- The reply to the client; `none` when the handler panicked. -/
  response : Reply
  store : StoreInner
  /-- The bytes appended to the AOF. -/
  entry : Option Bytes

/-- The reply to a frame that is not a command. -/
def errorResponse (unprintable : Char → Bool) : HandlerError → RespValue
  | .unknownCommand s => .simpleError ("ERR unknown command '" ++ s ++ "'")
  | e                 => .simpleError (e.display unprintable)

/-- The bytes a command is persisted as: relative deadlines are converted first. -/
def aofBytes (c : Clock) (frame : RespValue) : Command → Bytes
  | .expire key seconds       => convertExpireToPexpireat c.nowMillis key seconds
  | .pExpire key milliseconds => convertPexpireToPexpireat c.nowMillis key milliseconds
  | _                         => encode frame

/-- The test of `run_handler` before it appends. -/
def appends (cmd : Command) (response : RespValue) : Bool :=
  cmd.isWrite && !response.isSimpleError && !response.isIntegerZero

/-- One turn of `run_handler`, from the decoded frame to the reply. -/
def handle (ex : Executor) (unprintable : Char → Bool) (env : Env) (frame : RespValue)
    (s : StoreInner) : Handled :=
  match Command.fromResp2 frame with
  | .panic  => ⟨none, s, none⟩
  | .err e  => ⟨some (errorResponse unprintable e), s, none⟩
  | .ok cmd =>
      match ex.exec env cmd s with
      | (none, s)          => ⟨none, s, none⟩
      | (some response, s) =>
          ⟨some response, s,
            if appends cmd response then some (aofBytes env.clock frame cmd) else none⟩

/-! ### One connection -/

/-- A server with a single connection.  The connection is gone once its handler panicked. -/
structure Session where
  store : StoreInner
  aof : Bytes
  alive : Bool

/-- The session at startup: an empty store and an empty AOF. -/
def Session.start : Session := ⟨Store.new, [], true⟩

/-- One frame of the client. -/
def Session.step (ex : Executor) (unprintable : Char → Bool) (w : Session) (env : Env)
    (frame : RespValue) : Session :=
  if w.alive then
    let h := handle ex unprintable env frame w.store
    ⟨h.store, w.aof ++ h.entry.getD [], h.response.isSome⟩
  else w

/-- A run of frames, each with what its execution reads. -/
def Session.run (ex : Executor) (unprintable : Char → Bool) (w : Session) :
    List (Env × RespValue) → Session
  | []                   => w
  | (env, frame) :: tail => (w.step ex unprintable env frame).run ex unprintable tail

/-! ### Several connections -/

/-- Where a connection stands between two of its steps. -/
inductive ConnState where
  /-- Ready for its next frame. -/
  | idle
  /-- It has executed a frame and has still to append its entry. -/
  | holding (entry : Bytes)
  /-- Its handler panicked. -/
  | gone

/-- Where the execution of a frame leaves a connection. -/
def Handled.next (h : Handled) : ConnState :=
  match h.response, h.entry with
  | none,   _          => .gone
  | some _, some entry => .holding entry
  | some _, none       => .idle

/-- A server with a connection for each number. -/
structure World where
  store : StoreInner
  aof : Bytes
  conns : Nat → ConnState

/-- The server at startup. -/
def World.start : World := ⟨Store.new, [], fun _ => .idle⟩

/-- A step of the server. -/
inductive Event where
  /-- Connection `conn` executes a frame. -/
  | execute (conn : Nat) (env : Env) (frame : RespValue)
  /-- Connection `conn` appends the entry it holds. -/
  | append (conn : Nat)

/-- The steps of the server.  A connection executes its next frame after its last append. -/
inductive World.Step (ex : Executor) (unprintable : Char → Bool) :
    World → Event → World → Prop where
  | execute {w : World} (conn : Nat) (env : Env) (frame : RespValue)
      (idle : w.conns conn = .idle) :
      Step ex unprintable w (.execute conn env frame)
        { w with
          store := (handle ex unprintable env frame w.store).store
          conns := Function.update w.conns conn
            (handle ex unprintable env frame w.store).next }
  | append {w : World} (conn : Nat) (entry : Bytes) (held : w.conns conn = .holding entry) :
      Step ex unprintable w (.append conn)
        { w with aof := w.aof ++ entry, conns := Function.update w.conns conn .idle }

/-! ### Replay -/

/-- The loop of `sync_store_with_aof`; `envs i` is what the execution of the `i`-th entry reads.
Each entry takes at least one byte, so a bound above the length of the file is never reached. -/
def syncLoop (ex : Executor) : Nat → (Nat → Env) → Bytes → StoreInner →
    Outcome RespError StoreInner
  | 0,        _,    _,      _ => .panic
  | fuel + 1, envs, reader, s =>
      match decode reader with
      | .err .unexpectedEof   => .ok s
      | .err e                => .err e
      | .panic                => .panic
      | .ok (respValue, tail) =>
          match Command.fromResp2 respValue with
          | .err _  => syncLoop ex fuel envs tail s
          | .panic  => .panic
          | .ok cmd =>
              match ex.exec (envs 0) cmd s with
              | (some _, s) => syncLoop ex fuel (fun i => envs (i + 1)) tail s
              | (none, _)   => .panic

/-- `sync_store_with_aof`; `file` is the content of the AOF, if there is one. -/
def syncStoreWithAof (ex : Executor) (enabled : Bool) (envs : Nat → Env) (file : Option Bytes)
    (s : StoreInner) : Outcome RespError StoreInner :=
  if !enabled then .ok s
  else
    match file with
    | none       => .ok s
    | some bytes => syncLoop ex (bytes.length + 1) envs bytes s

end Thesaurus
