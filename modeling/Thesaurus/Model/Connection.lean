import Thesaurus.Support.Arrival
import Thesaurus.Model.Handler

/-!
# Model — Connection

`handler.rs` and `decode_async` on a socket, whose bytes arrive in pieces.  A future that waits for
bytes is a value: `Decoding` says at which read a call of `decode_async` is suspended, and inside
which loops of `parse_array`, each of which is a boxed future of its own.  `Connection` is
`run_handler` between two reads, and `run_handler` the reader that goes on with the bytes.

The store is the one of the only connection; what the `i`-th frame reads when it is executed is
`envs i`.
-/

namespace Thesaurus
open Bytes Arrival

/-- A loop of `parse_array` that waits for an element. -/
structure ArrayLoop where
  /-- The elements it has pushed. -/
  pushed : List RespValue
  /-- How many come after the one it waits for. -/
  left : Nat

/-- Where `decode_async` is suspended; the innermost loop is the first. -/
inductive Decoding where
  /-- At the `read_line` of a value. -/
  | line (loops : List ArrayLoop)
  /-- At the `read_exact` of a bulk string of `lengthValue` bytes. -/
  | body (lengthValue : Nat) (loops : List ArrayLoop)

/-- What a call of `decode_async` comes to when it goes on. -/
inductive Poll where
  | pending (d : Decoding)
  | ready (value : RespValue)

/-- A value is complete: it goes to the innermost loop, which may be complete with it. -/
def deliver (value : RespValue) : List ArrayLoop → Poll
  | []                             => .ready value
  | ⟨pushed, 0⟩ :: loops           => deliver (.array (some (pushed ++ [value]))) loops
  | ⟨pushed, left + 1⟩ :: loops    => .pending (.line (⟨pushed ++ [value], left⟩ :: loops))

/-- `parse_bulk_string` up to its read. -/
def beginBulkString (length : String) (loops : List ArrayLoop) : Outcome RespError Poll := do
  let lengthValue ← parseLength length
  if lengthValue = -1 then return deliver (.bulkString none) loops
  if lengthValue.toNat + 2 > 2 ^ 63 - 1 then .panic
  else return .pending (.body lengthValue.toNat loops)

/-- `parse_array` up to its first element. -/
def beginArray (length : String) (loops : List ArrayLoop) : Outcome RespError Poll := do
  let lengthValue ← parseLength length
  if lengthValue = -1 then return deliver (.array none) loops
  if lengthValue = 0 then return deliver (.array (some [])) loops
  return .pending (.line (⟨[], lengthValue.toNat - 1⟩ :: loops))

/-- `decode_async` from its `read_line` on. -/
def resumeLine (loops : List ArrayLoop) (line : Bytes) : Outcome RespError Poll :=
  if line = [] ∨ fromUtf8 line = none then .err .unexpectedEof
  else do
    let (firstByte, rest) ← parseHeader line
    if firstByte = 43 then return deliver (.simpleString rest) loops
    else if firstByte = 45 then return deliver (.simpleError rest) loops
    else if firstByte = 58 then
      match parseI64 rest with
      | some n => return deliver (.integer n) loops
      | none   => .err (.invalidInteger rest)
    else if firstByte = 36 then beginBulkString rest loops
    else if firstByte = 42 then beginArray rest loops
    else .err (.unknownPrefix (Char.ofNat firstByte.toNat))

/-- `parse_bulk_string` from its `read_exact` on, which fails on fewer bytes. -/
def resumeBody (lengthValue : Nat) (loops : List ArrayLoop) (secondPart : Bytes) :
    Outcome RespError Poll :=
  if secondPart.length < lengthValue + 2 then .err .unexpectedEof
  else do
    let value ← bulkStringFromBytes lengthValue secondPart
    return deliver value loops

/-- `decode_async` goes on with the bytes of its read. -/
def Decoding.resume : Decoding → Bytes → Outcome RespError Poll
  | .line loops             => resumeLine loops
  | .body lengthValue loops => resumeBody lengthValue loops

/-- How `run_handler` came to its end. -/
inductive Ending where
  /-- The client is gone: `Ok(())`. -/
  | disconnected
  /-- The decoder failed: `Err(e)`. -/
  | failed (e : RespError)
  /-- A panic ended the task. -/
  | panicked
  deriving DecidableEq

/-- The end that an error of the decoder brings about. -/
def Ending.of : RespError → Ending
  | .unexpectedEof => .disconnected
  | e              => .failed e

/-- What `run_handler` is at. -/
inductive Task where
  | decoding (d : Decoding)
  | ended (e : Ending)

/-- `run_handler` between two reads, with its store and its AOF. -/
structure Connection where
  store : StoreInner
  aof : Bytes
  /-- The bytes written to the client. -/
  sent : Bytes
  /-- How many frames were executed. -/
  served : Nat
  task : Task

/-- `run_handler` at its start. -/
def Connection.start (s : StoreInner) (aof : Bytes) : Connection :=
  ⟨s, aof, [], 0, .decoding (.line [])⟩

namespace Connection

variable (ex : Executor) (unprintable : Char → Bool) (envs : Nat → Env)

/-- The turn of the loop from a decoded frame to the reply, and on to the next frame. -/
def serve (w : Connection) (frame : RespValue) : Connection :=
  let h := handle ex unprintable (envs w.served) frame w.store
  { store := h.store
    aof := w.aof ++ h.entry.getD []
    sent := w.sent ++ (h.response.map encode).getD []
    served := w.served + 1
    task := if h.response.isSome then .decoding (.line []) else .ended .panicked }

/-- The decoder has come to a value or waits for more bytes. -/
def polled (w : Connection) : Poll → Connection
  | .pending d => { w with task := .decoding d }
  | .ready v   => w.serve ex unprintable envs v

/-- The call of the decoder has gone on, or has failed. -/
def resumed (w : Connection) : Outcome RespError Poll → Connection
  | .ok p  => w.polled ex unprintable envs p
  | .err e => { w with task := .ended (.of e) }
  | .panic => { w with task := .ended .panicked }

/-- The handler goes on with the bytes of its read. -/
def resume (w : Connection) (bytes : Bytes) : Connection :=
  match w.task with
  | .ended _    => w
  | .decoding d => w.resumed ex unprintable envs (d.resume bytes)

/-- The read the handler waits for. -/
def want (w : Connection) : Want :=
  match w.task with
  | .ended _             => .nothing
  | .decoding (.line _)   => .line
  | .decoding (.body n _) => .exact (n + 2)

/-- The end of the stream ends the handler. -/
theorem resume_nil (w : Connection) : (w.resume ex unprintable envs []).want = .nothing := by
  unfold resume
  split
  · next e he => simp [want, he]
  · next d hd =>
      have hr : d.resume [] = .err .unexpectedEof := by
        cases d with
        | line loops => rfl
        | body n loops =>
            rw [Decoding.resume, resumeBody]
            exact if_pos (Nat.succ_pos _)
      rw [hr]
      rfl

/-- `run_handler`. -/
def runHandler : Reader Connection where
  want := want
  take := resume ex unprintable envs
  exact_pos {w n} h := by
    unfold want at h
    split at h
    · cases h
    · cases h
    · cases h; omega
  take_nil := resume_nil ex unprintable envs

end Connection

end Thesaurus
