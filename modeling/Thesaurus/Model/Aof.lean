import Thesaurus.Support.AppendFile
import Thesaurus.Model.Handler

/-!
# Model — AOF writer

The `AofWriter` of `aof.rs`: what an append hands to the kernel and to the disk.  Every call takes
the lock of the writer, so calls of several connections come one after the other; the fsync task
is one more caller.

What the operating system does with a call is given by an `AppendIo`: how many bytes the kernel
takes before a write fails, and whether `sync_data` succeeds.
-/

namespace Thesaurus
open AppendFile

/-- How often the AOF is fsynced. -/
inductive AppendFSyncMode where
  | always
  | everySec
  | no
  deriving DecidableEq, Repr

/-- How the system calls of one append come out. -/
structure AppendIo where
  /-- The bytes the kernel takes of the buffer, when room has to be made. -/
  room : Nat
  /-- The bytes it takes of an entry that goes past the buffer. -/
  direct : Nat
  /-- The bytes it takes in the flush. -/
  flush : Nat
  /-- `sync_data` succeeds. -/
  sync : Bool

/-- The writer behind its lock. -/
structure AofWriter where
  file : BufWriter UInt8
  fsyncMode : AppendFSyncMode

namespace AofWriter

/-- `AofWriter::new` on a file of `bytes` that are on the disk; a `BufWriter` has room for 8 KiB. -/
def new (bytes : Bytes) (fsyncMode : AppendFSyncMode) : AofWriter :=
  ⟨⟨⟨bytes, bytes.length, le_rfl⟩, [], 8192⟩, fsyncMode⟩

/-- `guard.file.get_ref().sync_data()`. -/
def syncData (ok : Bool) (w : AofWriter) : AofWriter :=
  if ok then { w with file := { w.file with file := w.file.file.sync } } else w

/-- `AofWriter::append`, with whether it returned `Ok`. -/
def append (io : AppendIo) (cmdBytes : Bytes) (w : AofWriter) : Bool × AofWriter :=
  let written := w.file.writeAll io.room io.direct cmdBytes
  if written.1 then
    let flushed := written.2.flushBuf io.flush
    if flushed.1 then
      if w.fsyncMode = .always then
        (io.sync, syncData io.sync { w with file := flushed.2 })
      else (true, { w with file := flushed.2 })
    else (false, { w with file := flushed.2 })
  else (false, { w with file := written.2 })

/-- The task of `spawn_fsync_task`, at a tick or when it is cancelled. -/
def fsyncTask (ok : Bool) (w : AofWriter) : AofWriter :=
  if w.fsyncMode = .everySec then w.syncData ok else w

/-- What was accepted. -/
abbrev content (w : AofWriter) : Bytes := w.file.content

/-- What the kernel has taken. -/
abbrev written (w : AofWriter) : Bytes := w.file.file.written

variable {w : AofWriter} {io : AppendIo} {cmdBytes : Bytes}

@[simp] theorem content_syncData (ok : Bool) : (w.syncData ok).content = w.content := by
  cases ok <;> rfl

@[simp] theorem written_syncData (ok : Bool) : (w.syncData ok).written = w.written := by
  cases ok <;> rfl

@[simp] theorem buf_syncData (ok : Bool) : (w.syncData ok).file.buf = w.file.buf := by
  cases ok <;> rfl

@[simp] theorem fsyncMode_syncData (ok : Bool) : (w.syncData ok).fsyncMode = w.fsyncMode := by
  cases ok <;> rfl

theorem grows_syncData (ok : Bool) : w.file.file.Grows (w.syncData ok).file.file := by
  cases ok
  · exact .refl _
  · exact File.grows_sync _

/-- **The ways of an append.**  The entry is refused, or it is accepted and stays in the buffer,
or it goes to the file with everything before it. -/
theorem append_cases (io : AppendIo) (cmdBytes : Bytes) (w : AofWriter) :
    (∃ v : BufWriter UInt8, w.file.writeAll io.room io.direct cmdBytes = (false, v) ∧
      w.append io cmdBytes = (false, { w with file := v })) ∨
    (∃ v : BufWriter UInt8, w.file.writeAll io.room io.direct cmdBytes = (true, v) ∧
      (v.flushBuf io.flush).1 = false ∧
      w.append io cmdBytes = (false, { w with file := (v.flushBuf io.flush).2 })) ∨
    (∃ v : BufWriter UInt8, w.file.writeAll io.room io.direct cmdBytes = (true, v) ∧
      (v.flushBuf io.flush).1 = true ∧
      w.append io cmdBytes =
        if w.fsyncMode = .always then
          (io.sync, syncData io.sync { w with file := (v.flushBuf io.flush).2 })
        else (true, { w with file := (v.flushBuf io.flush).2 })) := by
  rw [append]
  rcases hw : w.file.writeAll io.room io.direct cmdBytes with ⟨ok, v⟩
  cases ok with
  | false => exact .inl ⟨v, rfl, rfl⟩
  | true =>
      simp only [if_true]
      cases hf : (v.flushBuf io.flush).1 with
      | false => exact .inr (.inl ⟨v, rfl, hf, rfl⟩)
      | true => exact .inr (.inr ⟨v, rfl, hf, rfl⟩)

end AofWriter

/-! ### The callers of the writer -/

/-- A call of the writer. -/
inductive AofCall where
  | append (io : AppendIo) (cmdBytes : Bytes)
  /-- The fsync task ticks, or is cancelled; the fsync succeeds if `ok`. -/
  | fsync (ok : Bool)

/-- The writer, with what its callers know. -/
structure Ledger where
  writer : AofWriter
  /-- The entries whose append returned `Ok`. -/
  accepted : List Bytes
  /-- Those whose append had returned `Ok` at the last fsync. -/
  durable : List Bytes

/-- The writer before its first call. -/
def Ledger.start (bytes : Bytes) (fsyncMode : AppendFSyncMode) : Ledger :=
  ⟨.new bytes fsyncMode, [], []⟩

/-- One call. -/
def Ledger.step (l : Ledger) : AofCall → Ledger
  | .append io cmdBytes =>
      let (ok, writer) := l.writer.append io cmdBytes
      let accepted := if ok then l.accepted ++ [cmdBytes] else l.accepted
      ⟨writer, accepted, if ok ∧ writer.fsyncMode = .always then accepted else l.durable⟩
  | .fsync ok =>
      ⟨l.writer.fsyncTask ok, l.accepted,
        if ok ∧ l.writer.fsyncMode = .everySec then l.accepted else l.durable⟩

/-- A run of calls. -/
def Ledger.run : Ledger → List AofCall → Ledger
  | l, []            => l
  | l, call :: calls => (l.step call).run calls

/-! ### One connection -/

/-- A server with a single connection and the writer of its AOF. -/
structure Persisted where
  store : StoreInner
  writer : AofWriter
  alive : Bool
  /-- The frames the connection has executed, with what each execution read. -/
  served : List (Env × RespValue)
  /-- How many of them were served at the last fsync. -/
  saved : Nat

/-- The server when it has replayed a file of `bytes` to the store. -/
def Persisted.start (s : StoreInner) (bytes : Bytes) (fsyncMode : AppendFSyncMode) : Persisted :=
  ⟨s, .new bytes fsyncMode, true, [], 0⟩

/-- What the server does next. -/
inductive Turn where
  /-- One turn of `run_handler`, with what its append comes to, if there is one. -/
  | serve (env : Env) (frame : RespValue) (io : AppendIo)
  /-- The fsync task; the fsync succeeds if `ok`. -/
  | fsync (ok : Bool)

/-- The writer after the append of an entry, if there is one; an error is only reported. -/
def AofWriter.log (io : AppendIo) (w : AofWriter) : Option Bytes → AofWriter
  | some entry => (w.append io entry).2
  | none       => w

/-- One turn. -/
def Persisted.turn (ex : Executor) (unprintable : Char → Bool) (w : Persisted) : Turn → Persisted
  | .serve env frame io =>
      if w.alive then
        let h := handle ex unprintable env frame w.store
        { store := h.store
          writer := w.writer.log io h.entry
          alive := h.response.isSome
          served := w.served ++ [(env, frame)]
          saved := if w.writer.fsyncMode = .always then w.served.length + 1 else w.saved }
      else w
  | .fsync ok =>
      { w with
        writer := w.writer.fsyncTask ok
        saved := if ok ∧ w.writer.fsyncMode = .everySec then w.served.length else w.saved }

/-- A run of turns. -/
def Persisted.run (ex : Executor) (unprintable : Char → Bool) : Persisted → List Turn → Persisted
  | w, []         => w
  | w, t :: turns => (w.turn ex unprintable t).run ex unprintable turns

end Thesaurus
