import Thesaurus.Model.Clients
import Thesaurus.Model.Handler

/-!
# Model — Logging

Any number of connections to a server with the AOF on.  For one frame a handler calls the store,
once or more often, and then the AOF writer.  The store and the file have locks of their own: the
calls of the handlers interleave, and an append may come long after the calls that it is for.  An
append succeeds.

* `runFrame` is one turn of `run_handler`, call by call; alone it is `handle`.
* `Sender.handler` is the loop of `run_handler` on the frames that a client sends.
-/

namespace Thesaurus
open Bytes Atomic Atomic.Prog

/-- A call of a handler. -/
inductive HandlerOp where
  /-- A call of the store. -/
  | store (op : StoreOp)
  /-- `AofWriter::append`. -/
  | append (cmdBytes : Bytes)

/-- What a call returns. -/
def HandlerOp.Res : HandlerOp → Type
  | .store op => op.Res
  | .append _ => Unit

/-- What the handlers share. -/
structure Shared where
  store : StoreInner
  aof : Bytes

/-- A call of a handler at an environment. -/
def HandlerOp.at (env : Env) : (op : HandlerOp) → Shared → op.Res × Shared
  | .store op,        w => ((op.at env w.store).1, { w with store := (op.at env w.store).2 })
  | .append cmdBytes, w => ((), { w with aof := w.aof ++ cmdBytes })

/-- A program of calls of a handler. -/
abbrev HandlerProg (α : Type) := Prog HandlerOp.Res α

/-- One call of the store, made by a handler. -/
def callStore (op : StoreOp) : HandlerProg op.Res := .call (.store op) .ret

/-- Calls of the store, made by a handler. -/
def StoreProg.called {α : Type} (p : StoreProg α) : HandlerProg α := p.inline callStore

variable (ex : Executor) (unprintable : Char → Bool)

/-- The part of `run_handler` after the execution. -/
def persistCommand (c : Clock) (frame : RespValue) (cmd : Command) : Reply → HandlerProg Reply
  | none          => .ret none
  | some response =>
      if appends cmd response then
        .call (.append (aofBytes c frame cmd)) fun _ => .ret (some response)
      else .ret (some response)

/-- One turn of `run_handler`, from the decoded frame to the reply. -/
def runFrame (c : Clock) (frame : RespValue) : HandlerProg Reply :=
  match Command.fromResp2 frame with
  | .panic  => .ret none
  | .err e  => .ret (some (errorResponse unprintable e))
  | .ok cmd => StoreProg.called (ex.execute c cmd) >>= persistCommand c frame cmd

/-- A client, by the frames it sends and what it does with the replies. -/
abbrev Sender (α : Type) := Prog (fun _ : Clock × RespValue => RespValue) α

/-- `run_handler` on the frames of a client; `none` when it panics. -/
def Sender.handler {α : Type} : Sender α → HandlerProg (Option α)
  | .ret a                => .ret (some a)
  | .call (c, frame) next => runFrame ex unprintable c frame >>= fun r =>
      r.elim (.ret none) fun response => handler (next response)

/-- The handlers of the clients, on an empty store and an empty file. -/
def Sender.start {ι α : Type} (senders : ι → Sender α) :
    Pool HandlerOp.Res ι (Option α) Shared :=
  ⟨fun i => (senders i).handler ex unprintable, ⟨Store.new, []⟩⟩

/-! ### One handler alone -/

variable {ex unprintable}

theorem StoreProg.run_called {α : Type} (p : StoreProg α) (env : Env) (w : Shared) :
    (StoreProg.called p).run (HandlerOp.at env) w =
      ((p.run (StoreOp.at env) w.store).1,
        { w with store := (p.run (StoreOp.at env) w.store).2 }) := by
  induction p generalizing w with
  | ret a => rfl
  | call op next ih => exact ih (op.at env w.store).1 ⟨(op.at env w.store).2, w.aof⟩

/-- **Alone** a turn of `run_handler` comes to what `handle` says. -/
theorem run_runFrame (env : Env) (frame : RespValue) (w : Shared) :
    (runFrame ex unprintable env.clock frame).run (HandlerOp.at env) w =
      ((handle ex unprintable env frame w.store).response,
        ⟨(handle ex unprintable env frame w.store).store,
          w.aof ++ (handle ex unprintable env frame w.store).entry.getD []⟩) := by
  rw [runFrame, handle]
  cases Command.fromResp2 frame with
  | panic => simp
  | err e => simp
  | ok cmd =>
      have hexec : ex.exec env cmd w.store =
        (ex.execute env.clock cmd).run (StoreOp.at env) w.store := rfl
      simp only [run_bind, StoreProg.run_called, ← hexec]
      cases ex.exec env cmd w.store with
      | mk r s =>
          cases r with
          | none => simp [persistCommand]
          | some response =>
              simp only [persistCommand]
              cases appends cmd response with
              | false => simp
              | true => rfl

end Thesaurus
