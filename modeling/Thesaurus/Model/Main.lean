import Thesaurus.Model.Aof

/-!
# Model — Main

`main.rs`: the loop that accepts connections, the semaphore that limits them, and the shutdown.
The handlers count as tasks that hold a permit and append to the AOF; the AOF is enabled.
-/

namespace Thesaurus

/-- Where `main` is. -/
inductive Phase where
  /-- In the `select!` of the accept loop. -/
  | accepting
  /-- In its first arm, with a connection, at `acquire_owned`. -/
  | acquiring
  /-- Behind the loop, at `join_next`. -/
  | draining
  /-- The background tasks are cancelled. -/
  | syncing
  /-- `main` has returned; the last fsync succeeded if `fsynced`. -/
  | complete (fsynced : Bool)
  /-- `accept` failed, and `main` returned its error. -/
  | failed
  deriving DecidableEq

/-- The listener with its handlers. -/
structure Main where
  phase : Phase
  /-- The semaphore is closed. -/
  closed : Bool
  permits : Nat
  /-- The handler tasks that are not over. -/
  running : Nat
  /-- The drain timed out, and `abort_all` was called. -/
  aborted : Bool
  ledger : Ledger

/-- What happens next. -/
inductive MainEvent where
  /-- `accept` returns a connection. -/
  | accepted
  /-- `accept` returns an error. -/
  | acceptFails
  /-- SIGINT or SIGTERM. -/
  | signal
  /-- `acquire_owned` returns. -/
  | acquired
  /-- A handler appends to the AOF. -/
  | append (io : AppendIo) (cmdBytes : Bytes)
  /-- A handler returns, panics or is aborted; its permit is dropped. -/
  | finished
  /-- The fsync task ticks. -/
  | tick (ok : Bool)
  /-- `join_next` has returned `None`. -/
  | drained
  /-- The ten seconds are over. -/
  | timeout
  /-- The fsync task, which is cancelled, is over. -/
  | lastFsync (ok : Bool)

namespace Main

/-- `main` at the loop. -/
def start (maxConnections : Nat) (bytes : Bytes) (fsyncMode : AppendFSyncMode) : Main :=
  ⟨.accepting, false, maxConnections, 0, false, .start bytes fsyncMode⟩

/-- One event; `none` when it cannot happen.  A signal is waited for in the `select!` only: at any
other time it is caught and forgotten.  The tasks that are aborted go on to their next `await`. -/
def act (w : Main) : MainEvent → Option Main
  | .accepted            =>
      if w.phase = .accepting then some { w with phase := .acquiring } else none
  | .acceptFails         => if w.phase = .accepting then some { w with phase := .failed } else none
  | .signal              =>
      if w.phase = .accepting then some { w with phase := .draining, closed := true } else some w
  | .acquired            =>
      if w.phase = .acquiring then
        if w.closed then some { w with phase := .draining }
        else if 0 < w.permits then
          some { w with phase := .accepting, permits := w.permits - 1, running := w.running + 1 }
        else none
      else none
  | .append io cmdBytes  =>
      if 0 < w.running then some { w with ledger := w.ledger.step (.append io cmdBytes) } else none
  | .finished            =>
      if 0 < w.running then
        some { w with permits := w.permits + 1, running := w.running - 1 }
      else none
  | .tick ok             =>
      match w.phase with
      | .syncing | .complete _ => none
      | _                      => some { w with ledger := w.ledger.step (.fsync ok) }
  | .drained             =>
      if w.phase = .draining ∧ w.running = 0 then some { w with phase := .syncing } else none
  | .timeout             =>
      if w.phase = .draining then some { w with phase := .syncing, aborted := true } else none
  | .lastFsync ok        =>
      if w.phase = .syncing then
        some { w with phase := .complete ok, ledger := w.ledger.step (.fsync ok) }
      else none

/-- A run. -/
def run : Main → List MainEvent → Option Main
  | w, []              => some w
  | w, event :: events => (w.act event).bind fun w => w.run events

/-- **Runs.**  What every event keeps, a run keeps. -/
theorem run_of_act {P : Main → Prop} (hact : ∀ w event w', w.act event = some w' → P w → P w')
    {w w' : Main} {events : List MainEvent} (h : w.run events = some w') (hw : P w) : P w' := by
  induction events generalizing w with
  | nil =>
      obtain rfl := Option.some.inj h
      exact hw
  | cons event events ih =>
      obtain ⟨w₁, hstep, hrun⟩ := Option.bind_eq_some_iff.mp h
      exact ih hrun (hact w event w₁ hstep hw)

end Main

end Thesaurus
