import Thesaurus.Support.Pool
import Thesaurus.Model.Executor

/-!
# Model — Clients

Any number of clients, each with a handler of its own.  A client sends one command after the other
and may choose each by the replies so far; its handler calls the store for them, and the calls of
the handlers interleave.  A handler that panics is gone.

The clock of a command is what the executor reads of it; the clock and the draws of a store call
come with the schedule.
-/

namespace Thesaurus
open Atomic

/-- A client, by the commands it sends and what it does with the replies. -/
abbrev Client (α : Type) := Prog (fun _ : Clock × Command => RespValue) α

/-- The store calls of a client's handler; `none` when it panics. -/
def Client.handler {α : Type} (ex : Executor) : Client α → StoreProg (Option α)
  | .ret a               => .ret (some a)
  | .call (c, cmd) next  => ex.execute c cmd >>= fun
      | some response => handler ex (next response)
      | none          => .ret none

/-- The store and the handlers of the clients. -/
abbrev Handlers (ι α : Type) := Pool StoreOp.Res ι (Option α) StoreInner

/-- The handlers of the clients at the start, on the store `s`. -/
def Handlers.start {ι α : Type} (ex : Executor) (clients : ι → Client α) (s : StoreInner) :
    Handlers ι α := ⟨fun i => (clients i).handler ex, s⟩

/-- A store call at an environment. -/
def StoreOp.at (env : Env) (op : StoreOp) (s : StoreInner) : op.Res × StoreInner :=
  op.apply env.clock.mono env.draws s

/-- What every command of the client makes calls of, its handler makes calls of. -/
theorem Client.all_handler {α : Type} {ex : Executor} {P : StoreOp → Prop} {Q : Command → Prop}
    (h : ∀ c cmd, Q cmd → (ex.execute c cmd).All P) {client : Client α}
    (hc : client.All fun call => Q call.2) : (client.handler ex).All P := by
  induction client with
  | ret a => trivial
  | call call next ih =>
      obtain ⟨c, cmd⟩ := call
      rw [handler]
      refine Prog.all_bind (h c cmd hc.1) fun response => ?_
      cases response with
      | none => trivial
      | some response => exact ih response (hc.2 response)

end Thesaurus
