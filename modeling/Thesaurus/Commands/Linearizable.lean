import Thesaurus.Model.Clients

/-!
# Commands — linearizable

The commands that make one call of the store, or none, take effect at once, however the calls of
any number of handlers interleave.  SET and the TTL family make several calls; so do DEL, EXISTS
and the pushes, one for each argument.

* `single_execute`: which commands these are.
* `linearizable`: the handlers run as if the commands were executed one after the other.
-/

namespace Thesaurus
open Atomic

/-- The command makes one call of the store at most. -/
def Command.singleCall : Command → Bool
  | .delete ks | .exists ks => ks.length ≤ 1
  | .lPush _ elements | .rPush _ elements | .lPushX _ elements | .rPushX _ elements =>
      elements.length ≤ 1
  | .set .. | .ttl _ | .pTtl _ | .expireTime _ | .pExpireTime _ => false
  | _ => true

section Single

variable {ex : Executor} {c : Clock}

theorem single_expireIn (key : String) (d : Duration) : (Executor.expireIn c key d).Single := by
  rw [Executor.expireIn]
  split
  · trivial
  · intro set
    exact ⟨_, rfl⟩

theorem single_expireBy (key : String) (past : Bool) (deadline : Option Instant) :
    (Executor.expireBy key past deadline).Single := by
  cases past
  · cases deadline with
    | none => trivial
    | some deadline =>
        intro set
        exact ⟨_, rfl⟩
  · intro deleted
    exact ⟨_, rfl⟩

theorem single_flushDb (mode : Option FlushMode) : (ex.flushDb mode).Single := by
  rcases mode with _ | _ | _
  · by_cases h : ex.lazyfreeLazyUserFlush = true <;> simp only [Executor.flushDb, h] <;>
      exact fun _ => ⟨_, rfl⟩
  all_goals exact fun _ => ⟨_, rfl⟩

/-- **One call at most.** -/
theorem single_execute {cmd : Command} (h : cmd.singleCall = true) :
    (ex.execute c cmd).Single := by
  cases cmd with
  | ping message => cases message <;> trivial
  | select index =>
      show (Executor.select index).Single
      rw [Executor.select]
      split <;> trivial
  | delete keys | «exists» keys =>
      rcases keys with _ | ⟨key, _ | ⟨key', keys⟩⟩
      · trivial
      · intro r
        exact ⟨_, rfl⟩
      · simp [Command.singleCall] at h
  | lPush key elements | rPush key elements | lPushX key elements | rPushX key elements =>
      rcases elements with _ | ⟨element, _ | ⟨element', elements⟩⟩
      · trivial
      · rintro (e | n)
        · exact ⟨_, rfl⟩
        · exact ⟨_, rfl⟩
      · simp [Command.singleCall] at h
  | expire key n | pExpire key n => exact single_expireIn key _
  | expireAt key n | pExpireAt key n => exact single_expireBy key _ _
  | flushDb mode => exact single_flushDb mode
  | set | ttl | pTtl | expireTime | pExpireTime => cases h
  | _ => exact fun _ => ⟨_, rfl⟩

end Single

/-! ### Clients -/

variable {ι α : Type} [DecidableEq ι]

/-- A client, which stops when its command panics. -/
def Client.asking : Client α → Prog (fun _ : Clock × Command => Reply) (Option α)
  | .ret a          => .ret (some a)
  | .call call next => .call call fun
      | some response => asking (next response)
      | none          => .ret none

/-- The store and the clients, without handlers. -/
def Clients.start (clients : ι → Client α) (s : StoreInner) :
    Pool (fun _ : Clock × Command => Reply) ι (Option α) StoreInner :=
  ⟨fun i => (clients i).asking, s⟩

/-- The program of a command that a client sends. -/
abbrev Executor.carry (ex : Executor) (call : Clock × Command) : StoreProg Reply :=
  ex.execute call.1 call.2

/-- The handler carries out one command after the other. -/
theorem Client.handler_eq (ex : Executor) (client : Client α) :
    client.handler ex = client.asking.inline ex.carry := by
  induction client with
  | ret a => rfl
  | call call next ih =>
      obtain ⟨c, cmd⟩ := call
      rw [handler, asking, Prog.inline]
      congr 1
      funext response
      cases response with
      | none => rfl
      | some response => exact ih response

theorem Client.all_asking {P : Clock × Command → Prop} {client : Client α} (h : client.All P) :
    client.asking.All P := by
  induction client with
  | ret a => trivial
  | call call next ih =>
      rw [asking, Prog.all_call]
      refine ⟨h.1, ?_⟩
      rintro (_ | response)
      · trivial
      · exact ih response (h.2 response)

/-- **Linearizable.**  The clients send commands of one call at most.  Every schedule of their
handlers comes to the store, and to the replies so far, of a run in which each command is executed
at once, in a turn of its client; the turns stand in the same order. -/
theorem linearizable (ex : Executor) {clients : ι → Client α}
    (hc : ∀ i, (clients i).All fun call => call.2.singleCall = true) (s : StoreInner)
    (schedule : List (ι × Env)) :
    ∃ rounds : List Nat, rounds.length = schedule.length ∧
      let serial := (schedule.zip rounds).flatMap fun turn => List.replicate turn.2 turn.1
      let w := (Clients.start clients s).run (Pool.atOnce StoreOp.at ex.carry) serial
      ((Handlers.start ex clients s).run StoreOp.at schedule).state = w.state ∧
        ∀ i, ((Handlers.start ex clients s).run StoreOp.at schedule).prog i =
          (w.prog i).inline ex.carry := by
  have hstart : Handlers.start ex clients s = (Clients.start clients s).inline ex.carry := by
    rw [Handlers.start, Pool.inline]
    congr 1
    funext i
    exact (clients i).handler_eq ex
  have hsingle : ∀ i,
      ((Clients.start clients s).prog i).All fun call => (ex.carry call).Single := by
    intro i
    exact Prog.All.mono (fun _ h => single_execute h) (Client.all_asking (hc i))
  obtain ⟨rounds, hlen, hrun⟩ := Pool.run_inline hsingle schedule
  refine ⟨rounds, hlen, ?_⟩
  rw [hstart, hrun]
  exact ⟨rfl, fun i => rfl⟩

/-- One client sends PING and MSET, the other GETDEL. -/
def msetGetDel : Bool → Client Unit
  | true  => .call (Clock.at 0 0, .ping none) fun _ =>
      .call (Clock.at 0 0, .mSet [("k", "v")]) fun _ => .ret ()
  | false => .call (Clock.at 0 0, .getDel "k") fun _ => .ret ()

/-- The two calls, one after the other. -/
theorem linearizable_two :
    let schedule := [(true, Env.at 0 0), (false, Env.at 0 1)]
    ∃ rounds : List Nat, rounds.length = 2 ∧
      let serial := (schedule.zip rounds).flatMap fun turn => List.replicate turn.2 turn.1
      ((Handlers.start .plain msetGetDel Store.new).run StoreOp.at schedule).state =
        ((Clients.start msetGetDel Store.new).run
          (Pool.atOnce StoreOp.at Executor.plain.carry) serial).state := by
  intro schedule
  have hc : ∀ b, (msetGetDel b).All fun call => call.2.singleCall = true := by
    intro b
    cases b with
    | false => exact ⟨rfl, fun _ => trivial⟩
    | true => exact ⟨rfl, fun _ => ⟨rfl, fun _ => trivial⟩⟩
  obtain ⟨rounds, hlen, hstate, -⟩ := linearizable .plain hc Store.new schedule
  exact ⟨rounds, hlen, hstate⟩

end Thesaurus
