import Thesaurus.Model.Executor
import Thesaurus.Model.Ttl

/-!
# Model — Server

The store over time: commands are executed one after the other, the eviction daemon makes its
rounds, and the clocks go on.  `Server.run` is a finite run of these, `Server.All` says that each
of its steps meets a condition where it is taken.
-/

namespace Thesaurus

/-- The store, and what the clocks read. -/
structure Server where
  store : StoreInner
  clock : Clock

/-- Something that happens to a store. -/
inductive Action where
  /-- `Executor::execute`. -/
  | execute (draws : Draws) (cmd : Command)
  /-- `evict_expired`. -/
  | evict (draws : Draws)
  /-- The clocks read `c` from now on. -/
  | advance (c : Clock)

/-- The keys a round of the eviction daemon deletes. -/
def TtlEvictionDaemon.evicted (now : Instant) (draws : Draws) (s : StoreInner) : List String :=
  keysToDelete now (Store.sampleEvictionIndex s draws sampleSize)

theorem TtlEvictionDaemon.run_evictExpired (now : Instant) (draws : Draws) (s : StoreInner) :
    ((evictExpired now).run (StoreOp.apply now draws) s).2 =
      Store.deleteBulk s (evicted now draws s) := rfl

namespace Server

variable (ex : Executor)

/-- One step. -/
def act (w : Server) : Action → Server
  | .execute draws cmd => { w with store := (ex.exec ⟨w.clock, draws⟩ cmd w.store).2 }
  | .evict draws       =>
      { w with store := ((TtlEvictionDaemon.evictExpired w.clock.mono).run
          (StoreOp.apply w.clock.mono draws) w.store).2 }
  | .advance c         => { w with clock := c }

/-- A run. -/
def run (w : Server) : List Action → Server
  | []           => w
  | a :: actions => (w.act ex a).run actions

/-- Every step of the run meets `Q`, in the server it is taken in. -/
def All (Q : Server → Action → Prop) (w : Server) : List Action → Prop
  | []           => True
  | a :: actions => Q w a ∧ (w.act ex a).All Q actions

variable {ex}

/-- **Runs.**  What every step that meets `Q` preserves holds after a run of such steps. -/
theorem run_of_act {P : Server → Prop} {Q : Server → Action → Prop}
    (hact : ∀ w a, Q w a → P w → P (w.act ex a)) {w : Server} (hw : P w) {actions : List Action}
    (hQ : w.All ex Q actions) : P (w.run ex actions) := by
  induction actions generalizing w with
  | nil => exact hw
  | cons a actions ih => exact ih (hact w a hQ.1 hw) hQ.2

theorem all_of_forall {Q : Server → Action → Prop} {actions : List Action}
    (h : ∀ a ∈ actions, ∀ w, Q w a) (w : Server) : w.All ex Q actions := by
  induction actions generalizing w with
  | nil => trivial
  | cons a actions ih =>
      exact ⟨h a List.mem_cons_self w, ih (fun a ha => h a (List.mem_cons_of_mem _ ha)) _⟩

theorem All.and {Q Q' : Server → Action → Prop} {w : Server} {actions : List Action}
    (h : w.All ex Q actions) (h' : w.All ex Q' actions) :
    w.All ex (fun w a => Q w a ∧ Q' w a) actions := by
  induction actions generalizing w with
  | nil => trivial
  | cons a actions ih => exact ⟨⟨h.1, h'.1⟩, ih h.2 h'.2⟩

end Server

end Thesaurus
