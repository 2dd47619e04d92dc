import Thesaurus.Support.Outcome
import Thesaurus.Support.Bytes
import Thesaurus.Support.Maps
import Thesaurus.Support.Atomic
import Thesaurus.Support.Keyed
import Thesaurus.Support.Arrival
import Thesaurus.Support.AppendFile
import Thesaurus.Support.Pool
import Thesaurus.Model.Clock
import Thesaurus.Model.Resp2
import Thesaurus.Model.Pattern
import Thesaurus.Model.Store
import Thesaurus.Model.StoreOps
import Thesaurus.Model.Command
import Thesaurus.Model.Executor
import Thesaurus.Model.Handler
import Thesaurus.Model.Ttl
import Thesaurus.Model.Server
import Thesaurus.Model.Connection
import Thesaurus.Model.Clients
import Thesaurus.Model.Aof
import Thesaurus.Model.Main
import Thesaurus.Wire.RoundTrip
import Thesaurus.Wire.Parse
import Thesaurus.Wire.Stream
import Thesaurus.Wire.Header
import Thesaurus.Wire.Reads
import Thesaurus.Wire.Delimited
import Thesaurus.Wire.Torn
import Thesaurus.Wire.Texts
import Thesaurus.Wire.Framing
import Thesaurus.Wire.Pieces
import Thesaurus.Cells.Cell
import Thesaurus.Cells.Exec
import Thesaurus.Cells.Replies
import Thesaurus.Cells.Rewrites
import Thesaurus.Log.WriteSet
import Thesaurus.Log.ZeroReply
import Thesaurus.Log.ErrorReply
import Thesaurus.Log.Replay
import Thesaurus.Log.TornTail
import Thesaurus.Log.TtlFree
import Thesaurus.Log.Sampling
import Thesaurus.Cells.Invariant
import Thesaurus.Cells.Frame
import Thesaurus.Runs.Ghosts
import Thesaurus.Runs.Collections
import Thesaurus.Expiry.Revival
import Thesaurus.Expiry.Queries
import Thesaurus.Expiry.Absolute
import Thesaurus.Expiry.Logged
import Thesaurus.Expiry.Eviction
import Thesaurus.Expiry.Unobserved
import Thesaurus.Expiry.InPlace
import Thesaurus.Cells.Deadline
import Thesaurus.Cells.Bounded
import Thesaurus.Grammar.SetOptions
import Thesaurus.Grammar.Arity
import Thesaurus.Grammar.Signature
import Thesaurus.Commands.Set
import Thesaurus.Support.Sequence
import Thesaurus.Support.Refinement
import Thesaurus.Commands.Lists
import Thesaurus.Support.Glob
import Thesaurus.Glob.Tokens
import Thesaurus.Glob.Indexed
import Thesaurus.Commands.Sets
import Thesaurus.Commands.Panics
import Thesaurus.Commands.Digest
import Thesaurus.Commands.Indices
import Thesaurus.Commands.Pushes
import Thesaurus.Commands.Delete
import Thesaurus.Commands.SetCalls
import Thesaurus.Commands.SetSchedules
import Thesaurus.Commands.SetPairs
import Thesaurus.Log.Order
import Thesaurus.Log.Restart
import Thesaurus.Log.Appends
import Thesaurus.Log.Crash
import Thesaurus.Log.Swallowed
import Thesaurus.Log.Shutdown
import Thesaurus.Commands.Isolation
import Thesaurus.Commands.Linearizable
import Thesaurus.Runs.Queues
import Thesaurus.Expiry.Invisible
import Thesaurus.Glob.Cost
import Thesaurus.Support.Lock
import Thesaurus.Commands.Poisoned
import Thesaurus.Commands.Strings
import Thesaurus.Runs.Members
import Thesaurus.Expiry.Backlog
import Thesaurus.Log.Partitioned
import Thesaurus.Grammar.Canonical
import Thesaurus.Commands.Snapshot
