import CausalBroadcast.Library.Call
import CausalBroadcast.Library.Reachability
import CausalBroadcast.Library.Sequence
import CausalBroadcast.Library.Attempts
import CausalBroadcast.Library.Linked
import CausalBroadcast.Library.Words
import CausalBroadcast.Library.Tokens
import CausalBroadcast.Model.Data
import CausalBroadcast.Model.Pending
import CausalBroadcast.Causal.Threads
import CausalBroadcast.Causal.Simulation
import CausalBroadcast.Causal.Invariant
import CausalBroadcast.Causal.Runs
import CausalBroadcast.Causal.Arrival
import CausalBroadcast.Causal.LogOrder
import CausalBroadcast.Causal.Order
import CausalBroadcast.Causal.Satisfiable
import CausalBroadcast.Causal.Search
import CausalBroadcast.Causal.Fifo
import CausalBroadcast.Storage.QueueList
import CausalBroadcast.Storage.TableMap
import CausalBroadcast.Storage.UrbMarks
import CausalBroadcast.Storage.VecLists
import CausalBroadcast.Fifo.Prefix
import CausalBroadcast.Reliable.System
import CausalBroadcast.Reliable.Invariant
import CausalBroadcast.Reliable.Safety
import CausalBroadcast.Reliable.Answers
import CausalBroadcast.Reliable.Live
import CausalBroadcast.Reliable.Agreement
import CausalBroadcast.Reliable.Majority
import CausalBroadcast.Reliable.Tasks
import CausalBroadcast.Reliable.Collisions
import CausalBroadcast.Wire.RoundTrip
import CausalBroadcast.Wire.Exposed
import CausalBroadcast.Wire.Handling
import CausalBroadcast.Parser.RoundTrip
import CausalBroadcast.Model.Reversal
import CausalBroadcast.Parser.Bounds
import CausalBroadcast.Parser.Usable
import CausalBroadcast.Log.Buffer
import CausalBroadcast.Log.Lines
import CausalBroadcast.Library.Mutex
import CausalBroadcast.Model.Allocation
import CausalBroadcast.Storage.Locks
import CausalBroadcast.Storage.FailedGrowth
import CausalBroadcast.Reliable.Caps
import CausalBroadcast.Output.LocalRuns
import CausalBroadcast.Lifecycle.Stop
import CausalBroadcast.Stack.Guarantees
import CausalBroadcast.Stack.Onward
import CausalBroadcast.Stack.Wire
