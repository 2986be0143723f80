import SandboxIpc.Infra.Run
import SandboxIpc.Infra.Census
import SandboxIpc.Infra.Tickets
import SandboxIpc.Infra.Wrapping
import SandboxIpc.Machine
import SandboxIpc.Shm.Queue.Step
import SandboxIpc.Shm.Queue.Invariant
import SandboxIpc.Shm.Queue.Exclusive
import SandboxIpc.Shm.Queue.Fifo
import SandboxIpc.Unix.Refcount
import SandboxIpc.Windows.ThinLock
import SandboxIpc.Sync.Poison
import SandboxIpc.Shm.Map
import SandboxIpc.Shm.MapRange
import SandboxIpc.Sync.Platform
import SandboxIpc.Unix.Mutex
import SandboxIpc.Windows.Mutex
import SandboxIpc.Sync.Mutex
import SandboxIpc.Shm.Queue.Handle
import SandboxIpc.Ser
import SandboxIpc.Unix.Cmsg
import SandboxIpc.Unix.Handles
import SandboxIpc.Unix.Channel
import SandboxIpc.Unix.Travel
import SandboxIpc.Unix.Receive
import SandboxIpc.Windows.WakeUp
import SandboxIpc.Shm.Queue.Progress
import SandboxIpc.Unix.Raw
import SandboxIpc.Shm.Queue.Holes
import SandboxIpc.Shm.Queue.Truthful
import SandboxIpc.Ser.Sink
import SandboxIpc.Ser.Delivery
import SandboxIpc.Unix.Transport
import SandboxIpc.Infra.Picking
import SandboxIpc.Unix.Ownership
import SandboxIpc.Ser.Bincode
import SandboxIpc.Unix.Payload
import SandboxIpc.Windows.Channel
import SandboxIpc.Windows.Payload
import SandboxIpc.Transfer
import SandboxIpc.Sealed
import SandboxIpc.Shm.Queue.WrapAround
import SandboxIpc.Shm.Queue.DropOrder
import SandboxIpc.Shm.Queue.Layout
import SandboxIpc.Shm.Queue.Poison
import SandboxIpc.Unix.Duplicates
import SandboxIpc.Windows.Cleanup
import SandboxIpc.Windows.Adoption
import SandboxIpc.Infra.Obligation
import SandboxIpc.Unix.Cloexec
import SandboxIpc.Unix.Reading
import SandboxIpc.Infra.Registry
import SandboxIpc.Unix.World
import SandboxIpc.Unix.Copies
import SandboxIpc.Unix.Descent
import SandboxIpc.Unix.Passing
import SandboxIpc.Unix.ReadOnly
import SandboxIpc.Unix.DataSource
import SandboxIpc.Unix.Naming
import SandboxIpc.Unix.Host
import SandboxIpc.Unix.Backed
import SandboxIpc.Infra.Rounding
import SandboxIpc.Shm.Pages
import SandboxIpc.Shm.Queue.Access
import SandboxIpc.Windows.Timeout
import SandboxIpc.Unix.Constructors
import SandboxIpc.Ser.Passes
import SandboxIpc.Unix.RoundTrip
import SandboxIpc.Unix.Nesting
import SandboxIpc.Unix.FailedEncode
import SandboxIpc.Infra.Refinement
import SandboxIpc.Infra.Buffer
import SandboxIpc.Infra.Wire
import SandboxIpc.Shm.Queue.Linearizable
import SandboxIpc.Shm.Queue.Abandoned
import SandboxIpc.Ser.Duplex
import SandboxIpc.Unix.Duplex
import SandboxIpc.Windows.Reading
import SandboxIpc.Windows.Copies
import SandboxIpc.Windows.RoundTrip
import SandboxIpc.Infra.Codec
import SandboxIpc.Windows.ProtoInfo
import SandboxIpc.Infra.Leases
import SandboxIpc.Infra.Sharing
import SandboxIpc.Shm.Mapping
import SandboxIpc.Shm.Sharing
import SandboxIpc.Shm.Queue.Instances
import SandboxIpc.Shm.Queue.InMemory
import SandboxIpc.Infra.Monitor
import SandboxIpc.Sync.OnThinLock
