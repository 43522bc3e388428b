import Chamlon.Lib.Machine
import Chamlon.Lib.Memory
import Chamlon.Lib.Access
import Chamlon.Lib.Gate
import Chamlon.Lib.Heap
import Chamlon.Lib.Limbs
import Chamlon.Lib.LinkedList
import Chamlon.Lib.Tickets
import Chamlon.Lib.TokenBucket
import Chamlon.Config
import Chamlon.Sodium
import Chamlon.Wire
import Chamlon.Queue.Basic
import Chamlon.Datagram
import Chamlon.ReplayWindow
import Chamlon.WindowShift
import Chamlon.ReplayHistory
import Chamlon.Reassembly.Basic
import Chamlon.Reassembly.Bounds
import Chamlon.Reassembly.Run
import Chamlon.Reassembly.Coverage
import Chamlon.Reassembly.Store
import Chamlon.Reassembly.Calls
import Chamlon.Reassembly.Fragmenter
import Chamlon.Reassembly.Isolation
import Chamlon.Reassembly.Progress
import Chamlon.Reassembly.RoundTrip
import Chamlon.Reassembly.Reordering
import Chamlon.Reassembly.Integrity
import Chamlon.Tunnel.Cargo
import Chamlon.Tunnel.Journal
import Chamlon.Server.Session
import Chamlon.Server.Handshake
import Chamlon.Server.Inbound
import Chamlon.Server.Cases
import Chamlon.Server.Bounds
import Chamlon.Server.AtMostOnce
import Chamlon.Server.Leaves
import Chamlon.Server.SessionTable
import Chamlon.Server.Accounting
import Chamlon.Server.Shutdown
import Chamlon.Server.NonceUse
import Chamlon.Client.NonceUse
import Chamlon.Client.Options
import Chamlon.Client.Hex
import Chamlon.Client.Handshake
import Chamlon.Server.Reply
import Chamlon.Agreement.Honest
import Chamlon.Client.Rehandshake
import Chamlon.Client.RekeyLoop
import Chamlon.Client.RekeyBuffer
import Chamlon.Client.Inbound
import Chamlon.Client.EventLoop
import Chamlon.Client.LoopTimers
import Chamlon.Client.Traffic
import Chamlon.Tunnel.ClientLog
import Chamlon.Tunnel.Upstream
import Chamlon.Client.Senders
import Chamlon.Client.KeyLimits
import Chamlon.Client.Pacing
import Chamlon.Server.Frame
import Chamlon.Agreement.Rekey
import Chamlon.Agreement.Binding
import Chamlon.Agreement.FirstDatagram
import Chamlon.Queue.Delivery
import Chamlon.Queue.Fifo
import Chamlon.Queue.Linked
import Chamlon.Server.SlotReuse
import Chamlon.Server.Sharding
import Chamlon.Server.Workers
import Chamlon.Server.Unauthenticated
import Chamlon.Server.IdleExpiry
import Chamlon.Agreement.Address
import Chamlon.Server.Traffic
import Chamlon.Server.Scheduler
import Chamlon.Server.TaskHeap
import Chamlon.Server.Opening
import Chamlon.Server.Publication
import Chamlon.Server.Allocation
import Chamlon.Server.ThreadPool
import Chamlon.Server.PoolShard
import Chamlon.Server.PoolDelivery
import Chamlon.Server.RateLimiter
import Chamlon.Server.LimiterRun
import Chamlon.Server.Blacklist
import Chamlon.Server.RateLimited
import Chamlon.Server.HandshakeLimit
import Chamlon.Server.Isolation
import Chamlon.Tunnel.ServerLog
import Chamlon.Tunnel.Downstream
import Chamlon.Tunnel.Sealing
import Chamlon.Tunnel.Framing
import Chamlon.Tunnel.Transit
import Chamlon.Tunnel.Delivery
import Chamlon.Server.MainLoop
import Chamlon.Server.Vanished
