import Libasio.Transition
import Libasio.Channel
import Libasio.Turns
import Libasio.Queues
import Libasio.PrefixCode
import Libasio.ByteBuffer
import Libasio.BufferStore
import Libasio.TcpConn
import Libasio.ConnMachine
import Libasio.OutputStream
import Libasio.Lifecycle
import Libasio.Notification
import Libasio.Ownership
import Libasio.Backlog
import Libasio.ReadRoom
import Libasio.PacketImpl
import Libasio.TcpClient
import Libasio.ClientDisconnect
import Libasio.ClientLifetime
import Libasio.WriteRegion
import Libasio.Dispatch
import Libasio.SendOrder
import Libasio.ClientRetry
import Libasio.ClientTracking
import Libasio.EventLoop
import Libasio.LoopStop
import Libasio.PoolStop
import Libasio.Registry
import Libasio.TcpServer
import Libasio.ServerSteps
import Libasio.CloseSequence
import Libasio.ConnectionMap
import Libasio.ServerShutdown
import Libasio.ServerLifetime
import Libasio.CloseEffect
import Libasio.ClientSteps
import Libasio.DisconnectAssertion
import Libasio.ClientCallbacks
import Libasio.PoolLifecycle
import Libasio.ServerPool
import Libasio.AcceptChain
import Libasio.PoolRestart
import Libasio.Threads
import Libasio.Confinement
import Libasio.ConfinedSteps
import Libasio.ConnectReports
import Libasio.RoundRobin
import Libasio.LoopRotation
import Libasio.StdVector
import Libasio.SizeT
import Libasio.WriteRange
import Libasio.BufferInvariant
import Libasio.BufferGrowth
import Libasio.InputStream
import Libasio.Endpoint
import Libasio.Link
import Libasio.Hosting
import Libasio.Service
import Libasio.Delivery
import Libasio.PacketStream
import Libasio.Settling
import Libasio.HostedPair
import Libasio.ServiceDelivery
import Libasio.MachineQueues
import Libasio.SimpleSession
import Libasio.Echo
