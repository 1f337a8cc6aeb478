import Sponge.ByteStream
import Sponge.Lib.Pieces
import Sponge.Lib.Runs
import Sponge.StreamReassembler
import Sponge.PushSpec
import Sponge.Reassembly
import Sponge.Window
import Sponge.WrappingIntegers
import Sponge.TCPSegment
import Sponge.TCPReceiver
import Sponge.Stale
import Sponge.TCPSender
import Sponge.Flight
import Sponge.FlowControl
import Sponge.TCPConnection
import Sponge.Inactive
import Sponge.ZeroWindow
import Sponge.EventLoop
import Sponge.SpongeSocket
import Sponge.Link
import Sponge.Network
import Sponge.Chat.Server
import Sponge.IPv4
import Sponge.Ethernet
import Sponge.Lib.Table
import Sponge.NetworkInterface
import Sponge.Ackno
import Sponge.ArpAgreement
import Sponge.Listen
import Sponge.PendingDatagrams
import Sponge.Router
import Sponge.Transmissions
import Sponge.Counter
import Sponge.Handshake
import Sponge.OrderIndependence
import Sponge.Chat.Framing
import Sponge.Chat.Identity
import Sponge.IPv4Wire
import Sponge.Quiescence
import Sponge.TCPOverIP
import Sponge.Linger
import Sponge.Pace
import Sponge.Storm
import Sponge.ArpTimes
import Sponge.Forwarding
import Sponge.Release
import Sponge.RouteErrors
import Sponge.Chat.Buffers
import Sponge.RetxTimer
import Sponge.Answers
import Sponge.AnyPushes
import Sponge.Chat.Decoders
import Sponge.Chat.QueueMutex
import Sponge.Lib.Fifo
import Sponge.StreamFifo
import Sponge.FileDescriptor
import Sponge.StreamCopy
import Sponge.Adapter
import Sponge.Carriage
import Sponge.EndToEnd
import Sponge.Holdings
import Sponge.Internetwork
import Sponge.Programs
import Sponge.Lib.Rounds
import Sponge.Progress
import Sponge.Recovery
