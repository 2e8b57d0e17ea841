import Dualnet.Cipher.ChaCha4
import Dualnet.Cipher.Packet
import Dualnet.Cipher.Plain
import Dualnet.Cipher.Prefix
import Dualnet.Cipher.Stream
import Dualnet.Config.Accepted
import Dualnet.Config.Node
import Dualnet.Config.Reorder
import Dualnet.Config.Validate
import Dualnet.Conn.Assignment
import Dualnet.Conn.Control
import Dualnet.Conn.Datagram
import Dualnet.Conn.Delivery
import Dualnet.Conn.FrameStream
import Dualnet.Conn.Gro
import Dualnet.Conn.HttpBounds
import Dualnet.Conn.HttpListenIn
import Dualnet.Conn.HttpListenOut
import Dualnet.Conn.HttpSupersede
import Dualnet.Conn.HttpUplink
import Dualnet.Conn.LimitListener
import Dualnet.Conn.Stamps
import Dualnet.Conn.TcpDownlink
import Dualnet.Conn.TcpLifecycle
import Dualnet.Conn.TcpReturn
import Dualnet.Conn.TcpUplink
import Dualnet.Conn.Tokens
import Dualnet.Conn.UdpSession
import Dualnet.Conn.Upload
import Dualnet.Egress.Destinations
import Dualnet.Egress.Flow
import Dualnet.Egress.Netstack
import Dualnet.Finalizer.Sections
import Dualnet.Finalizer.Tracking
import Dualnet.Healthcheck.Driver
import Dualnet.Healthcheck.Edges
import Dualnet.Ipmatch.Cache
import Dualnet.Ipmatch.Membership
import Dualnet.Ipmatch.PrefixFile
import Dualnet.Kernel.Correctness
import Dualnet.Kernel.Emitted
import Dualnet.Kernel.Host
import Dualnet.Kernel.Install
import Dualnet.Kernel.Linux
import Dualnet.Kernel.Lower
import Dualnet.Kernel.Numbers
import Dualnet.Kernel.Policy
import Dualnet.Kernel.PrefixText
import Dualnet.Kernel.ReadBack
import Dualnet.Kernel.Reloads
import Dualnet.Kernel.Undo
import Dualnet.Library.Bits
import Dualnet.Library.Checks
import Dualnet.Library.ChunkedCoding
import Dualnet.Library.Iteration
import Dualnet.Library.KeepFirst
import Dualnet.Library.Keystream
import Dualnet.Library.Maps
import Dualnet.Library.Memory
import Dualnet.Library.Reinstall
import Dualnet.Library.Reorder
import Dualnet.Library.Runs
import Dualnet.Library.Scripts
import Dualnet.Library.Search
import Dualnet.Library.Spans
import Dualnet.Library.Tokens
import Dualnet.Library.UnionFind
import Dualnet.Library.Utf8
import Dualnet.Library.Walks
import Dualnet.Netcfg.Setups
import Dualnet.Netip
import Dualnet.Netsim.Containers
import Dualnet.Netsim.Determinism
import Dualnet.Netsim.Layout
import Dualnet.Netsim.LayoutOrder
import Dualnet.Netsim.Oracle
import Dualnet.Netsim.Plan
import Dualnet.Netsim.Scenarios
import Dualnet.Node.Accounting
import Dualnet.Node.Build
import Dualnet.Node.Liveness
import Dualnet.Peers.Held
import Dualnet.Peers.Invariant
import Dualnet.Peers.Minting
import Dualnet.Peers.Registry
import Dualnet.Peers.Replay
import Dualnet.Pktbuf.Arena
import Dualnet.Pktbuf.Reader
import Dualnet.Pktbuf.Writer
import Dualnet.Release.Files
import Dualnet.Release.Plan
import Dualnet.Routing.FirstMatch
import Dualnet.Routing.PlainReading
import Dualnet.Routing.Table
import Dualnet.Schema.Compile
import Dualnet.Schema.Compiled
import Dualnet.Schema.Conditions
import Dualnet.Schema.DeadRules
import Dualnet.Schema.Determinism
import Dualnet.Schema.DownLeg
import Dualnet.Schema.Dsl
import Dualnet.Schema.DslGrammar
import Dualnet.Schema.LinkEnds
import Dualnet.Schema.Network
import Dualnet.Schema.Possible
import Dualnet.Schema.References
import Dualnet.Schema.Reorder
import Dualnet.Schema.Steps
import Dualnet.Schema.Strays
import Dualnet.Schema.UpLeg
import Dualnet.Schema.Valid
import Dualnet.Schema.Validate
import Dualnet.Schema.Walk
import Dualnet.Stats.Registry
import Dualnet.Stats.Rotation
import Dualnet.Text
import Dualnet.Tundev.Device
import Dualnet.Wire.Envelope
import Dualnet.Wire.Framing
import Dualnet.Wire.Ping
