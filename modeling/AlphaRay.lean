import AlphaRay.Dispatcher.Simple
import AlphaRay.Error
import AlphaRay.Inbound.Clients
import AlphaRay.Inbound.Dialogue
import AlphaRay.Inbound.Handler
import AlphaRay.Inbound.Http
import AlphaRay.Inbound.Server
import AlphaRay.Inbound.Server.Alone
import AlphaRay.Inbound.Server.Chained
import AlphaRay.Inbound.Server.Progress
import AlphaRay.Inbound.Server.Tunnels
import AlphaRay.Inbound.Vless
import AlphaRay.Inbound.Vless.Theorems
import AlphaRay.Inbound.Vless.Tunnels
import AlphaRay.Io
import AlphaRay.Io.Calls
import AlphaRay.Io.Scripted
import AlphaRay.Lib.Async
import AlphaRay.Lib.Checked
import AlphaRay.Lib.Digits
import AlphaRay.Lib.Divergence
import AlphaRay.Lib.Embed
import AlphaRay.Lib.Hoare
import AlphaRay.Lib.Joint
import AlphaRay.Lib.Loop
import AlphaRay.Lib.Parser
import AlphaRay.Lib.Pool
import AlphaRay.Lib.Program
import AlphaRay.Lib.Prompt
import AlphaRay.Lib.Run
import AlphaRay.Lib.Scanner
import AlphaRay.Lib.Text
import AlphaRay.Lib.Transducer
import AlphaRay.Lib.Utf8
import AlphaRay.Net
import AlphaRay.Net.Ipv4
import AlphaRay.Net.Ipv6
import AlphaRay.Net.Literal
import AlphaRay.Outbound
import AlphaRay.Outbound.Http
import AlphaRay.Outbound.Vless
import AlphaRay.Outbound.Vless.Chain
import AlphaRay.Pipeline
import AlphaRay.Protocol.Peers
import AlphaRay.Protocol.Peers.NullCipher
import AlphaRay.Protocol.Tls
import AlphaRay.Protocol.Tls.Acts
import AlphaRay.Protocol.Tls.Backpressure
import AlphaRay.Protocol.Tls.Delivery
import AlphaRay.Protocol.Tls.Observed
import AlphaRay.Protocol.Tls.Peers
import AlphaRay.Protocol.Tls.Pending
import AlphaRay.Protocol.Tls.Progress
import AlphaRay.Protocol.Tls.Readiness
import AlphaRay.Protocol.Tls.Reads
import AlphaRay.Protocol.Tls.Rules
import AlphaRay.Protocol.Tls.Theorems
import AlphaRay.Protocol.Tls.Truncation
import AlphaRay.Protocol.Tls.Writes
import AlphaRay.Protocol.VisionTls
import AlphaRay.Protocol.VisionTls.Acts
import AlphaRay.Protocol.VisionTls.Backpressure
import AlphaRay.Protocol.VisionTls.Bounded
import AlphaRay.Protocol.VisionTls.Closing
import AlphaRay.Protocol.VisionTls.Decoder
import AlphaRay.Protocol.VisionTls.Encoder
import AlphaRay.Protocol.VisionTls.Flush
import AlphaRay.Protocol.VisionTls.Malformed
import AlphaRay.Protocol.VisionTls.Overflow
import AlphaRay.Protocol.VisionTls.Padding
import AlphaRay.Protocol.VisionTls.Peers
import AlphaRay.Protocol.VisionTls.Pending
import AlphaRay.Protocol.VisionTls.Poll
import AlphaRay.Protocol.VisionTls.RoundTrip
import AlphaRay.Protocol.VisionTls.Rules
import AlphaRay.Protocol.VisionTls.Sniffer
import AlphaRay.Protocol.VisionTls.Theorems
import AlphaRay.Protocol.VisionTls.Verbatim
import AlphaRay.Protocol.VisionTls.Wire
import AlphaRay.Protocol.Vless
import AlphaRay.Protocol.Vless.Calls
import AlphaRay.Protocol.Vless.Fragmentation
import AlphaRay.Protocol.Vless.Layers
import AlphaRay.Protocol.Vless.Poll
import AlphaRay.Protocol.Vless.Refinement
import AlphaRay.Protocol.Vless.Replies
import AlphaRay.Protocol.Vless.Response
import AlphaRay.Protocol.Vless.Session
import AlphaRay.Protocol.Vless.Stream
import AlphaRay.Protocol.Vless.Theorems
import AlphaRay.Rustls
import AlphaRay.Rustls.Logged
import AlphaRay.Rustls.NullCipher
import AlphaRay.Transport.Tcp
import AlphaRay.Util
import AlphaRay.Util.ByteStream
import AlphaRay.Util.ReadBufExact
import AlphaRay.Util.TargetAddr
import AlphaRay.Util.TargetAddr.Theorems
