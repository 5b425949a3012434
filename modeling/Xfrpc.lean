import Xfrpc.Control.Registry
import Xfrpc.Control.ReceiveV2
import Xfrpc.Crypto.Nonce
import Xfrpc.Crypto.AeadStream
import Xfrpc.Crypto.Evp
import Xfrpc.Control.Receive
import Xfrpc.Control.SendDirect
import Xfrpc.Control.MuxPeer
import Xfrpc.Mux.FlowControl
import Xfrpc.Mux.Segmentation
import Xfrpc.Tunnel.Goodbye
import Xfrpc.Tunnel.Session
import Xfrpc.Tunnel.Teardown
import Xfrpc.Tunnel.Framing
import Xfrpc.Tunnel.Backlog
import Xfrpc.Tunnel.Separation
import Xfrpc.Tunnel.Outbound
import Xfrpc.Tunnel.Delivery
import Xfrpc.Tunnel.RoundTrip
import Xfrpc.Tunnel.Secrecy
import Xfrpc.Event.ReadInput
import Xfrpc.Control.Bounds
import Xfrpc.Health.Check
import Xfrpc.Lifecycle.Stop
import Xfrpc.Lifecycle.Reports
import Xfrpc.Lifecycle.Status
import Xfrpc.Lifecycle.Recovery
import Xfrpc.Config.Agreement
import Xfrpc.Mux.StreamWrite
import Xfrpc.Event.Timers
import Xfrpc.Crypto.FailStop
import Xfrpc.Tunnel.Negotiation
import Xfrpc.Tunnel.Inspection
import Xfrpc.Control.Responses
import Xfrpc.Crypto.TlsInit
import Xfrpc.Config.TomlArrays
import Xfrpc.Config.TomlHeaders
import Xfrpc.Wire.Transcript
import Xfrpc.Control.NewProxy
import Xfrpc.Config.Ini
import Xfrpc.Event.ByteQueue
import Xfrpc.Event.FlushOutput
import Xfrpc.Event.Dispatch
import Xfrpc.Crypto.Vendored
import Xfrpc.Uthash.Streams
import Xfrpc.Toml.Parse
import Xfrpc.Toml.Sections
