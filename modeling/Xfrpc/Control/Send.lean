import Xfrpc.Crypto.Aead
import Xfrpc.Mux.Stream
import Xfrpc.Wire.V2

namespace Xfrpc.Control.Send

open Message Crypto.Coder Crypto.Aead Mux.Header Mux.Stream Wire

/-- The part of `struct common_conf` that the messages of the client depend on. -/
structure CommonConf where
  tcpMux : Bool
  wireV2 : Bool
  authToken : Option Bytes
  deriving DecidableEq, Repr

structure Sender where
  crypto : CryptoState
  writer : AeadWriter
  gotHello : Bool
  stream : TmuxStream
  out : List Frame
  deriving DecidableEq

variable (P : Primitives) (conf : CommonConf)

/-- A temporary buffer handed to `tmux_stream_write` and freed afterwards, with
whatever is left in it. -/
def writeTemp (s : Sender) (data : Bytes) : Sender × ℤ :=
  let r := tmuxStreamWrite s.stream data
  ({ s with stream := r.stream, out := s.out ++ r.out }, r.ret)

def markMagicSent (s : Sender) : Sender := { s with stream := { s.stream with v2MagicSent := true } }

/-- `send_msg_frp_server` with `tcp_mux` on. -/
def sendMsgFrpServer (s : Sender) (type : MsgType) (msg : Bytes) : Sender :=
  if conf.wireV2 then
    match V2.encodeMessage type msg with
    | none => s
    | some frame =>
      if s.stream.v2MagicSent then (writeTemp s frame).1
      else (writeTemp (markMagicSent s) (V2.magic ++ frame)).1
  else (writeTemp s (frameMsg type.code msg)).1

/-- `initialize_encoder` with `tcp_mux` on; false when it fails. -/
def initializeEncoder (s : Sender) : Sender × Bool :=
  let crypto := initMainEncoder P conf.authToken s.crypto
  match crypto.mainEncoder with
  | none => ({ s with crypto }, false)
  | some coder =>
    let (s', ret) := writeTemp { s with crypto } coder.iv
    (s', decide (0 ≤ ret))

/-- `send_enc_msg_frp_server` with `tcp_mux` on. -/
def sendEncMsgFrpServer (s : Sender) (type : MsgType) (msg : Bytes) : Sender :=
  if conf.wireV2 then
    match V2.encodeMessage type msg with
    | none => s
    | some frame =>
      if s.gotHello then
        match aeadWriterSeal P s.writer frame with
        | (writer, none) => { s with writer }
        | (writer, some sealed) => (writeTemp { s with writer } sealed).1
      else s
  else
    let (s₁, ok) := if s.crypto.mainEncoder.isSome then (s, true) else initializeEncoder P conf s
    if ok then
      let (crypto, enc) := encryptData P s₁.crypto (frameMsg type.code msg)
      (writeTemp { s₁ with crypto } enc).1
    else s₁

end Xfrpc.Control.Send
