import Xfrpc.Control.Receive
import Xfrpc.Control.Send
import Xfrpc.Tunnel.Lifetime
import Xfrpc.Tunnel.Service

namespace Xfrpc.Tunnel.Client

open Control.Message Control.Receive Control.Send Crypto.Cfb Crypto.Coder Lifetime Mux.Header
  Mux.Stream Service Wire

/-- What a tunnel takes from the rest of the client and from its surroundings.
The hour and the outcome of a connect are those of the `n`-th question. -/
structure Env where
  prims : Primitives
  conf : CommonConf
  startWorkConnRespUnmarshal : Bytes → Option Bytes
  getProxyService : Bytes → Option ProxyService
  currentHour : ℕ → ℕ
  connectServer : ℕ → Bool
  compress : Bytes → Option Bytes
  decompress : Bytes → Option Bytes

/-- The bufferevent of a local connection. What has been queued to the local
service stays in `output`. With `stub` its read callback is the one for UDP. -/
structure LocalBev where
  input : Bytes
  output : Bytes
  connecting : Bool
  evRead : Bool
  stub : Bool
  deriving DecidableEq, Repr

/-- The callbacks on the work connection of a client without `tcp_mux`: `recv_cb`
and `client_start_event_cb` first, then those of `start_xfrp_tunnel`. -/
inductive WorkCb
  | start | tcp | udp
  deriving DecidableEq, Repr

/-- `struct proxy_client` less its stream. A buffer that is not there is empty.
`orphans` are the connections `local_proxy_bev` was taken away from without their
being freed; the code does not keep them, nor `localEnded`, which says that the
last local connection has been closed. -/
structure ProxyClient where
  ps : Option ProxyService
  localProxyBev : Option LocalBev
  workStarted : Bool
  pendingClose : Bool
  useEncryption : Bool
  useCompression : Bool
  encryptCtx : Option CryptoCtx
  decryptCtx : Option CryptoCtx
  encPending : Bytes
  dataTail : Bytes
  state : Socks5State
  socks5Buf : Bytes
  xdpiState : XdpiState
  xdpiBuf : Bytes
  workCb : WorkCb
  orphans : List LocalBev
  localEnded : Bool
  deriving DecidableEq, Repr

/-- `calloc` in `new_proxy_client`. -/
def ProxyClient.new : ProxyClient :=
  { ps := none, localProxyBev := none, workStarted := false, pendingClose := false
    useEncryption := false, useCompression := false, encryptCtx := none, decryptCtx := none
    encPending := [], dataTail := [], state := .init, socks5Buf := [], xdpiState := .init
    xdpiBuf := [], workCb := .start, orphans := [], localEnded := false }

inductive Refusal
  | malformed | unknownProxy | unavailable | unsupported | badConfig | localConnect
  deriving DecidableEq, Repr

/-- Where the chain of calls below `process_data` uses the client again. -/
inductive Site
  | setClientWorkStart | v2Rx | settle
  deriving DecidableEq, Repr

inductive Note
  | frpsMsg (buf : Bytes)
  | controlWork (buf : Bytes)
  | accepted (ps : ProxyService)
  | refused (why : Refusal)
  | stale (site : Site)
  deriving DecidableEq, Repr

/-- Whose stream it is. `process_data` finds no client for the control stream. -/
inductive Owner
  | control | client
  deriving DecidableEq, Repr

/-- A stream with its owner, the number of questions asked, and a record of what
the handlers did. -/
structure Conn where
  owner : Owner
  life : Life
  client : ProxyClient
  tick : ℕ
  log : List Note
  deriving DecidableEq, Repr

def Conn.note (t : Conn) (n : Note) : Conn := { t with log := t.log ++ [n] }

def Conn.setStream (t : Conn) (s : TmuxStream) : Conn :=
  { t with life := { t.life with stream := s } }

def Conn.touch (t : Conn) (site : Site) (f : Conn → Conn) : Conn :=
  if t.life.alive then f t else t.note (.stale site)

/-- `client->local_proxy_bev = bev`. -/
def ProxyClient.openLocal (c : ProxyClient) (bev : Option LocalBev) : ProxyClient :=
  { c with
    localProxyBev := bev
    orphans := c.orphans ++ c.localProxyBev.toList
    localEnded := c.localEnded && bev.isNone }

def ProxyClient.queue (c : ProxyClient) (data : Bytes) : ProxyClient :=
  { c with localProxyBev := c.localProxyBev.map fun b ↦ { b with output := b.output ++ data } }

variable (E : Env)

def LocalBev.tcp (output : Bytes) : LocalBev :=
  { input := [], output, connecting := true, evRead := true, stub := false }

def LocalBev.udp : LocalBev :=
  { input := [], output := [], connecting := false, evRead := true, stub := true }

/-- What `setup_local_connection` connects to: `none` for a connection that is
put off, else whether it comes about. -/
def localConnection (ps : ProxyService) (n : ℕ) : Option (Option LocalBev) :=
  if isUdpProxy ps then some (if E.connectServer n then some .udp else none)
  else if isUdsProxy ps then some none
  else if !isSocks5Proxy ps && !hasServiceType ps then
    some (if E.connectServer n then some (.tcp []) else none)
  else none

/-- The callbacks of `start_xfrp_tunnel` on the work connection. -/
def setupProxyCallbacks (c : ProxyClient) (ps : ProxyService) : ProxyClient :=
  if E.conf.tcpMux then c else { c with workCb := if isUdpProxy ps then .udp else .tcp }

/-- `setup_local_connection`, and the rest of `start_xfrp_tunnel` when it goes on. -/
def setupLocalConnection (t : Conn) (ps : ProxyService) (n : ℕ) : Conn :=
  match localConnection E ps n with
  | none => t
  | some (some bev) => { t with client := setupProxyCallbacks E (t.client.openLocal (some bev)) ps }
  | some none =>
    { t with client := t.client.openLocal none, life := t.life.delete }.note
      (.refused .localConnect)

def initCrypto (c : ProxyClient) (ps : ProxyService) (n : ℕ) : ProxyClient :=
  let c' := { c with useEncryption := ps.useEncryption, useCompression := ps.useCompression }
  match ps.useEncryption, E.conf.authToken with
  | true, some token =>
    let key := cryptoDeriveKey E.prims token
    { c' with
      encryptCtx := some (cryptoCtxNewWriter key (E.prims.randBytes n))
      decryptCtx := some (cryptoCtxNewReader key) }
  | _, _ => c'

def startXfrpTunnel (t : Conn) (ps : ProxyService) (n : ℕ) : Conn :=
  if ps.localPort = 0 ∧ isUdsProxy ps = false then t.note (.refused .badConfig)
  else setupLocalConnection E { t with client := initCrypto E t.client ps n } ps n

def setClientWorkStart (t : Conn) : Conn :=
  { t with client := { t.client with workStarted := true } }

/-- `handle_type_start_work_conn`; `rest` is what follows the message. -/
def handleTypeStartWorkConn (t₀ : Conn) (data rest : Bytes) : Conn :=
  let n := t₀.tick
  let t := { t₀ with tick := n + 1 }
  match E.startWorkConnRespUnmarshal data with
  | none => t.note (.refused .malformed)
  | some name =>
    match E.getProxyService name with
    | none => t.note (.refused .unknownProxy)
    | some ps =>
      if isServiceAvailable ps (E.currentHour n) = false then t.note (.refused .unavailable)
      else
        let tail := if rest = [] then t.client.dataTail else rest
        let t' := { t with client := { t.client with ps := some ps, dataTail := tail } }.note
          (.accepted ps)
        if ps.proxyType = .xtcp then t'.note (.refused .unsupported)
        else (startXfrpTunnel E t' ps n).touch .setClientWorkStart setClientWorkStart

/-- `handle_control_work` on the stream of a client. The other messages do
nothing to the client they come in on. -/
def handleControlWork (t : Conn) (buf : Bytes) : Conn :=
  let t' := t.note (.controlWork buf)
  match checkMsg buf with
  | none => t'
  | some (type, data) =>
    if type = MsgType.startWorkConn.code then
      handleTypeStartWorkConn E t' data (buf.drop (msgHdrSize + data.length))
    else t'

def setRx (t : Conn) (rx : Bytes) : Conn := t.setStream { t.life.stream with v2Rx := rx }

def frameToV1 (type : ℕ) (payload : Bytes) : Option Bytes :=
  if type = V2.frameMessage then V2.payloadToV1 payload else none

/-- `v2_consume_plain_frames` on the stream of a client. Each turn takes a frame
out of the buffer. -/
def v2ConsumePlainFrames : ℕ → Conn → Conn
  | 0, t => t
  | fuel + 1, t =>
    match V2.parseFrame t.life.stream.v2Rx with
    | .incomplete => t
    | .error => setRx t []
    | .frame type payload n =>
      let t' := match frameToV1 type payload with
        | some v1 => handleControlWork E t v1
        | none => t
      t'.touch .v2Rx fun t' ↦
        v2ConsumePlainFrames fuel (setRx t' (t'.life.stream.v2Rx.drop n))

/-- The buffer of the stream with what was received added, less the magic. -/
def received (s : TmuxStream) (buf : Bytes) : TmuxStream :=
  if s.v2MagicSeen = false ∧ V2.magic <+: buf then
    { s with v2MagicSeen := true, v2Rx := s.v2Rx ++ buf.drop V2.magic.length }
  else { s with v2Rx := s.v2Rx ++ buf }

def v2HandleBytes (t : Conn) (buf : Bytes) : Conn :=
  let s := received t.life.stream buf
  v2ConsumePlainFrames E (s.v2Rx.length + 1) (t.setStream s)

/-- `handle_frps_msg` on the stream of a client, which exists only after the
login. -/
def handleFrpsMsg (t : Conn) (buf : Bytes) : Conn :=
  if buf = [] then t
  else
    let t' := t.note (.frpsMsg buf)
    if E.conf.wireV2 then v2HandleBytes E t' buf else handleControlWork E t' buf

def cryptoEncrypt (ctx : CryptoCtx) (data : Bytes) : CryptoCtx × Bytes :=
  ({ ctx with ivDone := true, cfb := encryptCtx E.prims.aes ctx.cfb data },
    (if ctx.ivDone then [] else ctx.iv) ++ encrypt E.prims.aes ctx.cfb data)

/-- `crypto_encode_evbuffer` on a buffer that is not empty. -/
def cryptoEncodeEvbuffer (c : ProxyClient) (data : Bytes) : ProxyClient × Bytes :=
  let work := if c.useCompression then (E.compress data).getD data else data
  match c.useEncryption, c.encryptCtx with
  | true, some ctx =>
    let (ctx', enc) := cryptoEncrypt E ctx work
    ({ c with encryptCtx := some ctx' }, enc)
  | _, _ => (c, work)

/-- The decryption and decompression at the end of `proxy_crypto_decode_evbuffer`. -/
def cryptoDecode (c : ProxyClient) (data : Bytes) : ProxyClient × Bytes :=
  let (c', work) := match c.useEncryption, c.decryptCtx with
    | true, some ctx =>
      ({ c with decryptCtx := some { ctx with cfb := decryptCtx E.prims.aes ctx.cfb data } },
        decrypt E.prims.aes ctx.cfb data)
    | _, _ => (c, data)
  (c', if c.useCompression then (E.decompress work).getD work else work)

/-- `proxy_crypto_decode_evbuffer`: the client, the plaintext, and what is left
in the source. -/
def proxyCryptoDecodeEvbuffer (c : ProxyClient) (src : Bytes) : ProxyClient × Bytes × Bytes :=
  if src = [] then (c, [], [])
  else
    match c.useEncryption, c.decryptCtx with
    | true, some ctx =>
      if ctx.ivDone then
        let (c', plain) := cryptoDecode E c src
        (c', plain, [])
      else if src.length < 16 then (c, [], src)
      else
        let c₁ := { c with decryptCtx := some (cryptoSetIv ctx (src.take 16)) }
        if src.length = 16 then (c₁, [], [])
        else
          let (c', plain) := cryptoDecode E c₁ (src.drop 16)
          (c', plain, [])
    | _, _ =>
      let (c', plain) := cryptoDecode E c src
      (c', plain, [])

/-- `handle_xdpi` on a client with a service type. -/
def handleXdpi (t : Conn) (ps : ProxyService) (payload : Bytes) : Conn :=
  let c := t.client
  if c.xdpiState = .verified ∧ c.localProxyBev.isSome then { t with client := c.queue payload }
  else
    let buf := c.xdpiBuf ++ payload
    let (st, ok) := xdpiEngine ps.serviceType c.xdpiState buf
    if ok = false then { t with client := { c with xdpiState := .blocked, xdpiBuf := [] } }
    else if c.localProxyBev.isSome then
      { t with client := { c.queue buf with xdpiState := .verified, xdpiBuf := [] } }
    else if ps.localIp = false ∨ ps.localPort = 0 then
      { t with client := { c with xdpiState := st, xdpiBuf := [] } }
    else
      let t' := { t with tick := t.tick + 1 }
      if E.connectServer t.tick then
        { t' with client := { c.openLocal (some (.tcp buf)) with
          xdpiState := .verified, xdpiBuf := [] } }
      else { t' with client := { c with xdpiState := st, xdpiBuf := buf } }

/-- A temporary buffer given to `tmux_stream_write`. -/
def Conn.write (t : Conn) (data : Bytes) : Conn := { t with life := t.life.write data }

def noAuthResp : Bytes := [0x05, 0x00]

def successReply : Bytes := [0x05, 0x00, 0x00, 0x01, 0x00, 0x00, 0x00, 0x00, 0x00, 0x00]

/-- The greeting in the loop of `handle_socks5`; true when the loop goes on. -/
def socks5Greeting (t : Conn) : Conn × Bool :=
  let buf := t.client.socks5Buf
  if buf.length < 3 then (t, false)
  else if byteAt buf 0 ≠ 0x05 then ({ t with client := { t.client with state := .broken } }, false)
  else
    let t' := t.write noAuthResp
    let consumed := 2 + byteAt buf 1
    if buf.length < consumed then (t', false)
    else
      ({ t' with client := { t.client with
        socks5Buf := buf.drop consumed, state := .handshake } }, true)

/-- The request in the loop of `handle_socks5`. -/
def socks5Request (t : Conn) : Conn :=
  let buf := t.client.socks5Buf
  if buf.length < 4 then t
  else if byteAt buf 0 ≠ 0x05 ∨ byteAt buf 1 ≠ 0x01 ∨ byteAt buf 2 ≠ 0x00 then
    { t with client := { t.client with state := .broken } }
  else
    match parseSocks5Addr (buf.drop 3) with
    | none => t
    | some n =>
      let t' := { t with tick := t.tick + 1 }
      if E.connectServer t.tick then
        { t' with client := { t.client.openLocal (some (.tcp (buf.drop (3 + n)))) with
          socks5Buf := [], state := .connect } }
      else { t' with client := t.client.openLocal none }

/-- The loop of `handle_socks5`, which comes back once at most. -/
def socks5Loop (t : Conn) : Conn :=
  match t.client.state with
  | .init =>
    match socks5Greeting t with
    | (t', false) => t'
    | (t', true) => if t'.client.socks5Buf = [] then t' else socks5Request E t'
  | .handshake => socks5Request E t
  | .connect | .established | .broken => t

/-- `handle_socks5`, and whether it took the payload out of the input. -/
def handleSocks5 (t : Conn) (payload : Bytes) : Conn × Bool :=
  if t.client.state = .established then
    ({ t with client := t.client.queue payload }, t.client.localProxyBev.isSome)
  else
    (socks5Loop E { t with client := { t.client with socks5Buf := t.client.socks5Buf ++ payload } },
      true)

def defaultPath (c : ProxyClient) : Bool :=
  c.localProxyBev.isNone && !isSocks5Proxy c.ps && !hasServiceType c.ps

/-- The choice of a consumer in `process_data`, for a frame of a client. True
when the payload is taken out of the input. -/
def dispatchClient (t : Conn) (payload : Bytes) : Conn × Bool :=
  let c := t.client
  if defaultPath c then (handleFrpsMsg E t payload, true)
  else
    match c.ps with
    | none => (t, true)
    | some ps =>
      if hasServiceType ps then (handleXdpi E t ps payload, true)
      else if isSocks5Proxy ps then handleSocks5 E t payload
      else if isUdpProxy ps then (handleFrpsMsg E t payload, true)
      else if c.useEncryption || c.useCompression then
        let (c', plain, _) := proxyCryptoDecodeEvbuffer E c payload
        ({ t with client := c'.queue plain }, true)
      else ({ t with client := c.queue payload }, true)

/-- The handler of the control stream may send messages; `replies` are the
buffers it writes. -/
def dispatch (t : Conn) (payload : Bytes) (replies : List Bytes) : Conn × Bool :=
  match t.owner with
  | .control => (replies.foldl Conn.write t, true)
  | .client => dispatchClient E t payload

def Conn.settle (t : Conn) (length : ℕ) : Conn := { t with life := t.life.settle length }

/-- `process_data` on a frame that is all there, as `handle_tcp_mux` sees to. -/
def processData (t : Conn) (flags : ℕ) (payload : Bytes) (replies : List Bytes) : Conn × Bool :=
  match admitData flags payload.length t.life.stream with
  | .refused s | .exceeded s => (t.setStream s, false)
  | .freed s => ({ t with life := t.life.freed flags s }, false)
  | .admitted s =>
    let (t', drained) := dispatch E (t.setStream s) payload replies
    (t'.touch .settle (·.settle payload.length), drained)

def incrSendWindow (t : Conn) (flags increment : ℕ) : Conn :=
  match creditSendWindow flags increment t.life.stream with
  | .error s => t.setStream s
  | .freed s => { t with life := t.life.freed flags s }
  | .credited oldWindow s =>
    let t' := t.setStream s
    if s.sendWindow = 0 ∨ t.owner = .control then t'
    else if t.client.pendingClose then { t' with life := t'.life.close }
    else if oldWindow = 0 then
      { t' with client := { t.client with
        localProxyBev := t.client.localProxyBev.map fun b ↦ { b with evRead := true } } }
    else t'

inductive Which
  | current
  | orphan (i : ℕ)
  deriving DecidableEq, Repr

def ProxyClient.bevAt (c : ProxyClient) : Which → Option LocalBev
  | .current => c.localProxyBev
  | .orphan i => c.orphans[i]?

def ProxyClient.setBev (c : ProxyClient) (b : LocalBev) : Which → ProxyClient
  | .current => { c with localProxyBev := some b }
  | .orphan i => { c with orphans := c.orphans.set i b }

/-- `bufferevent_free(bev); client->local_proxy_bev = NULL`. -/
def ProxyClient.freeBev (c : ProxyClient) : Which → ProxyClient
  | .current => { c with localProxyBev := none, localEnded := true }
  | .orphan i =>
    { c with
      localProxyBev := none
      orphans := c.orphans.eraseIdx i ++ c.localProxyBev.toList
      localEnded := true }

section

variable (c : ProxyClient) (b : LocalBev) (w : Which)

@[simp] theorem ProxyClient.setBev_ps : (c.setBev b w).ps = c.ps := by cases w <;> rfl

@[simp] theorem ProxyClient.setBev_pendingClose :
    (c.setBev b w).pendingClose = c.pendingClose := by
  cases w <;> rfl

@[simp] theorem ProxyClient.setBev_localEnded :
    (c.setBev b w).localEnded = c.localEnded := by
  cases w <;> rfl

@[simp] theorem ProxyClient.setBev_workCb : (c.setBev b w).workCb = c.workCb := by cases w <;> rfl

@[simp] theorem ProxyClient.setBev_useEncryption :
    (c.setBev b w).useEncryption = c.useEncryption := by
  cases w <;> rfl

@[simp] theorem ProxyClient.setBev_useCompression :
    (c.setBev b w).useCompression = c.useCompression := by
  cases w <;> rfl

@[simp] theorem ProxyClient.setBev_encryptCtx :
    (c.setBev b w).encryptCtx = c.encryptCtx := by
  cases w <;> rfl

@[simp] theorem ProxyClient.setBev_encPending :
    (c.setBev b w).encPending = c.encPending := by
  cases w <;> rfl

@[simp] theorem ProxyClient.freeBev_ps : (c.freeBev w).ps = c.ps := by cases w <;> rfl

@[simp] theorem ProxyClient.freeBev_workCb : (c.freeBev w).workCb = c.workCb := by cases w <;> rfl

@[simp] theorem ProxyClient.freeBev_useEncryption :
    (c.freeBev w).useEncryption = c.useEncryption := by
  cases w <;> rfl

@[simp] theorem ProxyClient.freeBev_useCompression :
    (c.freeBev w).useCompression = c.useCompression := by
  cases w <;> rfl

@[simp] theorem ProxyClient.freeBev_encryptCtx :
    (c.freeBev w).encryptCtx = c.encryptCtx := by
  cases w <;> rfl

@[simp] theorem ProxyClient.freeBev_encPending :
    (c.freeBev w).encPending = c.encPending := by
  cases w <;> rfl

end

/-- `tcp_proxy_c2s_cb` with `tcp_mux` on. -/
def tcpProxyC2sCb (t : Conn) (w : Which) (b : LocalBev) : Conn :=
  let c := t.client
  if b.input = [] then t
  else if c.useEncryption || c.useCompression then
    let (c', enc) := cryptoEncodeEvbuffer E c b.input
    match t.life.writeAll (c.encPending ++ enc) with
    | (l, _, .done) =>
      { t with life := l, client := { c'.setBev { b with input := [] } w with encPending := [] } }
    | (l, rest, .blocked) =>
      { t with
        life := l
        client := { c'.setBev { b with input := [], evRead := false } w with encPending := rest } }
    | (l, _, .failed) => { t with life := l.delete }
  else
    match t.life.writeAll b.input with
    | (l, _, .done) => { t with life := l, client := c.setBev { b with input := [] } w }
    | (l, rest, .blocked) =>
      { t with life := l, client := c.setBev { b with input := rest, evRead := false } w }
    | (l, _, .failed) => { t with life := l.delete }

def handleProxyDisconnect (t : Conn) (w : Which) (b : LocalBev) : Conn :=
  if t.client.ps.isNone then t
  else
    let l := (t.life.writeAll b.input).1
    let c := t.client.freeBev w
    if l.stream.sendWindow = 0 then { t with life := l, client := { c with pendingClose := true } }
    else { t with life := l.close, client := c }

def sendClientDataTail (c : ProxyClient) : ProxyClient :=
  if c.dataTail = [] ∨ c.localProxyBev.isNone then c
  else if c.useEncryption || c.useCompression then
    let (c', plain, _) := proxyCryptoDecodeEvbuffer E c c.dataTail
    { c'.queue plain with dataTail := [] }
  else { c.queue c.dataTail with dataTail := [] }

/-- What `handle_post_connection_data` does to a socks5 client. -/
def socks5Established (c : ProxyClient) : ProxyClient :=
  let c' := if c.localProxyBev.isSome then { c.queue c.socks5Buf with socks5Buf := [] } else c
  { c' with state := .established }

def handlePostConnectionData (t : Conn) : Conn :=
  if isSocks5Proxy t.client.ps then
    { t.write successReply with client := socks5Established t.client }
  else { t with client := sendClientDataTail E t.client }

/-- What the event loop hands to a stream: frames of the server, and what its
local connections report. The read callback runs only with `EV_READ` enabled,
and an EOF or error comes with the bytes read before it in the same pass. -/
inductive Event
  | data (flags : ℕ) (payload : Bytes) (replies : List Bytes)
  | windowUpdate (flags increment : ℕ)
  | connected (w : Which)
  | readable (w : Which) (d : Bytes)
  | closed (w : Which) (d : Bytes)
  | send (src : Bytes)
  deriving DecidableEq, Repr

def readCb (t : Conn) (w : Which) (b : LocalBev) : Conn :=
  if b.stub then { t with client := t.client.setBev b w } else tcpProxyC2sCb E t w b

def onConnected (t : Conn) (w : Which) (b : LocalBev) : Conn :=
  if b.connecting then
    handlePostConnectionData E
      { t with client := t.client.setBev { b with connecting := false } w }
  else t

def onReadable (t : Conn) (w : Which) (d : Bytes) (b : LocalBev) : Conn :=
  if b.connecting = false ∧ b.evRead ∧ d ≠ [] then readCb E t w { b with input := b.input ++ d }
  else t

def LocalBev.lastRead (b : LocalBev) (d : Bytes) : LocalBev :=
  if b.connecting = false ∧ b.evRead then { b with input := b.input ++ d } else b

def onClosed (t : Conn) (w : Which) (d : Bytes) (b : LocalBev) : Conn :=
  if isUdpProxy t.client.ps then { t with client := t.client.setBev (b.lastRead d) w }
  else handleProxyDisconnect t w (b.lastRead d)

def Conn.withBev (t : Conn) (w : Which) (f : LocalBev → Conn) : Conn :=
  if t.life.alive then
    match t.client.bevAt w with
    | some b => f b
    | none => t
  else t

def step (t : Conn) : Event → Conn
  | .data flags payload replies =>
    if t.life.alive ∧ payload ≠ [] ∧ payload.length ≤ maxStreamWindowSize then
      (processData E t flags payload replies).1
    else t
  | .windowUpdate flags increment =>
    if t.life.alive ∧ hasFlag flags .syn = false then incrSendWindow t flags increment else t
  | .connected w => t.withBev w (onConnected E t w)
  | .readable w d => t.withBev w (onReadable E t w d)
  | .closed w d => t.withBev w (onClosed t w d)
  | .send src => if t.owner = .control then t.write src else t

/-- The stream is opened: the SYN goes out, and the first message after it. -/
def Conn.start (owner : Owner) (id : ℕ) (msg : Bytes) : Conn :=
  let opened : Life := ⟨initTmuxStream id .init, true, [], false⟩
  { owner, life := (opened.settle 0).write msg, client := .new, tick := 0, log := [] }

variable {E}

theorem withBev_ind {P : Conn → Prop} {t : Conn} {w : Which} {f : LocalBev → Conn} (h : P t)
    (hf : ∀ b, t.life.alive = true → t.client.bevAt w = some b → P (f b)) :
    P (t.withBev w f) := by
  unfold Conn.withBev
  by_cases ha : t.life.alive = true
  · rw [if_pos ha]
    cases hb : t.client.bevAt w with
    | none => exact h
    | some b => exact hf b ha hb
  · rw [if_neg ha]
    exact h

end Xfrpc.Tunnel.Client
