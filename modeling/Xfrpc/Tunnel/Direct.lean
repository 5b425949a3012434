import Xfrpc.Tunnel.StartWork

namespace Xfrpc.Tunnel.Direct

open Client Control.Message Foundations.Runs Lifetime Mux.Header Mux.Stream Service StartWork

/-- A client without `tcp_mux`, with a work connection of its own: the input of
that connection, and what has been queued to the server. `ctlBev` says that the
connection is still there. -/
structure Work where
  conn : Conn
  ctlBev : Bool
  input : Bytes
  output : Bytes
  deriving DecidableEq, Repr

def Work.client (t : Work) : ProxyClient := t.conn.client

def Work.setClient (t : Work) (c : ProxyClient) : Work := { t with conn := { t.conn with client := c } }

/-- `bufferevent_write(client->ctl_bev, ..)`. -/
def Work.send (t : Work) (data : Bytes) : Work :=
  { t with output := if t.ctlBev then t.output ++ data else t.output }

/-- The same client with `tcp_mux` off. -/
def direct (E : Env) : Env := { E with conf := { E.conf with tcpMux := false } }

variable (E : Env)

/-- `handle_non_mux` on a work connection, which exists only after the login. -/
def handleNonMux (t : Work) : Work :=
  { t with conn := handleFrpsMsg (direct E) t.conn t.input, input := [] }

def tcpProxyS2cCb (t : Work) : Work :=
  let c := t.client
  if c.localProxyBev.isNone ∨ t.input = [] then t
  else if c.useEncryption || c.useCompression then
    let (c', plain, rest) := proxyCryptoDecodeEvbuffer E c t.input
    { t.setClient (c'.queue plain) with input := rest }
  else { t.setClient (c.queue t.input) with input := [] }

def workReadCb (t : Work) : Work :=
  match t.client.workCb with
  | .start => handleNonMux E t
  | .tcp => tcpProxyS2cCb E t
  | .udp => t

/-- The event callback of the work connection on an EOF or error: `handle_client_error`
removes the client, `xfrp_worker_event_cb` does not. -/
def workEventCb (t : Work) : Work :=
  match t.client.workCb with
  | .start => { t with conn := { t.conn with life := t.conn.life.delete }, ctlBev := false, input := [] }
  | .tcp | .udp => { t with ctlBev := false, input := [] }

/-- `tcp_proxy_c2s_cb` with `tcp_mux` off. -/
def tcpProxyC2sCb (t : Work) (w : Which) (b : LocalBev) : Work :=
  let c := t.client
  if t.ctlBev = false ∨ b.input = [] then t.setClient (c.setBev b w)
  else if c.useEncryption || c.useCompression then
    let (c', enc) := cryptoEncodeEvbuffer E c b.input
    (t.send (c.encPending ++ enc)).setClient
      { c'.setBev { b with input := [] } w with encPending := [] }
  else (t.send b.input).setClient (c.setBev { b with input := [] } w)

/-- `handle_proxy_disconnect` with `tcp_mux` off: the stream, which was never
opened, is closed all the same. -/
def handleProxyDisconnect (t : Work) (w : Which) (b : LocalBev) : Work :=
  if t.client.ps.isNone then t
  else
    let c := t.client.freeBev w
    let t' := t.send b.input
    if t.conn.life.stream.sendWindow = 0 then t'.setClient { c with pendingClose := true }
    else { t' with conn := { t.conn with client := c, life := t.conn.life.close } }

def handlePostConnectionData (t : Work) : Work :=
  if isSocks5Proxy t.client.ps then (t.send successReply).setClient (socks5Established t.client)
  else t.setClient (sendClientDataTail E t.client)

inductive Event
  | work (d : Bytes)
  | workClosed (d : Bytes)
  | connected (w : Which)
  | readable (w : Which) (d : Bytes)
  | closed (w : Which) (d : Bytes)
  deriving DecidableEq, Repr

def onConnected (t : Work) (w : Which) (b : LocalBev) : Work :=
  if b.connecting then
    handlePostConnectionData E (t.setClient (t.client.setBev { b with connecting := false } w))
  else t

def onReadable (t : Work) (w : Which) (d : Bytes) (b : LocalBev) : Work :=
  if b.connecting = false ∧ b.evRead ∧ d ≠ [] then
    let b' := { b with input := b.input ++ d }
    if b.stub then t.setClient (t.client.setBev b' w) else tcpProxyC2sCb E t w b'
  else t

def onClosed (t : Work) (w : Which) (d : Bytes) (b : LocalBev) : Work :=
  if isUdpProxy t.client.ps then t.setClient (t.client.setBev (b.lastRead d) w)
  else handleProxyDisconnect t w (b.lastRead d)

def Work.withBev (t : Work) (w : Which) (f : LocalBev → Work) : Work :=
  match t.client.bevAt w with
  | some b => f b
  | none => t

theorem withBev_ind {P : Work → Prop} {t : Work} {w : Which} {f : LocalBev → Work} (h : P t)
    (hf : ∀ b, t.client.bevAt w = some b → P (f b)) : P (t.withBev w f) := by
  unfold Work.withBev
  cases hb : t.client.bevAt w with
  | none => exact h
  | some b => exact hf b hb

/-- One callback of the event loop. A client that is gone has none; the bytes of the
last pass before an EOF are read but not handled. -/
def step (t : Work) (e : Event) : Work :=
  if t.conn.life.alive = false then t
  else
    match e with
    | .work d =>
      if t.ctlBev ∧ d ≠ [] then workReadCb E { t with input := t.input ++ d } else t
    | .workClosed d => if t.ctlBev then workEventCb { t with input := t.input ++ d } else t
    | .connected w => t.withBev w (onConnected E t w)
    | .readable w d => t.withBev w (onReadable E t w d)
    | .closed w d => t.withBev w (onClosed t w d)

/-- The work connection is up and the first message has been queued. -/
def Work.start (id : ℕ) (msg : Bytes) : Work :=
  { conn :=
      { owner := .client, life := ⟨initTmuxStream id .init, true, [], false⟩, client := .new
        tick := 0, log := [] }
    ctlBev := true
    input := []
    output := msg }

end Xfrpc.Tunnel.Direct
