import Xfrpc.Tunnel.Direct
import Xfrpc.Tunnel.Outbound

namespace Xfrpc.Tunnel.Secrecy

open Client Closing Crypto.Cfb Lifetime Mux.Header Mux.Stream Service StartWork Tcp
open Direct (Work direct)
open Outbound (encode encode_nil encode_snoc writer)

/-- What comes of the calls with which `start_xfrp_tunnel` makes the contexts. -/
structure Setup where
  deriveKey : Bool
  newWriter : Bool
  newReader : Bool
  deriving DecidableEq, Repr

def Setup.done : Setup := ⟨true, true, true⟩

/-- The crypto part of `start_xfrp_tunnel`, whose calls may fail. -/
def setupCrypto (E : Env) (o : Setup) (c : ProxyClient) (ps : ProxyService) (n : ℕ) : ProxyClient :=
  let c' := { c with useEncryption := ps.useEncryption, useCompression := ps.useCompression }
  match ps.useEncryption, E.conf.authToken with
  | true, some token =>
    if o.deriveKey then
      let key := cryptoDeriveKey E.prims token
      { c' with
        encryptCtx := if o.newWriter then some (cryptoCtxNewWriter key (E.prims.randBytes n)) else none
        decryptCtx := if o.newReader then some (cryptoCtxNewReader key) else none }
    else c'
  | _, _ => c'

def startTunnel (E : Env) (o : Setup) (t : Conn) (ps : ProxyService) (n : ℕ) : Conn :=
  if ps.localPort = 0 ∧ isUdsProxy ps = false then t.note (.refused .badConfig)
  else setupLocalConnection E { t with client := setupCrypto E o t.client ps n } ps n

theorem setupCrypto_done (E : Env) (c : ProxyClient) (ps : ProxyService) (n : ℕ) :
    setupCrypto E .done c ps n = initCrypto E c ps n := rfl

theorem startTunnel_done (E : Env) (t : Conn) (ps : ProxyService) (n : ℕ) :
    startTunnel E .done t ps n = startXfrpTunnel E t ps n := rfl

/-- The tunnel is started; else the client is left as it is or removed. -/
def Started (E : Env) (ps : ProxyService) (n : ℕ) : Prop :=
  (ps.localPort ≠ 0 ∨ isUdsProxy ps = true) ∧ localConnection E ps n ≠ some none

/-- A client with its connection to the server, with and without `tcp_mux`. -/
inductive Server
  | mux (t : Conn)
  | direct (t : Work)

def Server.client : Server → ProxyClient
  | .mux t => t.client
  | .direct t => t.client

def Server.up : Server → Bool
  | .mux t => t.life.alive && decide (t.life.stream.state ≠ .init)
  | .direct t => t.conn.life.alive && t.ctlBev

def Server.writable : Server → Bool
  | .mux t => !t.life.stream.state.writeClosed
  | .direct _ => true

/-- What has been given to the connection. -/
def Server.sent : Server → Bytes
  | .mux t => dataBytes t.life.out
  | .direct t => t.output

def Server.startTunnel (E : Env) (o : Setup) (ps : ProxyService) (n : ℕ) : Server → Server
  | .mux t => .mux (Secrecy.startTunnel E o t ps n)
  | .direct t => .direct { t with conn := Secrecy.startTunnel (Direct.direct E) o t.conn ps n }

/-- `tcp_proxy_c2s_cb`. -/
def Server.c2s (E : Env) (w : Which) (b : LocalBev) : Server → Server
  | .mux t => .mux (tcpProxyC2sCb E t w b)
  | .direct t => .direct (Direct.tcpProxyC2sCb E t w b)

/-- What `tcp_proxy_c2s_cb` and no other callback works with. -/
def outbound (c : ProxyClient) : Bool × Bool × Option CryptoCtx × Bytes :=
  (c.useEncryption, c.useCompression, c.encryptCtx, c.encPending)

/-- What has been given is the IV and the ciphertext behind it. As long as the
client is there, what is missing of that waits in `enc_pending`. -/
def Sealed (E : Env) (ps : ProxyService) (read : List Bytes) (given : Bytes) (s : Server) : Prop :=
  ∃ iv : Bytes, iv.length = 16 ∧ given <+: encode E ps iv read ∧
    (s.up = true → given ++ s.client.encPending = encode E ps iv read)

variable {E : Env} {ps : ProxyService}

theorem writeEnd_done_drop {s : TmuxStream} {src : Bytes} (h : writeEnd s src = .done) :
    src.drop (sendable s src.length) = [] := by
  unfold writeEnd at h
  by_cases hs : src = []
  · rw [hs, List.drop_nil]
  · rw [if_neg hs] at h
    split_ifs at h with hc hlen
    rw [sendable, if_neg hc, List.drop_eq_nil_iff]
    omega

theorem parked_outbound {c : ProxyClient} (he : c.useEncryption = true) (w : Which) (b : LocalBev)
    (rest : Bytes) (ev : Bool) :
    outbound (parked E c w b rest ev) =
      outbound { (cryptoEncodeEvbuffer E c b.input).1 with encPending := rest } := by
  unfold parked
  rw [he, Bool.true_or, if_pos rfl]
  simp [outbound]

theorem c2s_spec {s : Server} (hup : s.up = true) (he : s.client.useEncryption = true) (w : Which)
    {b : LocalBev} (hb : b.input ≠ []) :
    ∃ k, (s.c2s E w b).sent = s.sent ++ (toSend E s.client b.input).take k ∧
      ((s.c2s E w b).up = true → outbound (s.c2s E w b).client =
        outbound { (cryptoEncodeEvbuffer E s.client b.input).1 with
          encPending := (toSend E s.client b.input).drop k }) ∧
      (s.writable = true → (s.c2s E w b).up = true) := by
  cases s with
  | mux t =>
    obtain ⟨ha, hinit⟩ : t.life.alive = true ∧ t.life.stream.state ≠ .init := by
      simpa [Server.up] using hup
    obtain ⟨l, hw, hcb⟩ := tcpProxyC2sCb_spec (E := E) hinit w hb rfl
    obtain ⟨frames, hout, hbytes, -⟩ := hw.out
    have hsent : dataBytes l.out = dataBytes t.life.out ++
        (toSend E t.client b.input).take
          (sendable t.life.stream (toSend E t.client b.input).length) := by
      rw [hout, dataBytes_append, hbytes]
    have hlup : (l.alive && decide (l.stream.state ≠ .init)) = true := by
      simp [hw.alive, ha, hw.state_ne]
    refine ⟨sendable t.life.stream (toSend E t.client b.input).length, ?_⟩
    simp only [Server.c2s, Server.sent, Server.up, Server.client, Server.writable]
    rw [hcb]
    cases hend : writeEnd t.life.stream (toSend E t.client b.input) with
    | done =>
      refine ⟨hsent, fun _ ↦ ?_, fun _ ↦ hlup⟩
      rw [writeEnd_done_drop hend]
      exact parked_outbound he w b [] _
    | blocked => exact ⟨hsent, fun _ ↦ parked_outbound he w b _ _, fun _ ↦ hlup⟩
    | failed =>
      refine ⟨hsent, fun h ↦ ?_, fun h ↦ ?_⟩
      · simp [Life.delete] at h
      · exfalso
        unfold writeEnd at hend
        split_ifs at hend with h₁ h₂
        rw [h₂] at h
        cases h
  | direct t =>
    obtain ⟨ha, hbev⟩ : t.conn.life.alive = true ∧ t.ctlBev = true := by
      simpa [Server.up] using hup
    have he' : t.client.useEncryption = true := he
    have hcb : Direct.tcpProxyC2sCb E t w b =
        (t.send (toSend E t.client b.input)).setClient
          { (cryptoEncodeEvbuffer E t.client b.input).1.setBev { b with input := [] } w with
            encPending := [] } := by
      simp [Direct.tcpProxyC2sCb, hbev, hb, he', toSend]
    refine ⟨(toSend E t.client b.input).length, ?_⟩
    simp only [Server.c2s, Server.sent, Server.up, Server.client, Server.writable]
    rw [hcb]
    refine ⟨?_, fun _ ↦ ?_, fun _ ↦ ?_⟩
    · simp [Work.send, Work.setClient, hbev]
    · simp [Work.send, Work.setClient, Work.client, outbound]
    · simp [Work.send, Work.setClient, ha, hbev]

/-- The writer stands behind what has been read, and what has been given and what
is pending make up the encoding. -/
structure Keeping (E : Env) (ps : ProxyService) (iv : Bytes) (read : List Bytes) (given : Bytes)
    (s : Server) : Prop where
  front : given <+: encode E ps iv read
  useEncryption : s.up = true → s.client.useEncryption = ps.useEncryption
  useCompression : s.up = true → s.client.useCompression = ps.useCompression
  writer : s.up = true → s.client.encryptCtx = some (writer E ps iv read)
  whole : s.up = true → given ++ s.client.encPending = encode E ps iv read

theorem Keeping.other {iv given : Bytes} {read : List Bytes} {s s' : Server}
    (h : Keeping E ps iv read given s)
    (hs : s'.up = true → s.up = true ∧ outbound s'.client = outbound s.client) :
    Keeping E ps iv read given s' := by
  have hfields : s'.up = true → s.up = true ∧
      s'.client.useEncryption = s.client.useEncryption ∧
      s'.client.useCompression = s.client.useCompression ∧
      s'.client.encryptCtx = s.client.encryptCtx ∧
      s'.client.encPending = s.client.encPending := by
    intro hup
    obtain ⟨hup', ho⟩ := hs hup
    simp only [outbound, Prod.mk.injEq] at ho
    exact ⟨hup', ho⟩
  refine ⟨h.front, fun hup ↦ ?_, fun hup ↦ ?_, fun hup ↦ ?_, fun hup ↦ ?_⟩
  · obtain ⟨hup', hue, -⟩ := hfields hup
    exact hue.trans (h.useEncryption hup')
  · obtain ⟨hup', -, huc, -⟩ := hfields hup
    exact huc.trans (h.useCompression hup')
  · obtain ⟨hup', -, -, henc, -⟩ := hfields hup
    exact henc.trans (h.writer hup')
  · obtain ⟨hup', -, -, -, hpend⟩ := hfields hup
    rw [hpend]
    exact h.whole hup'

theorem Keeping.c2s (hps : ps.useEncryption = true) {iv given : Bytes} {read : List Bytes}
    {s : Server} (h : Keeping E ps iv read given s) (hup : s.up = true) (w : Which) {b : LocalBev}
    (hb : b.input ≠ []) :
    Keeping E ps iv (read ++ [b.input]) (given ++ (s.c2s E w b).sent.drop s.sent.length)
      (s.c2s E w b) := by
  have hue := h.useEncryption hup
  obtain ⟨hnext, hwriter⟩ := encode_snoc (E := E) hue (h.useCompression hup)
    (fun _ ↦ h.writer hup) b.input
  obtain ⟨k, hsent, hout, -⟩ := c2s_spec (E := E) hup (hue.trans hps) w hb
  have hsrc : toSend E s.client b.input =
      s.client.encPending ++ (cryptoEncodeEvbuffer E s.client b.input).2 := by
    rw [toSend, hue, hps, Bool.true_or, if_pos rfl]
  have hgiven : given ++ toSend E s.client b.input = encode E ps iv (read ++ [b.input]) := by
    rw [hsrc, ← List.append_assoc, h.whole hup, hnext]
  have hfields : (s.c2s E w b).up = true →
      (s.c2s E w b).client.useEncryption = s.client.useEncryption ∧
      (s.c2s E w b).client.useCompression = s.client.useCompression ∧
      (s.c2s E w b).client.encryptCtx = (cryptoEncodeEvbuffer E s.client b.input).1.encryptCtx ∧
      (s.c2s E w b).client.encPending = (toSend E s.client b.input).drop k := by
    intro hup'
    have ho := hout hup'
    obtain ⟨ctx, henc⟩ := encode_eq (E := E) s.client b.input
    simp only [outbound, Prod.mk.injEq] at ho
    rw [henc] at ho ⊢
    exact ho
  rw [hsent, List.drop_left]
  refine ⟨?_, fun hup' ↦ (hfields hup').1.trans hue,
    fun hup' ↦ (hfields hup').2.1.trans (h.useCompression hup),
    fun hup' ↦ (hfields hup').2.2.1.trans (hwriter hps), fun hup' ↦ ?_⟩
  · rw [← hgiven]
    exact List.prefix_append_right_inj _ |>.mpr (List.take_prefix k _)
  · rw [(hfields hup').2.2.2, List.append_assoc, List.take_append_drop, hgiven]

theorem startTunnel_started {n : ℕ} (h : Started E ps n) (o : Setup) (t : Conn) :
    outbound (startTunnel E o t ps n).client = outbound (setupCrypto E o t.client ps n) ∧
      (startTunnel E o t ps n).life = t.life := by
  obtain ⟨hport, hconn⟩ := h
  have hgood : ¬ (ps.localPort = 0 ∧ isUdsProxy ps = false) := by
    rintro ⟨h₀, hu⟩
    rcases hport with hp | hp
    · exact hp h₀
    · rw [hu] at hp
      cases hp
  rw [startTunnel, if_neg hgood]
  unfold setupLocalConnection
  cases hl : localConnection E ps n with
  | none => exact ⟨rfl, rfl⟩
  | some bev =>
    cases bev with
    | none => exact absurd hl hconn
    | some b =>
      refine ⟨?_, rfl⟩
      dsimp only
      unfold setupProxyCallbacks
      split_ifs <;> rfl

/-- A client that waits for its tunnel, on a connection that is open. -/
structure Ready (s : Server) : Prop where
  up : s.up = true
  writable : s.writable = true
  encryptCtx : s.client.encryptCtx = none
  encPending : s.client.encPending = []

theorem Ready.startTunnel {s : Server} (h : Ready s) {n : ℕ} (hs : Started E ps n) (o : Setup) :
    (s.startTunnel E o ps n).up = true ∧ (s.startTunnel E o ps n).writable = true ∧
      outbound (s.startTunnel E o ps n).client = outbound (setupCrypto E o s.client ps n) := by
  cases s with
  | mux t =>
    obtain ⟨ho, hl⟩ := startTunnel_started hs o t
    simp only [Server.startTunnel, Server.up, Server.writable, Server.client]
    rw [hl]
    exact ⟨h.up, h.writable, ho⟩
  | direct t =>
    have hs' : Started (Direct.direct E) ps n := hs
    obtain ⟨ho, hl⟩ := startTunnel_started hs' o t.conn
    simp only [Server.startTunnel, Server.up, Server.writable, Server.client]
    rw [hl]
    exact ⟨h.up, trivial, ho⟩

def waiting : Server := .mux (.start .client 3 [])

end Xfrpc.Tunnel.Secrecy
