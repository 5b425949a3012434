import Xfrpc.Control.Receive
import Xfrpc.Crypto.AeadStream
import Xfrpc.Wire.V2

namespace Xfrpc.Control.ReceiveV2

open Foundations.BigEndian Message Receive Crypto.Coder Crypto.Aead Crypto.AeadStream Wire

/-- The parts of the handshake that other libraries compute: the algorithm an
accepted ServerHello selects, the hash, the key derivation and a random nonce. -/
structure Handshake where
  parseServerHelloJson : Bytes → Option Bytes
  sha256 : Bytes → Bytes
  hkdf : Bytes → Bytes → Bytes → Option Bytes
  rand : { b : Bytes // b.length = gcmNonceSize }

/-- `derive_v2_control_keys`: the keys towards the server and from it. -/
def Handshake.deriveKeys (H : Handshake) (token transcript alg : Bytes) : Option (Bytes × Bytes) :=
  let info (dir : String) := V2.ascii "frp wire v2 control aead " ++ alg ++ V2.ascii dir
  (H.hkdf token transcript (info " client-to-server")).bind fun c2s ↦
    (H.hkdf token transcript (info " server-to-client")).map fun s2c ↦ (c2s, s2c)

/-- The calls the control channel is there for. -/
inductive Call
  | loginResponse (v1 : Bytes)
  | controlWork (v1 : Bytes)
  deriving DecidableEq, Repr

/-- The control stream of the v2 protocol, with the static flags of `control.c`. -/
structure Conn where
  rx : Bytes
  magicSeen : Bool
  gotHello : Bool
  isLogin : Bool
  aeadReady : Bool
  reader : AeadReader
  writer : AeadWriter
  calls : List Call
  deriving DecidableEq

variable (P : Primitives) (H : Handshake) (authToken : Option Bytes) (chJson : Bytes)
  (loginCheck : Bytes → Bool)

def helloKeys (sh : Bytes) : Option (Bytes × Bytes) :=
  (H.parseServerHelloJson sh).bind fun alg ↦
    H.deriveKeys (authToken.getD []) (H.sha256 (V2.transcript chJson sh)) alg

def v2InitAeadFromHello (c : Conn) (sh : Bytes) : Option Conn :=
  (helloKeys H authToken chJson sh).map fun keys ↦
    { c with
      writer := aeadWriterInit keys.1 H.rand
      reader := aeadReaderInit keys.2
      gotHello := true }

/-- Whether `handle_login_response` takes the buffer for a good LoginResp. -/
def loginAccepted (v1 : Bytes) : Bool :=
  v1.headD 0 = MsgType.loginResp.code ∧ loginCheck ((v1.drop msgHdrSize).take (dataLen v1).toNat)

/-- `v2_dispatch_v1_buf` on the control stream. -/
def v2DispatchV1Buf (c : Conn) (v1 : Bytes) : Conn :=
  if c.isLogin then { c with calls := c.calls ++ [.controlWork v1] }
  else { c with calls := c.calls ++ [.loginResponse v1], isLogin := loginAccepted loginCheck v1 }

inductive Turn
  | stop (c : Conn)
  | next (c : Conn)

/-- One turn of the loop of `v2_consume_plain_frames`, up to the point where the
frame is taken out of the buffer. -/
def consumeTurn (c : Conn) : Turn :=
  if c.rx.length < 8 then .stop c
  else
    match V2.parseFrame c.rx with
    | .incomplete => .stop c
    | .error => .stop { c with rx := [] }
    | .frame type payload n =>
      let rest := c.rx.drop n
      if c.gotHello = false then
        if type ≠ V2.frameServerHello then .stop { c with rx := rest }
        else
          match v2InitAeadFromHello H authToken chJson c payload with
          | none => .stop { c with rx := rest }
          | some c' => .next { c' with rx := rest }
      else if type = V2.frameMessage then
        match V2.payloadToV1 payload with
        | none => .next { c with rx := rest }
        | some v1 => .next { v2DispatchV1Buf loginCheck c v1 with rx := rest }
      else .next { c with rx := rest }

def switchDue (c : Conn) : Bool := c.isLogin && c.gotHello && !c.aeadReady

/-- The switch to AEAD: what is left in the buffer is ciphertext, and its
plaintext goes through the function once more. -/
def switchToAead (again : Conn → Conn) (c : Conn) : Conn :=
  if c.rx = [] then { c with aeadReady := true }
  else
    let (r, ok) := aeadReaderFeed P c.reader c.rx
    if ok = true ∧ r.ptBuf ≠ [] then
      again { c with aeadReady := true, reader := { r with ptBuf := [] }, rx := r.ptBuf }
    else { c with aeadReady := true, reader := r, rx := [] }

def consumeLoop (again : Conn → Conn) : ℕ → Conn → Conn
  | 0, c => c
  | fuel + 1, c =>
    match consumeTurn H authToken chJson loginCheck c with
    | .stop c' => c'
    | .next c' => if switchDue c' then switchToAead P again c' else consumeLoop again fuel c'

/-- `v2_consume_plain_frames`. It calls itself at most once, as the switch
happens only once, and each turn takes a frame out of the buffer. -/
def v2ConsumePlainFrames (c : Conn) : Conn :=
  consumeLoop P H authToken chJson loginCheck
    (fun c' ↦ consumeLoop P H authToken chJson loginCheck id (c'.rx.length + 1) c')
    (c.rx.length + 1) c

/-- `v2_handle_bytes` past the magic. -/
def handleRest (c : Conn) (p : Bytes) : Conn :=
  if c.aeadReady then
    let (r, ok) := aeadReaderFeed P c.reader p
    if ok = false ∨ r.ptBuf = [] then { c with reader := r }
    else
      v2ConsumePlainFrames P H authToken chJson loginCheck
        { c with reader := { r with ptBuf := [] }, rx := c.rx ++ r.ptBuf }
  else v2ConsumePlainFrames P H authToken chJson loginCheck { c with rx := c.rx ++ p }

def v2HandleBytes (c : Conn) (buf : Bytes) : Conn :=
  if c.magicSeen = false ∧ V2.magic <+: buf then
    handleRest P H authToken chJson loginCheck { c with magicSeen := true }
      (buf.drop V2.magic.length)
  else handleRest P H authToken chJson loginCheck c buf

structure ServerMsg where
  id : ℕ
  type : MsgType
  json : Bytes
  known : V2.idToMsgType id = some type
  fits : 2 + json.length ≤ V2.maxFramePayload
  deriving DecidableEq

def ServerMsg.payload (m : ServerMsg) : Bytes := toBe 2 m.id ++ m.json

def ServerMsg.frame (m : ServerMsg) : Bytes := V2.encodeFrame V2.frameMessage m.payload

def ServerMsg.v1 (m : ServerMsg) : Bytes := frameMsg m.type.code m.json

def frames (msgs : List ServerMsg) : Bytes := (msgs.map ServerMsg.frame).flatten

variable {P H authToken chJson loginCheck}

theorem ServerMsg.payload_length (m : ServerMsg) : m.payload.length ≤ V2.maxFramePayload := by
  rw [ServerMsg.payload, List.length_append, toBe_length]
  exact m.fits

theorem ServerMsg.frame_length (m : ServerMsg) : 8 ≤ m.frame.length := by
  rw [ServerMsg.frame, V2.encodeFrame_length, V2.frameHeaderSize]
  omega

theorem frames_cons (m : ServerMsg) (msgs : List ServerMsg) :
    frames (m :: msgs) = m.frame ++ frames msgs := rfl

theorem consumeTurn_part {c : Conn} {type : ℕ} {payload : Bytes} (ht : type < 256 ^ 2)
    (hl : payload.length ≤ V2.maxFramePayload) (hp : c.rx <+: V2.encodeFrame type payload)
    (hlt : c.rx.length < (V2.encodeFrame type payload).length) :
    consumeTurn H authToken chJson loginCheck c = .stop c := by
  unfold consumeTurn
  by_cases h8 : c.rx.length < 8
  · rw [if_pos h8]
  · rw [if_neg h8, V2.parseFrame_part ht hl hp hlt]

theorem consumeTurn_message {c : Conn} {m : ServerMsg} {rest : Bytes} (hg : c.gotHello = true)
    (hrx : c.rx = m.frame ++ rest) :
    consumeTurn H authToken chJson loginCheck c =
      .next { v2DispatchV1Buf loginCheck c m.v1 with rx := rest } := by
  have hparse : V2.parseFrame c.rx = .frame V2.frameMessage m.payload m.frame.length := by
    rw [hrx]
    exact V2.parseFrame_encodeFrame rest (by decide) m.payload_length
  have hlen := m.frame_length
  have h8 : ¬ c.rx.length < 8 := by
    rw [hrx, List.length_append]
    omega
  have hv1 : V2.payloadToV1 m.payload = some m.v1 := V2.payloadToV1_known m.known m.json
  have hdrop : c.rx.drop m.frame.length = rest := by
    rw [hrx, List.drop_left' rfl]
  unfold consumeTurn
  rw [if_neg h8, hparse]
  dsimp only
  rw [hg, if_neg (by simp), if_pos rfl, hv1, hdrop]

theorem consumeTurn_hello {c : Conn} {sh rest : Bytes} {keys : Bytes × Bytes}
    (hg : c.gotHello = false) (hl : sh.length ≤ V2.maxFramePayload)
    (hk : helloKeys H authToken chJson sh = some keys)
    (hrx : c.rx = V2.encodeFrame V2.frameServerHello sh ++ rest) :
    consumeTurn H authToken chJson loginCheck c =
      .next { c with
        writer := aeadWriterInit keys.1 H.rand
        reader := aeadReaderInit keys.2
        gotHello := true
        rx := rest } := by
  have hparse : V2.parseFrame c.rx =
      .frame V2.frameServerHello sh (V2.encodeFrame V2.frameServerHello sh).length := by
    rw [hrx]
    exact V2.parseFrame_encodeFrame rest (by decide) hl
  have h8 : ¬ c.rx.length < 8 := by
    rw [hrx, List.length_append, V2.encodeFrame_length, V2.frameHeaderSize]
    omega
  have hdrop : c.rx.drop (V2.encodeFrame V2.frameServerHello sh).length = rest := by
    rw [hrx, List.drop_left' rfl]
  have hinit : v2InitAeadFromHello H authToken chJson c sh = some { c with
        writer := aeadWriterInit keys.1 H.rand
        reader := aeadReaderInit keys.2
        gotHello := true } := by
    rw [v2InitAeadFromHello, hk, Option.map_some]
  unfold consumeTurn
  rw [if_neg h8, hparse]
  dsimp only
  rw [hg, if_pos rfl, if_neg (by simp), hinit, hdrop]

structure Ready (c : Conn) : Prop where
  gotHello : c.gotHello = true
  isLogin : c.isLogin = true
  aeadReady : c.aeadReady = true

def Short (left : Bytes) : List ServerMsg → Prop
  | [] => True
  | m :: _ => left.length < m.frame.length

def workCalls (msgs : List ServerMsg) : List Call := msgs.map fun m ↦ .controlWork m.v1

theorem consumeTurn_short {c : Conn} {msgs : List ServerMsg} {rest : Bytes}
    (hrx : c.rx ++ rest = frames msgs) (hshort : Short c.rx msgs) :
    consumeTurn H authToken chJson loginCheck c = .stop c := by
  cases msgs with
  | nil =>
    have hnil := (List.append_eq_nil_iff.mp hrx).1
    rw [consumeTurn, if_pos (by rw [hnil]; decide)]
  | cons m msgs =>
    have hpre : c.rx <+: m.frame :=
      List.prefix_of_prefix_length_le ⟨rest, hrx⟩ ⟨frames msgs, rfl⟩ (Nat.le_of_lt hshort)
    exact consumeTurn_part (by decide) m.payload_length hpre hshort

variable (P H authToken chJson loginCheck) in
theorem consumeLoop_ready (again : Conn → Conn) {fuel : ℕ} {c : Conn} (hc : Ready c)
    {msgs : List ServerMsg} {rest : Bytes} (hrx : c.rx ++ rest = frames msgs)
    (hfuel : c.rx.length < fuel) :
    ∃ done todo left, msgs = done ++ todo ∧ left ++ rest = frames todo ∧ Short left todo ∧
      consumeLoop P H authToken chJson loginCheck again fuel c =
        { c with rx := left, calls := c.calls ++ workCalls done } := by
  induction msgs generalizing c fuel with
  | nil =>
    obtain ⟨fuel, rfl⟩ : ∃ n, fuel = n + 1 := ⟨fuel - 1, by omega⟩
    refine ⟨[], [], c.rx, rfl, hrx, trivial, ?_⟩
    have hshort : Short c.rx [] := trivial
    rw [consumeLoop, consumeTurn_short hrx hshort]
    simp [workCalls]
  | cons m msgs ih =>
    obtain ⟨fuel, rfl⟩ : ∃ n, fuel = n + 1 := ⟨fuel - 1, by omega⟩
    by_cases hlen : m.frame.length ≤ c.rx.length
    · have hpre : m.frame <+: c.rx :=
        List.prefix_of_prefix_length_le ⟨frames msgs, hrx.symm⟩ ⟨rest, rfl⟩ hlen
      obtain ⟨tail, htail⟩ := hpre
      have hframe := m.frame_length
      have hrest : tail ++ rest = frames msgs := by
        rw [← htail, frames_cons, List.append_assoc] at hrx
        exact List.append_cancel_left hrx
      have htl : tail.length < fuel := by
        rw [← htail, List.length_append] at hfuel
        omega
      let c₁ : Conn := { c with calls := c.calls ++ [.controlWork m.v1], rx := tail }
      have hc₁ : Ready c₁ := ⟨hc.gotHello, hc.isLogin, hc.aeadReady⟩
      have hturn : consumeTurn H authToken chJson loginCheck c = .next c₁ := by
        rw [consumeTurn_message hc.gotHello htail.symm, v2DispatchV1Buf, if_pos hc.isLogin]
      have hdue : switchDue c₁ = false := by
        rw [switchDue, hc₁.aeadReady]
        simp
      obtain ⟨done, todo, left, hsplit, hleft, hshort, hloop⟩ := ih hc₁ hrest htl
      refine ⟨m :: done, todo, left, by rw [hsplit]; rfl, hleft, hshort, ?_⟩
      rw [consumeLoop, hturn]
      dsimp only
      rw [hdue, if_neg (by simp), hloop]
      simp [workCalls, c₁]
    · have hshort : Short c.rx (m :: msgs) := Nat.lt_of_not_le hlen
      refine ⟨[], m :: msgs, c.rx, rfl, hrx, hshort, ?_⟩
      rw [consumeLoop, consumeTurn_short hrx hshort]
      simp [workCalls]

variable (P H authToken chJson loginCheck) in
/-- What the server sends on the control stream: a ServerHello and a LoginResp
that the client accepts, and messages whose frames are cut into plaintexts and
sealed under the key the client reads with. -/
structure Script where
  sh : Bytes
  keys : Bytes × Bytes
  helloAccepted : helloKeys H authToken chJson sh = some keys
  helloFits : sh.length ≤ V2.maxFramePayload
  login : ServerMsg
  loginType : login.type = .loginResp
  loginGood : loginCheck login.json = true
  msgs : List ServerMsg
  pts : List Bytes
  cut : pts.flatten = frames msgs
  writer : AeadWriter
  key : writer.key = keys.2
  headerSent : writer.headerSent = false
  streamNonce : writer.streamNonce = writer.nonce
  written : writer.frameCount = 0
  writer' : AeadWriter
  outs : List Bytes
  sealed : sealAll P writer pts = some (writer', outs)

variable (S : Script P H authToken chJson loginCheck)

def Script.hello : Bytes := V2.encodeFrame V2.frameServerHello S.sh

def Script.stream : Bytes := S.hello ++ S.login.frame ++ S.outs.flatten

def Script.reader : AeadReader := aeadReaderInit S.keys.2

variable {S}

theorem Script.initial : Initial S.writer S.reader :=
  ⟨S.key.symm, S.headerSent, S.streamNonce, S.written, rfl, rfl, rfl, rfl⟩

theorem Script.feed_part {got rest : Bytes} (h : got ++ rest = S.outs.flatten) :
    ∃ r lost, aeadReaderFeed P S.reader got = (r, true) ∧ r.ptBuf ++ lost = frames S.msgs ∧
      (rest = [] → lost = []) := by
  have hm : Mirrors S.writer (more S.reader got) :=
    let hi := (S.initial).mirrors
    ⟨hi.key, hi.headerRead, hi.nonce, hi.streamNonce, hi.fresh⟩
  have hbuf : (more S.reader got).ctBuf = got := rfl
  obtain ⟨r, hd, hpt, -, hend⟩ := drain_sealed hm S.sealed (by rw [hbuf, h])
  rw [hbuf] at hpt hend
  have hnil : (more S.reader got).ptBuf = [] := rfl
  rw [hnil, List.nil_append] at hpt
  refine ⟨r, (S.pts.drop (completed S.outs got.length)).flatten, hd, ?_, ?_⟩
  · rw [hpt, ← List.flatten_append, List.take_append_drop, S.cut]
  · intro hrest
    obtain ⟨-, -, hk⟩ := hend hrest
    rw [hk, List.drop_length, List.flatten_nil]

variable (S) in
/-- The connection after login and the bytes `got` of ciphertext: some messages
are dispatched, the next one is not complete. -/
structure Live (calls₀ : List Call) (got : Bytes) (c : Conn) : Prop where
  ready : Ready c
  emptied : c.reader.ptBuf = []
  progress : ∃ done todo, S.msgs = done ++ todo ∧ Short c.rx todo ∧
    c.calls = calls₀ ++ .loginResponse S.login.v1 :: workCalls done ∧
    putBack (frames done ++ c.rx) c.reader = (aeadReaderFeed P S.reader got).1

theorem frames_append (a b : List ServerMsg) : frames (a ++ b) = frames a ++ frames b := by
  rw [frames, List.map_append, List.flatten_append]
  rfl

theorem Live.absorb {calls₀ : List Call} {got d rest : Bytes} {c : Conn} (h : Live S calls₀ got c)
    (hcut : got ++ d ++ rest = S.outs.flatten) :
    ∃ r, aeadReaderFeed P c.reader d = (r, true) ∧
      (r.ptBuf = [] → Live S calls₀ (got ++ d) { c with reader := r }) ∧
      ∀ again fuel, (c.rx ++ r.ptBuf).length < fuel → Live S calls₀ (got ++ d)
        (consumeLoop P H authToken chJson loginCheck again fuel
          { c with reader := { r with ptBuf := [] }, rx := c.rx ++ r.ptBuf }) := by
  obtain ⟨done, todo, hmsgs, hshort, hcalls, hback⟩ := h.progress
  have hcut₁ : got ++ (d ++ rest) = S.outs.flatten := by rw [← List.append_assoc, hcut]
  obtain ⟨r₁, -, hfeed₁, -, -⟩ := S.feed_part hcut₁
  obtain ⟨r₂, lost, hfeed₂, hpt₂, -⟩ := S.feed_part hcut
  have happ := aeadReaderFeed_append S.reader got d (by rw [hfeed₁])
  have hput : aeadReaderFeed P (putBack (frames done ++ c.rx) c.reader) d =
      (putBack (frames done ++ c.rx) (aeadReaderFeed P c.reader d).1,
        (aeadReaderFeed P c.reader d).2) :=
    drain_putBack _ (more c.reader d)
  rw [hfeed₂, ← hback, hput, Prod.mk.injEq] at happ
  obtain ⟨hr₂, hok⟩ := happ
  refine ⟨(aeadReaderFeed P c.reader d).1, by rw [hok], ?_, ?_⟩
  · intro hnil
    refine ⟨⟨h.ready.gotHello, h.ready.isLogin, h.ready.aeadReady⟩, hnil, done, todo, hmsgs,
      hshort, hcalls, ?_⟩
    rw [hfeed₂]
    exact hr₂.symm
  · intro again fuel hfuel
    let r := (aeadReaderFeed P c.reader d).1
    have hall : frames done ++ c.rx ++ r.ptBuf ++ lost = frames S.msgs := by
      rw [← hpt₂, hr₂]
      rfl
    have htodo : c.rx ++ r.ptBuf ++ lost = frames todo := by
      rw [hmsgs, frames_append] at hall
      simp only [List.append_assoc] at hall ⊢
      exact List.append_cancel_left hall
    let c₁ : Conn := { c with reader := { r with ptBuf := [] }, rx := c.rx ++ r.ptBuf }
    have hc₁ : Ready c₁ := ⟨h.ready.gotHello, h.ready.isLogin, h.ready.aeadReady⟩
    obtain ⟨done', todo', left, hsplit, hleft, hshort', hloop⟩ :=
      consumeLoop_ready P H authToken chJson loginCheck again hc₁ htodo hfuel
    rw [hloop]
    refine ⟨⟨hc₁.gotHello, hc₁.isLogin, hc₁.aeadReady⟩, rfl, done ++ done', todo', ?_, hshort', ?_, ?_⟩
    · rw [hmsgs, hsplit, List.append_assoc]
    · show c.calls ++ workCalls done' = _
      rw [hcalls]
      simp [workCalls]
    · have htaken : frames (done ++ done') ++ left = frames done ++ c.rx ++ r.ptBuf := by
        have heq : frames (done ++ done') ++ left ++ lost =
            frames done ++ c.rx ++ r.ptBuf ++ lost := by
          rw [hall, hmsgs, hsplit, List.append_assoc, hleft, ← frames_append, List.append_assoc]
        exact List.append_cancel_right heq
      rw [hfeed₂, hr₂]
      show putBack (frames (done ++ done') ++ left) { r with ptBuf := [] } = _
      rw [htaken]
      simp [putBack, r]

theorem Live.handleRest {calls₀ : List Call} {got d rest : Bytes} {c : Conn}
    (h : Live S calls₀ got c) (hcut : got ++ d ++ rest = S.outs.flatten) :
    Live S calls₀ (got ++ d) (ReceiveV2.handleRest P H authToken chJson loginCheck c d) := by
  obtain ⟨r, hfeed, hquiet, hloud⟩ := h.absorb hcut
  unfold ReceiveV2.handleRest
  rw [if_pos h.ready.aeadReady, hfeed]
  by_cases hpt : r.ptBuf = []
  · simp only [hpt, or_true, if_true]
    exact hquiet hpt
  · simp only [hpt, or_false, Bool.true_eq_false, if_false]
    exact hloud _ _ (Nat.lt_succ_self _)

theorem live_switch {calls₀ : List Call} {c : Conn} {rest : Bytes} (hg : c.gotHello = true)
    (hl : c.isLogin = true) (hr : c.reader = S.reader)
    (hcalls : c.calls = calls₀ ++ [.loginResponse S.login.v1])
    (hcut : c.rx ++ rest = S.outs.flatten) :
    Live S calls₀ c.rx (switchToAead P (fun c' ↦
      consumeLoop P H authToken chJson loginCheck id (c'.rx.length + 1) c') c) := by
  let c₁ : Conn := { c with aeadReady := true, rx := [] }
  have hshort : Short [] S.msgs := by
    cases S.msgs with
    | nil => trivial
    | cons m msgs =>
      have hlen := m.frame_length
      show 0 < m.frame.length
      omega
  have hlive : Live S calls₀ [] c₁ := by
    refine ⟨⟨hg, hl, rfl⟩, by rw [show c₁.reader = c.reader from rfl, hr]; rfl, [], S.msgs, rfl,
      hshort, hcalls, ?_⟩
    have hnil : aeadReaderFeed P S.reader [] = (S.reader, true) := by
      rw [aeadReaderFeed, more_nil]
      exact drain_empty rfl
    rw [hnil]
    show putBack [] c.reader = S.reader
    rw [hr]
    rfl
  have hcut₁ : [] ++ c.rx ++ rest = S.outs.flatten := hcut
  obtain ⟨r, hfeed, hquiet, hloud⟩ := hlive.absorb hcut₁
  have hfeed' : aeadReaderFeed P c.reader c.rx = (r, true) := hfeed
  rw [List.nil_append] at hquiet hloud
  unfold switchToAead
  by_cases hrx : c.rx = []
  · rw [if_pos hrx]
    have hsame : ({ c with aeadReady := true } : Conn) = c₁ := by
      simp only [c₁, hrx]
    rw [hsame, hrx]
    exact hlive
  · rw [if_neg hrx, hfeed']
    by_cases hpt : r.ptBuf = []
    · simp only [hpt, ne_eq, not_true, and_false, if_false]
      exact hquiet hpt
    · simp only [hpt, ne_eq, not_false_iff, and_self, if_true]
      exact hloud id _ (Nat.lt_succ_self _)

theorem loginAccepted_login : loginAccepted loginCheck S.login.v1 = true := by
  have hm : V2.maxFramePayload = 65536 := rfl
  have hfit := S.login.fits
  have hlt : S.login.json.length < intLimit := by
    rw [intLimit]
    omega
  have hlen := dataLen_frameMsg S.login.type.code hlt []
  have hdrop := drop_frameMsg S.login.type.code S.login.json []
  rw [List.append_nil] at hlen hdrop
  rw [List.append_nil] at hdrop
  have hhead : S.login.v1.headD 0 = MsgType.loginResp.code := by
    rw [ServerMsg.v1, S.loginType]
    rfl
  have hdata : (S.login.v1.drop msgHdrSize).take (dataLen S.login.v1).toNat = S.login.json := by
    rw [ServerMsg.v1, hlen, hdrop, Int.toNat_natCast, List.take_length]
  rw [loginAccepted, hdata, hhead, S.loginGood]
  simp

variable (S) in
def greeted (c₀ : Conn) : Conn :=
  { c₀ with
    writer := aeadWriterInit S.keys.1 H.rand
    reader := S.reader
    gotHello := true }

variable (S) in
/-- Where the connection stands after the bytes `received` of the stream. -/
def Stage (c₀ : Conn) (received : Bytes) (c : Conn) : Prop :=
  (received.length < S.hello.length ∧ c = { c₀ with rx := received }) ∨
  (∃ y, received = S.hello ++ y ∧ y.length < S.login.frame.length ∧
    c = { greeted S c₀ with rx := y }) ∨
  ∃ got, received = S.hello ++ S.login.frame ++ got ∧ Live S c₀.calls got c

theorem prefix_or_split {frame x rest tail : Bytes} (h : x ++ rest = frame ++ tail) :
    (x.length < frame.length ∧ x <+: frame) ∨ ∃ y, x = frame ++ y ∧ y ++ rest = tail := by
  by_cases hlen : x.length < frame.length
  · exact .inl ⟨hlen, List.prefix_of_prefix_length_le ⟨rest, h⟩ ⟨tail, rfl⟩ (Nat.le_of_lt hlen)⟩
  · have hpre : frame <+: x :=
      List.prefix_of_prefix_length_le ⟨tail, h.symm⟩ ⟨rest, rfl⟩ (Nat.le_of_not_lt hlen)
    obtain ⟨y, rfl⟩ := hpre
    rw [List.append_assoc] at h
    exact .inr ⟨y, rfl, List.append_cancel_left h⟩

variable {c₀ : Conn}

/-- The connection as it is before anything has been received. -/
structure Fresh (c : Conn) : Prop where
  rx : c.rx = []
  gotHello : c.gotHello = false
  isLogin : c.isLogin = false
  aeadReady : c.aeadReady = false

theorem greeted_arrives (hf : Fresh c₀) {y rest : Bytes} {fuel : ℕ}
    (hcut : y ++ rest = S.login.frame ++ S.outs.flatten) (hfuel : y.length < fuel) :
    Stage S c₀ (S.hello ++ y) (consumeLoop P H authToken chJson loginCheck
      (fun c' ↦ consumeLoop P H authToken chJson loginCheck id (c'.rx.length + 1) c') fuel
      { greeted S c₀ with rx := y }) := by
  obtain ⟨fuel, rfl⟩ : ∃ n, fuel = n + 1 := ⟨fuel - 1, by omega⟩
  obtain ⟨hlt, hpre⟩ | ⟨got, rfl, hgot⟩ := prefix_or_split hcut
  · have hturn : consumeTurn H authToken chJson loginCheck { greeted S c₀ with rx := y } =
        .stop { greeted S c₀ with rx := y } :=
      consumeTurn_part (by decide) S.login.payload_length hpre hlt
    rw [consumeLoop, hturn]
    exact .inr (.inl ⟨y, rfl, hlt, rfl⟩)
  · let c₁ : Conn := { greeted S c₀ with
      rx := got
      isLogin := true
      calls := c₀.calls ++ [.loginResponse S.login.v1] }
    have hturn : consumeTurn H authToken chJson loginCheck
        { greeted S c₀ with rx := S.login.frame ++ got } = .next c₁ := by
      have hmsg : consumeTurn H authToken chJson loginCheck
          { greeted S c₀ with rx := S.login.frame ++ got } = .next
            { v2DispatchV1Buf loginCheck { greeted S c₀ with rx := S.login.frame ++ got }
                S.login.v1 with rx := got } := consumeTurn_message rfl rfl
      rw [hmsg, v2DispatchV1Buf, if_neg (by simp [greeted, hf.isLogin]), loginAccepted_login]
      rfl
    have hdue : switchDue c₁ = true := by
      simp [switchDue, c₁, greeted, hf.aeadReady]
    rw [consumeLoop, hturn]
    dsimp only
    rw [if_pos hdue]
    refine .inr (.inr ⟨got, by rw [List.append_assoc], ?_⟩)
    exact live_switch (c := c₁) rfl rfl rfl rfl hgot

theorem fresh_arrives (hf : Fresh c₀) {x rest : Bytes} (hcut : x ++ rest = S.stream) :
    Stage S c₀ x (v2ConsumePlainFrames P H authToken chJson loginCheck { c₀ with rx := x }) := by
  unfold v2ConsumePlainFrames
  rw [Script.stream, List.append_assoc] at hcut
  obtain ⟨hlt, hpre⟩ | ⟨y, rfl, hy⟩ := prefix_or_split hcut
  · have hturn : consumeTurn H authToken chJson loginCheck { c₀ with rx := x } =
        .stop { c₀ with rx := x } := consumeTurn_part (by decide) S.helloFits hpre hlt
    rw [consumeLoop, hturn]
    exact .inl ⟨hlt, rfl⟩
  · have hturn : consumeTurn H authToken chJson loginCheck { c₀ with rx := S.hello ++ y } =
        .next { greeted S c₀ with rx := y } :=
      consumeTurn_hello (c := { c₀ with rx := S.hello ++ y }) hf.gotHello S.helloFits
        S.helloAccepted rfl
    have hdue : switchDue { greeted S c₀ with rx := y } = false := by
      simp [switchDue, greeted, hf.isLogin]
    have hhello : 8 ≤ S.hello.length := by
      rw [Script.hello, V2.encodeFrame_length, V2.frameHeaderSize]
      omega
    rw [consumeLoop, hturn]
    dsimp only
    rw [hdue, if_neg (by simp)]
    refine greeted_arrives hf hy ?_
    rw [List.length_append]
    omega

theorem Stage.handleRest (hf : Fresh c₀) {x d rest : Bytes} {c : Conn} (h : Stage S c₀ x c)
    (hcut : x ++ d ++ rest = S.stream) :
    Stage S c₀ (x ++ d) (ReceiveV2.handleRest P H authToken chJson loginCheck c d) := by
  have hready : ∀ c : Conn, c.aeadReady = false →
      ReceiveV2.handleRest P H authToken chJson loginCheck c d =
        v2ConsumePlainFrames P H authToken chJson loginCheck { c with rx := c.rx ++ d } := by
    intro c hc
    rw [ReceiveV2.handleRest, hc, if_neg (by simp)]
  obtain ⟨-, rfl⟩ | ⟨y, rfl, -, rfl⟩ | ⟨got, rfl, hlive⟩ := h
  · rw [hready { c₀ with rx := x } hf.aeadReady]
    exact fresh_arrives hf hcut
  · have hy : y ++ d ++ rest = S.login.frame ++ S.outs.flatten := by
      rw [Script.stream] at hcut
      simp only [List.append_assoc] at hcut ⊢
      exact List.append_cancel_left hcut
    rw [hready { greeted S c₀ with rx := y } hf.aeadReady, List.append_assoc]
    exact greeted_arrives hf hy (Nat.lt_succ_self _)
  · have hgot : got ++ d ++ rest = S.outs.flatten := by
      rw [Script.stream] at hcut
      simp only [List.append_assoc] at hcut ⊢
      exact List.append_cancel_left (List.append_cancel_left hcut)
    exact .inr (.inr ⟨got ++ d, by rw [List.append_assoc], hlive.handleRest hgot⟩)

theorem Stage.run (hf : Fresh c₀) {pieces : List Bytes} (hmagic : ∀ d ∈ pieces, ¬ V2.magic <+: d)
    {x rest : Bytes} {c : Conn} (h : Stage S c₀ x c)
    (hcut : x ++ pieces.flatten ++ rest = S.stream) :
    Stage S c₀ (x ++ pieces.flatten)
      (pieces.foldl (v2HandleBytes P H authToken chJson loginCheck) c) := by
  induction pieces generalizing x c with
  | nil =>
    rw [List.flatten_nil, List.append_nil]
    exact h
  | cons d pieces ih =>
    rw [List.flatten_cons, ← List.append_assoc] at hcut ⊢
    have hbytes : v2HandleBytes P H authToken chJson loginCheck c d =
        ReceiveV2.handleRest P H authToken chJson loginCheck c d := by
      rw [v2HandleBytes, if_neg (fun hm ↦ hmagic d List.mem_cons_self hm.2)]
    rw [List.foldl_cons, hbytes]
    refine ih (fun e he ↦ hmagic e (List.mem_cons_of_mem d he)) ?_ hcut
    rw [List.append_assoc] at hcut
    exact h.handleRest hf hcut

theorem Live.complete {calls₀ : List Call} {c : Conn} (h : Live S calls₀ S.outs.flatten c) :
    c.calls = calls₀ ++ .loginResponse S.login.v1 :: workCalls S.msgs := by
  obtain ⟨done, todo, hmsgs, hshort, hcalls, hback⟩ := h.progress
  have hall : S.outs.flatten ++ [] = S.outs.flatten := List.append_nil _
  obtain ⟨r, lost, hfeed, hpt, hlost⟩ := S.feed_part hall
  have hrest : c.rx = frames todo := by
    rw [hfeed] at hback
    have hbuf := congrArg AeadReader.ptBuf hback
    simp only [putBack, h.emptied, List.append_nil] at hbuf
    rw [hlost rfl, List.append_nil, ← hbuf, hmsgs, frames_append] at hpt
    exact List.append_cancel_left hpt
  cases todo with
  | nil => rw [hcalls, hmsgs, List.append_nil]
  | cons m todo =>
    exfalso
    have hlt : c.rx.length < m.frame.length := hshort
    rw [hrest, frames_cons, List.length_append] at hlt
    omega

/-- However the stream of the server is cut, LoginResp is handled once and then
every message is, in order and in its v1 form. -/
theorem v2_reception (S : Script P H authToken chJson loginCheck) {c₀ : Conn} (hf : Fresh c₀)
    {pieces : List Bytes} (hmagic : ∀ d ∈ pieces, ¬ V2.magic <+: d)
    (hcut : pieces.flatten = S.stream) :
    (pieces.foldl (v2HandleBytes P H authToken chJson loginCheck) c₀).calls =
      c₀.calls ++ .loginResponse (frameMsg MsgType.loginResp.code S.login.json) ::
        S.msgs.map fun m ↦ .controlWork (frameMsg m.type.code m.json) := by
  have hstart : Stage S c₀ [] c₀ := by
    refine .inl ⟨?_, ?_⟩
    · rw [Script.hello, V2.encodeFrame_length, V2.frameHeaderSize]
      exact Nat.lt_of_lt_of_le (by decide) (Nat.le_add_right 8 _)
    · rw [← hf.rx]
  have hcut' : [] ++ pieces.flatten ++ [] = S.stream := by
    rw [List.append_nil, List.nil_append, hcut]
  have hend := hstart.run hf hmagic hcut'
  rw [List.nil_append, hcut] at hend
  have hlogin := S.login.frame_length
  obtain ⟨hlt, -⟩ | ⟨y, hy, hlt, -⟩ | ⟨got, hgot, hlive⟩ := hend
  · exfalso
    rw [Script.stream, List.length_append, List.length_append] at hlt
    omega
  · exfalso
    rw [Script.stream, List.append_assoc] at hy
    have hlen := congrArg List.length (List.append_cancel_left hy)
    rw [List.length_append] at hlen
    omega
  · rw [Script.stream] at hgot
    rw [← List.append_cancel_left hgot] at hlive
    rw [hlive.complete, ServerMsg.v1, S.loginType]
    rfl

def sampleHandshake : Handshake where
  parseServerHelloJson _ := some (V2.ascii "aes-256-gcm")
  sha256 b := b.take 32
  hkdf token transcript info := some ((token ++ transcript ++ info.reverse).take 32)
  rand := ⟨List.replicate gcmNonceSize 5, rfl⟩

def sampleKeys : Bytes × Bytes := (helloKeys sampleHandshake none [9] [1]).getD ([], [])

def samplePong : ServerMsg := ⟨12, .pong, [0x7b, 0x7d], rfl, by decide⟩

def sampleWriter : AeadWriter := aeadWriterInit sampleKeys.2 ⟨List.replicate gcmNonceSize 4, rfl⟩

def sampleScript : Script toyPrimitives sampleHandshake none [9] (· == [0x7b]) where
  sh := [1]
  keys := sampleKeys
  helloAccepted := by decide +kernel
  helloFits := by decide
  login := ⟨2, .loginResp, [0x7b], rfl, by decide⟩
  loginType := rfl
  loginGood := by decide
  msgs := [samplePong]
  pts := [samplePong.frame.take 5, samplePong.frame.drop 5]
  cut := by decide
  writer := sampleWriter
  key := rfl
  headerSent := rfl
  streamNonce := rfl
  written := rfl
  writer' := { { sampleWriter.advance with frameCount := 1 }.advance with frameCount := 2 }
  outs := [sampleWriter.sealed toyPrimitives (samplePong.frame.take 5),
    { sampleWriter.advance with frameCount := 1 }.sealed toyPrimitives (samplePong.frame.drop 5)]
  sealed := rfl

def sampleConn : Conn :=
  { rx := [], magicSeen := false, gotHello := false, isLogin := false, aeadReady := false
    reader := aeadReaderInit [], writer := sampleWriter, calls := [] }

/-- Cut inside the ServerHello, inside the stream nonce and inside the tag of
the first plaintext. -/
def samplePieces : List Bytes :=
  [sampleScript.stream.take 3, (sampleScript.stream.drop 3).take 22,
   (sampleScript.stream.drop 25).take 20, sampleScript.stream.drop 45]

theorem v2_reception_samplePieces :
    (samplePieces.foldl (v2HandleBytes toyPrimitives sampleHandshake none [9] (· == [0x7b]))
      sampleConn).calls =
      [.loginResponse (frameMsg MsgType.loginResp.code [0x7b]),
       .controlWork (frameMsg MsgType.pong.code [0x7b, 0x7d])] :=
  v2_reception sampleScript ⟨rfl, rfl, rfl, rfl⟩ (by decide +kernel) (by decide +kernel)

end Xfrpc.Control.ReceiveV2
