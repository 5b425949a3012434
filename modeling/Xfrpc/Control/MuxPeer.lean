import Xfrpc.Control.SendMux

namespace Xfrpc.Control.MuxPeer

open Foundations.BigEndian Foundations.Runs Message Send SendMux Crypto.Cfb Crypto.Coder
  Crypto.Aead Mux.Header Mux.Stream Wire

/-- What the peer keeps for one stream: the session key, the key stream once it
has the IV, whether it has seen the magic, and the AEAD reader. -/
structure Peer where
  key : Bytes
  ctx : Option CfbCtx
  magicSeen : Bool
  reader : AeadReader
  deriving DecidableEq, Repr

inductive Kind
  | plain
  | enc
  deriving DecidableEq, Repr

def readFrame (b : Bytes) : Option ((UInt8 × Bytes) × Bytes) :=
  match V2.parseFrame b with
  | .frame type payload consumed =>
    if type = V2.frameMessage then
      ((V2.payloadToV1 payload).bind splitMsg).map fun m ↦ ((m.1, m.2.1), b.drop consumed)
    else none
  | _ => none

variable (P : Primitives) (conf : CommonConf)

def Peer.readPlain (p : Peer) (b : Bytes) : Option (Peer × (UInt8 × Bytes) × Bytes) :=
  if conf.wireV2 then
    if p.magicSeen then (readFrame b).map fun m ↦ (p, m)
    else if V2.magic <+: b then
      (readFrame (b.drop V2.magic.length)).map fun m ↦ ({ p with magicSeen := true }, m)
    else none
  else (splitMsg b).map fun m ↦ (p, (m.1, m.2.1), m.2.2)

def Peer.readCfb (p : Peer) (ctx : CfbCtx) (b : Bytes) : Option (Peer × (UInt8 × Bytes) × Bytes) :=
  (splitMsg (decrypt P.aes ctx b)).map fun m ↦
    let n := b.length - m.2.2.length
    ({ p with ctx := some (decryptCtx P.aes ctx (b.take n)) }, (m.1, m.2.1), b.drop n)

def Peer.readEnc (p : Peer) (b : Bytes) : Option (Peer × (UInt8 × Bytes) × Bytes) :=
  if conf.wireV2 then
    match aeadReaderTurn P { p.reader with ctBuf := b, ptBuf := [] } with
    | .frame r => (readFrame r.ptBuf).map fun m ↦ ({ p with reader := r }, m.1, r.ctBuf)
    | _ => none
  else
    match p.ctx with
    | some ctx => p.readCfb P ctx b
    | none =>
      if b.length < 16 then none else p.readCfb P (.init p.key (b.take 16)) (b.drop 16)

def Peer.read (p : Peer) : Kind → Bytes → Option (Peer × (UInt8 × Bytes) × Bytes)
  | .plain => p.readPlain conf
  | .enc => p.readEnc P conf

def Peer.decode : Peer → List Kind → Bytes → Option (List (UInt8 × Bytes) × Bytes)
  | _, [], b => some ([], b)
  | p, k :: ks, b =>
    match p.read P conf k b with
    | none => none
    | some (p', m, rest) => (Peer.decode p' ks rest).map fun r ↦ (m :: r.1, r.2)

def call : Event → Option (Kind × UInt8 × Bytes)
  | .plain type msg => some (.plain, type.code, msg)
  | .enc type msg => some (.enc, type.code, msg)
  | _ => none

def delivered : Sender → List Event → List (Kind × UInt8 × Bytes)
  | _, [] => []
  | s, e :: es =>
    (if emittedBy P conf s e = [] then [] else (call e).toList) ++
      delivered (step P conf s e) es

def emittedIn (s : Sender) (es : List Event) : Bytes :=
  dataBytes ((es.foldl (step P conf) s).out.drop s.out.length)

/-- Every call of the run is all or nothing, and the peer reads all the bytes
emitted back as the messages of the calls that emitted something, in order. -/
def InStep (p : Peer) (s : Sender) (es : List Event) : Prop :=
  Along (step P conf) (AllOrNothing P conf) s es ∧
    p.decode P conf ((delivered P conf s es).map Prod.fst) (emittedIn P conf s es) =
      some ((delivered P conf s es).map Prod.snd, [])

/-- A v2 message in the clear that goes out stays under the frame limit of the
parser. -/
def Legible (s : Sender) : Event → Prop
  | .plain type msg =>
    conf.wireV2 = false ∨ V2.msgTypeToId type = 0 ∨ shut s ∨ 2 + msg.length ≤ V2.maxFramePayload
  | _ => True

instance (s : Sender) (e : Event) : Decidable (Legible conf s e) :=
  match e with
  | .plain .. => inferInstanceAs (Decidable (_ ∨ _ ∨ _ ∨ _))
  | .enc .. => isTrue trivial
  | .windowUpdate .. => isTrue trivial
  | .close => isTrue trivial

/-- The peer stands where the sender stands. -/
structure Synced (p : Peer) (s : Sender) : Prop where
  key : p.key = sessionKey P conf.authToken
  ctx : p.ctx = s.crypto.mainEncoder.map fun e ↦ s.crypto.encCtx.getD (.init e.key e.iv)
  magic : p.magicSeen = s.stream.v2MagicSent
  reader : Mirrors s.writer p.reader

variable {P conf} {p : Peer} {s : Sender} {e : Event}

theorem Synced.of_cipher {s' : Sender} (h : Synced P conf p s)
    (hc : cipher s' = cipher s) : Synced P conf p s' := by
  simp only [cipher, Prod.mk.injEq] at hc
  obtain ⟨hcr, hw, hm⟩ := hc
  exact ⟨h.key, by rw [hcr]; exact h.ctx, by rw [hm]; exact h.magic, by rw [hw]; exact h.reader⟩

theorem encodeMessage_ne_nil {type : MsgType} {msg frame : Bytes}
    (h : V2.encodeMessage type msg = some frame) : frame ≠ [] := by
  refine List.ne_nil_of_length_pos ?_
  rw [(encodeMessage_some h).2, V2.frameHeaderSize]
  omega

theorem encodeMessage_eq {type : MsgType} {msg frame : Bytes}
    (h : V2.encodeMessage type msg = some frame) :
    frame = V2.encodeFrame V2.frameMessage (toBe 2 (V2.msgTypeToId type) ++ msg) := by
  unfold V2.encodeMessage at h
  split_ifs at h
  exact (Option.some.inj h).symm

theorem readFrame_encodeMessage {type : MsgType} {msg frame : Bytes}
    (h : V2.encodeMessage type msg = some frame) (hl : 2 + msg.length ≤ V2.maxFramePayload)
    (rest : Bytes) : readFrame (frame ++ rest) = some ((type.code, msg), rest) := by
  have hm : V2.maxFramePayload = 65536 := rfl
  obtain ⟨hid, -⟩ := encodeMessage_some h
  have hlen : (toBe 2 (V2.msgTypeToId type) ++ msg).length ≤ V2.maxFramePayload := by
    rw [List.length_append, toBe_length]
    exact hl
  have hsplit : splitMsg (frameMsg type.code msg) = some (type.code, msg, []) := by
    have hs : splitMsg (frameMsg type.code msg ++ []) = some (type.code, msg, []) :=
      splitMsg_frameMsg (by omega) []
    rwa [List.append_nil] at hs
  unfold readFrame
  rw [encodeMessage_eq h, V2.parseFrame_encodeFrame rest (by decide) hlen]
  simp only [if_true, V2.payloadToV1_known (V2.idToMsgType_msgTypeToId hid), Option.bind_some, hsplit,
    Option.map_some]
  rw [List.drop_left' rfl]

theorem readFrame_long {type : MsgType} {msg frame : Bytes}
    (h : V2.encodeMessage type msg = some frame) (hl : V2.maxFramePayload < 2 + msg.length)
    (hlt : 2 + msg.length < 256 ^ 4) (rest : Bytes) : readFrame (frame ++ rest) = none := by
  have hlen : (toBe 2 (V2.msgTypeToId type) ++ msg).length = 2 + msg.length := by
    rw [List.length_append, toBe_length]
  have ht : V2.frameMessage < 256 ^ 2 := by decide
  obtain ⟨-, hfl, hle, -⟩ := V2.encodeFrame_fields rest ht (hlen.trans_lt hlt)
  have hp : V2.parseFrame (frame ++ rest) = .error := by
    unfold V2.parseFrame
    rw [encodeMessage_eq h, if_neg (by simp only [List.length_append, V2.encodeFrame_length]; omega),
      if_neg (by simp [hfl])]
    simp only [hle, hlen]
    rw [if_pos (by omega)]
  unfold readFrame
  rw [hp]

theorem readCfb_encrypt (p : Peer) (ctx : CfbCtx) (type : UInt8) {msg : Bytes}
    (h : msg.length < 256 ^ 8) (rest : Bytes) :
    p.readCfb P ctx (encrypt P.aes ctx (frameMsg type msg) ++ rest) =
      some ({ p with ctx := some (encryptCtx P.aes ctx (frameMsg type msg)) }, (type, msg), rest) := by
  have hlen : (encrypt P.aes ctx (frameMsg type msg)).length = (frameMsg type msg).length :=
    encrypt_length _ _
  have hn : (encrypt P.aes ctx (frameMsg type msg) ++ rest).length - rest.length =
      (encrypt P.aes ctx (frameMsg type msg)).length := by
    rw [List.length_append]
    omega
  unfold Peer.readCfb
  rw [decrypt_append, decrypt_encrypt, splitMsg_frameMsg h]
  simp only [Option.map_some, decrypt_length, hn]
  rw [List.take_left' rfl, List.drop_left' rfl, decryptCtx_encrypt]

theorem encoding_of_fits (hk : Keyed P conf.authToken s.crypto) (hfit : Fits conf s e)
    (hem : emittedBy P conf s e ≠ []) : encoding P conf s e = some (emittedBy P conf s e) := by
  obtain ⟨hnil, -⟩ | h := (allOrNothing_iff_fits P conf hk e).mpr hfit
  · exact absurd hnil hem
  · exact h

theorem whole_write (hk : Keyed P conf.authToken s.crypto) (hfit : Fits conf s e)
    (hem : emittedBy P conf s e ≠ []) {s₁ : Sender} {data : Bytes}
    (hstep : step P conf s e = (writeTemp s₁ data).1) (hout : s₁.out = s.out)
    (henc : encoding P conf s e = some data) (hd : data ≠ []) :
    emittedBy P conf s e = data ∧ room s₁ data.length ∧ cipher (step P conf s e) = cipher s₁ := by
  obtain ⟨htake, hc⟩ := emittedBy_write P conf hstep hout
  have hall : emittedBy P conf s e = data := by
    have h := encoding_of_fits hk hfit hem
    rw [henc, Option.some.injEq] at h
    exact h.symm
  exact ⟨hall, (take_accepts_iff hd).mp (htake.symm.trans hall), hc⟩

/-- The peer follows a call that has emitted something: it reads the message if
it can and stands where the sender stands again. -/
def Follows (P : Primitives) (conf : CommonConf) (p : Peer) (s : Sender) (e : Event) : Prop :=
  ∃ c, call e = some c ∧ ∀ rest,
    (Legible conf s e → ∃ p', p.read P conf c.1 (emittedBy P conf s e ++ rest) =
      some (p', c.2, rest) ∧ Synced P conf p' (step P conf s e)) ∧
    (¬ Legible conf s e → p.read P conf c.1 (emittedBy P conf s e ++ rest) = none)

theorem follows_plainV1 (hp : Synced P conf p s) (hk : Keyed P conf.authToken s.crypto)
    (hv : conf.wireV2 = false) {type : MsgType} {msg : Bytes}
    (hfit : Fits conf s (.plain type msg)) (hem : emittedBy P conf s (.plain type msg) ≠ []) :
    Follows P conf p s (.plain type msg) := by
  have hstep : step P conf s (.plain type msg) = (writeTemp s (frameMsg type.code msg)).1 := by
    simp [step, sendMsgFrpServer, hv]
  have henc : encoding P conf s (.plain type msg) = some (frameMsg type.code msg) := by
    simp [encoding, hv]
  obtain ⟨hall, ⟨-, -, hmax⟩, hc⟩ := whole_write hk hfit hem hstep rfl henc (by simp [frameMsg])
  have hd : defaultMaxFrameSize = 262144 := rfl
  rw [frameMsg_length] at hmax
  refine ⟨_, rfl, fun rest ↦ ⟨fun _ ↦ ⟨p, ?_, hp.of_cipher hc⟩, fun h ↦ absurd (.inl hv) h⟩⟩
  have hs : splitMsg (frameMsg type.code msg ++ rest) = some (type.code, msg, rest) :=
    splitMsg_frameMsg (by omega) rest
  simp [Peer.read, Peer.readPlain, hv, hall, hs]

theorem readFrame_legible {type : MsgType} {msg frame : Bytes} (hv : conf.wireV2 = true)
    (hf : V2.encodeMessage type msg = some frame) {n : ℕ} (hn : frame.length ≤ n)
    (hroom : room s n) (rest : Bytes) :
    (Legible conf s (.plain type msg) → readFrame (frame ++ rest) = some ((type.code, msg), rest)) ∧
      (¬ Legible conf s (.plain type msg) → readFrame (frame ++ rest) = none) := by
  obtain ⟨hid, hlen⟩ := encodeMessage_some hf
  have hpos : 0 < n := by
    rw [hlen, V2.frameHeaderSize] at hn
    omega
  have hshut := not_shut_of_room hpos hroom
  have hd : defaultMaxFrameSize = 262144 := rfl
  obtain ⟨-, -, hmax⟩ := hroom
  constructor
  · rintro (h | h | h | h)
    · simp [hv] at h
    · exact absurd h hid
    · exact absurd h hshut
    · exact readFrame_encodeMessage hf h rest
  · intro h
    simp only [Legible, not_or, Nat.not_le] at h
    exact readFrame_long hf h.2.2.2 (by omega) rest

theorem follows_plainV2 (hp : Synced P conf p s) (hk : Keyed P conf.authToken s.crypto)
    (hv : conf.wireV2 = true) {type : MsgType} {msg : Bytes}
    (hfit : Fits conf s (.plain type msg)) (hem : emittedBy P conf s (.plain type msg) ≠ []) :
    Follows P conf p s (.plain type msg) := by
  refine ⟨_, rfl, fun rest ↦ ?_⟩
  cases hf : V2.encodeMessage type msg with
  | none =>
    have hstep : step P conf s (.plain type msg) = s := by simp [step, sendMsgFrpServer, hv, hf]
    exact absurd (emittedBy_idle P conf (by rw [hstep])) hem
  | some frame =>
    have hne := encodeMessage_ne_nil hf
    have hseen := hp.magic
    cases hm : s.stream.v2MagicSent with
    | true =>
      have hstep : step P conf s (.plain type msg) = (writeTemp s frame).1 := by
        simp [step, sendMsgFrpServer, hv, hf, hm]
      have henc : encoding P conf s (.plain type msg) = some frame := by
        simp [encoding, hv, hf, hm]
      obtain ⟨hall, hroom, hc⟩ := whole_write hk hfit hem hstep rfl henc hne
      obtain ⟨hyes, hno⟩ := readFrame_legible hv hf le_rfl hroom rest
      rw [hm] at hseen
      refine ⟨fun h ↦ ⟨p, ?_, hp.of_cipher hc⟩, fun h ↦ ?_⟩
      · simp [Peer.read, Peer.readPlain, hv, hseen, hall, hyes h]
      · simp [Peer.read, Peer.readPlain, hv, hseen, hall, hno h]
    | false =>
      have hstep : step P conf s (.plain type msg) =
          (writeTemp (markMagicSent s) (V2.magic ++ frame)).1 := by
        simp [step, sendMsgFrpServer, hv, hf, hm]
      have henc : encoding P conf s (.plain type msg) = some (V2.magic ++ frame) := by
        simp [encoding, hv, hf, hm]
      obtain ⟨hall, hroom, hc⟩ := whole_write hk hfit hem hstep rfl henc (by simp [hne])
      obtain ⟨hyes, hno⟩ := readFrame_legible (s := s) hv hf (by simp) hroom rest
      have hread : ∀ r, readFrame (frame ++ rest) = r →
          p.read P conf .plain (emittedBy P conf s (.plain type msg) ++ rest) =
            r.map fun m ↦ ({ p with magicSeen := true }, m) := by
        rintro r rfl
        rw [hm] at hseen
        simp only [Peer.read, Peer.readPlain, hv, hseen, hall, List.append_assoc, if_true,
          Bool.false_eq_true, if_false]
        rw [if_pos (List.prefix_append _ _), List.drop_left' rfl]
      refine ⟨fun h ↦ ⟨{ p with magicSeen := true }, hread _ (hyes h), ?_⟩, fun h ↦ hread _ (hno h)⟩
      have hsync : Synced P conf { p with magicSeen := true } (markMagicSent s) :=
        ⟨hp.key, hp.ctx, rfl, hp.reader⟩
      exact hsync.of_cipher hc

theorem follows_encV2 (hp : Synced P conf p s) (hk : Keyed P conf.authToken s.crypto)
    (hv : conf.wireV2 = true) {type : MsgType} {msg : Bytes}
    (hfit : Fits conf s (.enc type msg)) (hem : emittedBy P conf s (.enc type msg) ≠ []) :
    Follows P conf p s (.enc type msg) := by
  refine ⟨_, rfl, fun rest ↦ ⟨fun _ ↦ ?_, fun h ↦ absurd trivial h⟩⟩
  cases hf : V2.encodeMessage type msg with
  | none =>
    have hstep : step P conf s (.enc type msg) = s := by simp [step, sendEncMsgFrpServer, hv, hf]
    exact absurd (emittedBy_idle P conf (by rw [hstep])) hem
  | some frame =>
    have hne := encodeMessage_ne_nil hf
    cases hg : s.gotHello with
    | false =>
      have hstep : step P conf s (.enc type msg) = s := by
        simp [step, sendEncMsgFrpServer, hv, hf, hg]
      exact absurd (emittedBy_idle P conf (by rw [hstep])) hem
    | true =>
      obtain ⟨-, hs⟩ | ⟨-, -, hs⟩ | ⟨hle, hok, hs⟩ := aeadWriterSeal_cases P s.writer hne
      · refine absurd (emittedBy_idle P conf ?_) hem
        simp [step, sendEncMsgFrpServer, hv, hf, hg, hs]
      · refine absurd (emittedBy_idle P conf ?_) hem
        simp [step, sendEncMsgFrpServer, hv, hf, hg, hs]
      · have hstep : step P conf s (.enc type msg) = (writeTemp { s with writer :=
            { s.writer.advance with frameCount := s.writer.frameCount + 1 } }
              (s.writer.sealed P frame)).1 := by
          simp [step, sendEncMsgFrpServer, hv, hf, hg, hs]
        have henc : encoding P conf s (.enc type msg) = some (s.writer.sealed P frame) := by
          simp [encoding, hv, hf, hg, hs]
        have hsealed : s.writer.sealed P frame ≠ [] :=
          List.ne_nil_of_length_pos (by rw [sealed_length]; omega)
        obtain ⟨hall, -, hc⟩ := whole_write hk hfit hem hstep rfl henc hsealed
        have hm : Mirrors s.writer
            { p.reader with ctBuf := s.writer.sealed P frame ++ rest, ptBuf := [] } :=
          ⟨hp.reader.key, hp.reader.headerRead, hp.reader.nonce, hp.reader.streamNonce,
            hp.reader.fresh⟩
        obtain ⟨r, hturn, hct, hpt, -, hr⟩ := aeadReaderTurn_sealed P hm hle hok rest rfl
        have hx : maxPayload = 65536 := rfl
        have hy : V2.maxFramePayload = 65536 := rfl
        have hread := readFrame_encodeMessage hf
          (by rw [(encodeMessage_some hf).2, V2.frameHeaderSize] at hle; omega) []
        rw [List.append_nil] at hread
        refine ⟨{ p with reader := r }, ?_, ?_⟩
        · simp only [Peer.read, Peer.readEnc, hv, if_true, hall, hturn, hpt, List.nil_append, hread,
            hct, Option.map_some]
        · have hsync : Synced P conf { p with reader := r } { s with writer :=
              { s.writer.advance with frameCount := s.writer.frameCount + 1 } } :=
            ⟨hp.key, hp.ctx, hp.magic, hr⟩
          exact hsync.of_cipher hc

theorem follows_encV1_running (hp : Synced P conf p s) (hk : Keyed P conf.authToken s.crypto)
    (hv : conf.wireV2 = false) {coder : FrpCoder} (he : s.crypto.mainEncoder = some coder)
    {type : MsgType} {msg : Bytes} (hfit : Fits conf s (.enc type msg))
    (hem : emittedBy P conf s (.enc type msg) ≠ []) : Follows P conf p s (.enc type msg) := by
  refine ⟨_, rfl, fun rest ↦ ⟨fun _ ↦ ?_, fun h ↦ absurd trivial h⟩⟩
  let ctx := s.crypto.encCtx.getD (.init coder.key coder.iv)
  have hstep : step P conf s (.enc type msg) = (writeTemp
      { s with crypto := { s.crypto with encCtx := some (encryptCtx P.aes ctx
        (frameMsg type.code msg)) } } (encrypt P.aes ctx (frameMsg type.code msg))).1 := by
    simp [step, sendEncMsgFrpServer, hv, he, encryptData, ctx]
  have henc : encoding P conf s (.enc type msg) =
      some (encrypt P.aes ctx (frameMsg type.code msg)) := by
    simp [encoding, hv, he, encryptData, ctx]
  have hne : encrypt P.aes ctx (frameMsg type.code msg) ≠ [] :=
    List.ne_nil_of_length_pos (by rw [encrypt_length, frameMsg_length, msgHdrSize]; omega)
  obtain ⟨hall, ⟨-, -, hmax⟩, hc⟩ := whole_write hk hfit hem hstep rfl henc hne
  have hd : defaultMaxFrameSize = 262144 := rfl
  rw [encrypt_length, frameMsg_length] at hmax
  have hctx : p.ctx = some ctx := by rw [hp.ctx, he, Option.map_some]
  refine ⟨{ p with ctx := some (encryptCtx P.aes ctx (frameMsg type.code msg)) }, ?_, ?_⟩
  · simp only [Peer.read, Peer.readEnc, hv, hctx, hall, Bool.false_eq_true, if_false]
    exact readCfb_encrypt p ctx type.code (by omega) rest
  · have hsync : Synced P conf
        { p with ctx := some (encryptCtx P.aes ctx (frameMsg type.code msg)) }
        { s with crypto := { s.crypto with encCtx := some (encryptCtx P.aes ctx
          (frameMsg type.code msg)) } } :=
      ⟨hp.key, by simp [he], hp.magic, hp.reader⟩
    exact hsync.of_cipher hc

theorem follows_encV1_first (hp : Synced P conf p s) (hk : Keyed P conf.authToken s.crypto)
    (hv : conf.wireV2 = false) (he : s.crypto.mainEncoder = none) {type : MsgType} {msg : Bytes}
    (hfit : Fits conf s (.enc type msg)) (hem : emittedBy P conf s (.enc type msg) ≠ []) :
    Follows P conf p s (.enc type msg) := by
  refine ⟨_, rfl, fun rest ↦ ⟨fun _ ↦ ?_, fun h ↦ absurd trivial h⟩⟩
  obtain ⟨hinit, hnone, -⟩ := initMainEncoder_spec hk
  obtain ⟨-, -, hc⟩ := encV1_first_step P conf type msg hk hv he
  have hiv := P.randBytes_length s.crypto.draws
  have hcode := encoding_of_fits hk hfit hem
  simp only [Fits, hv, he, Bool.false_eq_true, if_false] at hfit
  obtain ⟨hopen, hmax, -⟩ := hfit
  have hd : defaultMaxFrameSize = 262144 := rfl
  let ctx := CfbCtx.init (sessionKey P conf.authToken) (P.randBytes s.crypto.draws)
  have hdata : encryptData P (initMainEncoder P conf.authToken s.crypto) (frameMsg type.code msg) =
      ({ initMainEncoder P conf.authToken s.crypto with
        encCtx := some (encryptCtx P.aes ctx (frameMsg type.code msg)) },
        encrypt P.aes ctx (frameMsg type.code msg)) := by
    simp [encryptData, hinit, hnone, ctx]
  have hall : emittedBy P conf s (.enc type msg) =
      P.randBytes s.crypto.draws ++ encrypt P.aes ctx (frameMsg type.code msg) := by
    simp only [encoding, hv, he, Option.isSome_none, Bool.false_eq_true, if_false,
      Option.some.injEq, hdata] at hcode
    exact hcode.symm
  have hctx : p.ctx = none := by rw [hp.ctx, he, Option.map_none]
  refine ⟨{ p with ctx := some (encryptCtx P.aes ctx (frameMsg type.code msg)) }, ?_, ?_⟩
  · have hlen : msg.length < 256 ^ 8 := by omega
    have hread := readCfb_encrypt (P := P) p ctx type.code hlen rest
    simp only [Peer.read, Peer.readEnc, hv, hctx, hall, Bool.false_eq_true, if_false,
      List.append_assoc]
    rw [if_neg (by rw [List.length_append, hiv]; omega), List.take_left' hiv,
      List.drop_left' hiv, hp.key, hread, hp.key]
  · have hc' := hc hopen
    rw [hdata] at hc'
    simp only [cipher, Prod.mk.injEq] at hc'
    obtain ⟨hcr, hw, hm⟩ := hc'
    exact ⟨hp.key, by rw [hcr]; simp [hinit], by rw [hm]; exact hp.magic,
      by rw [hw]; exact hp.reader⟩

theorem follows_of_fits (hp : Synced P conf p s) (hk : Keyed P conf.authToken s.crypto)
    (hfit : Fits conf s e) (hem : emittedBy P conf s e ≠ []) : Follows P conf p s e := by
  cases e with
  | plain type msg =>
    cases hv : conf.wireV2 with
    | true => exact follows_plainV2 hp hk hv hfit hem
    | false => exact follows_plainV1 hp hk hv hfit hem
  | enc type msg =>
    cases hv : conf.wireV2 with
    | true => exact follows_encV2 hp hk hv hfit hem
    | false =>
      cases he : s.crypto.mainEncoder with
      | none => exact follows_encV1_first hp hk hv he hfit hem
      | some coder => exact follows_encV1_running hp hk hv he hfit hem
  | windowUpdate flags increment => exact absurd (emittedBy_idle P conf rfl) hem
  | close =>
    obtain ⟨out, hout, hdata⟩ := tmuxStreamClose_out s.stream
    refine absurd ?_ hem
    rw [emittedBy_eq P conf out (by simp [step, hout]), hdata]

theorem encoding_ne_nil (s : Sender) (e : Event) : encoding P conf s e ≠ some [] := by
  intro h
  cases e with
  | plain type msg =>
    cases hv : conf.wireV2 with
    | true =>
      cases hf : V2.encodeMessage type msg with
      | none => simp [encoding, hv, hf] at h
      | some frame => simp [encoding, hv, hf, encodeMessage_ne_nil hf] at h
    | false => simp [encoding, hv, frameMsg] at h
  | enc type msg =>
    cases hv : conf.wireV2 with
    | true =>
      cases hf : V2.encodeMessage type msg with
      | none => simp [encoding, hv, hf] at h
      | some frame =>
        have hpos : s.writer.sealed P frame ≠ [] :=
          List.ne_nil_of_length_pos (by rw [sealed_length]; omega)
        cases hg : s.gotHello with
        | false => simp [encoding, hv, hf, hg] at h
        | true =>
          obtain ⟨-, hs⟩ | ⟨-, -, hs⟩ | ⟨-, -, hs⟩ :=
            aeadWriterSeal_cases P s.writer (encodeMessage_ne_nil hf)
          · simp [encoding, hv, hf, hg, hs] at h
          · simp [encoding, hv, hf, hg, hs] at h
          · simp [encoding, hv, hf, hg, hs, hpos] at h
    | false =>
      cases he : s.crypto.mainEncoder with
      | none =>
        have hiv := P.randBytes_length s.crypto.draws
        simp only [encoding, hv, he, Option.isSome_none, Bool.false_eq_true, if_false,
          Option.some.injEq, List.append_eq_nil_iff] at h
        simp [h.1] at hiv
      | some coder =>
        have hlen := encryptData_length (P := P) he (frameMsg type.code msg)
        simp only [encoding, hv, he, Option.isSome_some, Bool.false_eq_true, if_false, if_true,
          Option.some.injEq] at h
        rw [h, frameMsg_length, msgHdrSize, List.length_nil] at hlen
        omega
  | windowUpdate flags increment => simp [encoding] at h
  | close => simp [encoding] at h

theorem cipher_of_idle (hk : Keyed P conf.authToken s.crypto) (hfit : Fits conf s e)
    (hem : emittedBy P conf s e = []) : cipher (step P conf s e) = cipher s := by
  obtain ⟨-, hc⟩ | h := (allOrNothing_iff_fits P conf hk e).mpr hfit
  · exact hc
  · rw [hem] at h
    exact absurd h (encoding_ne_nil s e)

theorem legible_of_idle (hem : emittedBy P conf s e = []) : Legible conf s e := by
  cases e with
  | plain type msg =>
    cases hv : conf.wireV2 with
    | false => exact .inl hv
    | true =>
      cases hf : V2.encodeMessage type msg with
      | none => exact .inr (.inl (encodeMessage_none hf))
      | some frame =>
        have hne := encodeMessage_ne_nil hf
        refine .inr (.inr (.inl ?_))
        cases hm : s.stream.v2MagicSent with
        | true =>
          have hstep : step P conf s (.plain type msg) = (writeTemp s frame).1 := by
            simp [step, sendMsgFrpServer, hv, hf, hm]
          rwa [(emittedBy_write P conf hstep rfl).1, take_accepts_nil_iff hne] at hem
        | false =>
          have hstep : step P conf s (.plain type msg) =
              (writeTemp (markMagicSent s) (V2.magic ++ frame)).1 := by
            simp [step, sendMsgFrpServer, hv, hf, hm]
          rwa [(emittedBy_write P conf hstep rfl).1, take_accepts_nil_iff (by simp [hne])] at hem
  | enc type msg => trivial
  | windowUpdate flags increment => trivial
  | close => trivial

structure Extends (P : Primitives) (conf : CommonConf) (s s' : Sender) : Prop where
  out : s.out <+: s'.out
  keyed : Keyed P conf.authToken s.crypto → Keyed P conf.authToken s'.crypto

theorem Extends.refl (s : Sender) : Extends P conf s s := ⟨List.prefix_rfl, id⟩

theorem Extends.trans {s₁ s₂ s₃ : Sender} (h : Extends P conf s₁ s₂) (h' : Extends P conf s₂ s₃) :
    Extends P conf s₁ s₃ :=
  ⟨h.out.trans h'.out, h'.keyed ∘ h.keyed⟩

theorem writeTemp_extends (s : Sender) (data : Bytes) : Extends P conf s (writeTemp s data).1 :=
  ⟨List.prefix_append _ _, id⟩

theorem initializeEncoder_extends (s : Sender) :
    Extends P conf s (initializeEncoder P conf s).1 := by
  have hinit : Extends P conf s { s with crypto := initMainEncoder P conf.authToken s.crypto } :=
    ⟨List.prefix_rfl, initMainEncoder_keyed⟩
  exact hinit.trans (writeTemp_extends _ _)

theorem encryptData_extends (s : Sender) (src : Bytes) :
    Extends P conf s { s with crypto := (encryptData P s.crypto src).1 } :=
  ⟨List.prefix_rfl, fun h ↦ encryptData_keyed h src⟩

theorem sendMsgFrpServer_extends (s : Sender) (type : MsgType) (msg : Bytes) :
    Extends P conf s (sendMsgFrpServer conf s type msg) := by
  have hmark : Extends P conf s (markMagicSent s) := ⟨List.prefix_rfl, id⟩
  unfold sendMsgFrpServer
  by_cases hv : conf.wireV2 = true
  · rw [if_pos hv]
    split
    · exact .refl s
    · split_ifs
      · exact writeTemp_extends _ _
      · exact hmark.trans (writeTemp_extends _ _)
  · rw [if_neg hv]
    exact writeTemp_extends _ _

theorem sendEncMsgFrpServer_extends (s : Sender) (type : MsgType) (msg : Bytes) :
    Extends P conf s (sendEncMsgFrpServer P conf s type msg) := by
  have hseal : ∀ w, Extends P conf s { s with writer := w } := fun _ ↦ ⟨List.prefix_rfl, id⟩
  have hsend : ∀ s₁, Extends P conf s s₁ → Extends P conf s
      (writeTemp { s₁ with crypto := (encryptData P s₁.crypto (frameMsg type.code msg)).1 }
        (encryptData P s₁.crypto (frameMsg type.code msg)).2).1 :=
    fun s₁ h ↦ (h.trans (encryptData_extends s₁ _)).trans (writeTemp_extends _ _)
  unfold sendEncMsgFrpServer
  by_cases hv : conf.wireV2 = true
  · rw [if_pos hv]
    split
    · exact .refl s
    · by_cases hg : s.gotHello = true
      · rw [if_pos hg]
        split
        · exact hseal _
        · exact (hseal _).trans (writeTemp_extends _ _)
      · rw [if_neg hg]
        exact .refl s
  · rw [if_neg hv]
    cases s.crypto.mainEncoder.isSome with
    | true => exact hsend s (.refl s)
    | false =>
      have hinit : Extends P conf s (initializeEncoder P conf s).1 := initializeEncoder_extends s
      simp only [Bool.false_eq_true, if_false]
      split_ifs
      · exact hsend _ hinit
      · exact hinit

theorem step_extends (s : Sender) (e : Event) : Extends P conf s (step P conf s e) := by
  cases e with
  | plain type msg => exact sendMsgFrpServer_extends s type msg
  | enc type msg => exact sendEncMsgFrpServer_extends s type msg
  | windowUpdate flags increment => exact ⟨List.prefix_rfl, id⟩
  | close => exact ⟨List.prefix_append _ _, id⟩

theorem run_extends (s : Sender) (es : List Event) :
    Extends P conf s (es.foldl (step P conf) s) := by
  induction es generalizing s with
  | nil => exact .refl s
  | cons e es ih => exact (step_extends s e).trans (ih _)

theorem emittedIn_cons (s : Sender) (e : Event) (es : List Event) :
    emittedIn P conf s (e :: es) = emittedBy P conf s e ++ emittedIn P conf (step P conf s e) es := by
  have hstep : Extends P conf s (step P conf s e) := step_extends s e
  have hrun : Extends P conf _ (es.foldl (step P conf) (step P conf s e)) := run_extends _ es
  obtain ⟨u, hu⟩ := hstep.out
  obtain ⟨v, hv⟩ := hrun.out
  rw [emittedBy_eq P conf u hu.symm, emittedIn, emittedIn, List.foldl_cons, ← hv, List.drop_left,
    ← hu, List.append_assoc, List.drop_left, dataBytes_append]

/-- The peer stays in step with the sender exactly in the runs whose calls all
fit and are legible. -/
theorem inStep_iff_fits (hk : Keyed P conf.authToken s.crypto) (hp : Synced P conf p s)
    (es : List Event) :
    InStep P conf p s es ↔
      Along (step P conf) (fun s e ↦ Fits conf s e ∧ Legible conf s e) s es := by
  induction es generalizing p s with
  | nil => simp [InStep, Along, delivered, Peer.decode, emittedIn]
  | cons e es ih =>
    by_cases hfit : Fits conf s e
    · have hall := (allOrNothing_iff_fits P conf hk e).mpr hfit
      by_cases hem : emittedBy P conf s e = []
      · have hp' := hp.of_cipher (cipher_of_idle hk hfit hem)
        have h := ih ((step_extends s e).keyed hk) hp'
        have hleg := legible_of_idle hem
        simp only [InStep] at h
        simp only [InStep, Along, hfit, hleg, hall, true_and, delivered, hem, if_true,
          List.nil_append, emittedIn_cons, h]
      · obtain ⟨c, hcall, hfollow⟩ := follows_of_fits hp hk hfit hem
        obtain ⟨hyes, hno⟩ := hfollow (emittedIn P conf (step P conf s e) es)
        by_cases hleg : Legible conf s e
        · obtain ⟨p', hread, hp'⟩ := hyes hleg
          have h := ih ((step_extends s e).keyed hk) hp'
          simp only [InStep] at h
          simp [InStep, Along, hfit, hleg, hall, delivered, hem, hcall, emittedIn_cons,
            Peer.decode, hread, ← h]
        · have hnone := hno hleg
          simp [InStep, Along, hleg, delivered, hem, hcall, emittedIn_cons, Peer.decode, hnone]
    · have hall := mt (allOrNothing_iff_fits P conf hk e).mp hfit
      simp [InStep, Along, hfit, hall]

def sampleConf : CommonConf := { tcpMux := true, wireV2 := false, authToken := some [9] }

def sampleWriter : AeadWriter :=
  { key := [], streamNonce := List.replicate 12 0, nonce := List.replicate 12 0
    headerSent := false, frameCount := 0, nonce_length := rfl }

def sampleSender : Sender :=
  { crypto := .start, writer := sampleWriter, gotHello := false
    stream := initTmuxStream 1 .init, out := [] }

def samplePeer : Peer :=
  { key := sessionKey toyPrimitives sampleConf.authToken, ctx := none, magicSeen := false
    reader := ⟨[], [], [], false, 0, [], []⟩ }

theorem samplePeer_synced : Synced toyPrimitives sampleConf samplePeer sampleSender :=
  ⟨rfl, rfl, rfl, ⟨rfl, rfl, nofun, nofun, fun _ ↦ rfl⟩⟩

def sampleRun : List Event :=
  [.plain .login [1], .enc .ping [2, 3], .windowUpdate 0 40, .enc .newProxy [4], .close]

theorem inStep_sampleRun : InStep toyPrimitives sampleConf samplePeer sampleSender sampleRun := by
  refine (inStep_iff_fits start_keyed samplePeer_synced sampleRun).mpr ?_
  decide +kernel

/-- A message that does not fit a frame is cut, and one that finds the window
empty moves the key stream on without a byte going out. -/
theorem not_inStep_long_empty :
    ¬ InStep toyPrimitives sampleConf samplePeer sampleSender
        [.enc .newProxy (List.replicate 262144 0)] ∧
      ¬ InStep toyPrimitives sampleConf samplePeer sampleSender
        [.plain .newProxy (List.replicate 262135 0), .enc .ping [1]] := by
  constructor
  · rintro ⟨⟨h, -⟩, -⟩
    have hfit : Fits sampleConf sampleSender (.enc .newProxy (List.replicate 262144 0)) :=
      (allOrNothing_iff_fits _ _ start_keyed _).mp h
    have hmax := hfit.2.1
    rw [List.length_replicate] at hmax
    exact absurd hmax (by decide)
  · rintro ⟨⟨-, h, -⟩, -⟩
    have hfit : Fits sampleConf (step toyPrimitives sampleConf sampleSender
        (.plain .newProxy (List.replicate 262135 0))) (.enc .ping [1]) :=
      (allOrNothing_iff_fits _ _ ((step_extends _ _).keyed start_keyed) _).mp h
    have hwin := Nat.le_trans (Nat.le_add_left _ _) hfit.2.2
    obtain ⟨st, added, hw, -⟩ := writeTemp_spec sampleSender
      (frameMsg MsgType.newProxy.code (List.replicate 262135 0))
    have hstep : step toyPrimitives sampleConf sampleSender
        (.plain .newProxy (List.replicate 262135 0)) = wrote sampleSender st 262144 added := by
      rw [frameMsg_length, List.length_replicate] at hw
      exact hw
    have hzero : (wrote sampleSender st 262144 added).stream.sendWindow.toNat = 0 := rfl
    rw [hstep, hzero] at hwin
    exact absurd hwin (by decide)

end Xfrpc.Control.MuxPeer
