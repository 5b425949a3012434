import Xfrpc.Control.Send
import Xfrpc.Foundations.Runs

namespace Xfrpc.Control.SendMux

open Foundations.BigEndian Foundations.Runs Message Send Crypto.Cfb Crypto.Coder Crypto.Aead
  Mux.Header Mux.Stream Wire

/-- What happens on one stream of the client: the two functions that send a
message, WINDOW_UPDATEs, and the local close. -/
inductive Event
  | plain (type : MsgType) (msg : Bytes)
  | enc (type : MsgType) (msg : Bytes)
  | windowUpdate (flags increment : ℕ)
  | close
  deriving DecidableEq, Repr

def credit (flags increment : ℕ) (s : TmuxStream) : TmuxStream :=
  if hasFlag flags .syn then s
  else
    match creditSendWindow flags increment s with
    | .error s' | .freed s' | .credited _ s' => s'

variable (P : Primitives) (conf : CommonConf)

def step (s : Sender) : Event → Sender
  | .plain type msg => sendMsgFrpServer conf s type msg
  | .enc type msg => sendEncMsgFrpServer P conf s type msg
  | .windowUpdate flags increment => { s with stream := credit flags increment s.stream }
  | .close =>
    let r := tmuxStreamClose s.stream
    { s with stream := r.stream, out := s.out ++ r.out }

def emittedBy (s : Sender) (e : Event) : Bytes :=
  dataBytes ((step P conf s e).out.drop s.out.length)

/-- What the peer has to follow: the key stream, the AEAD nonce, and whether
the v2 magic is out. -/
def cipher (s : Sender) : CryptoState × AeadWriter × Bool :=
  (s.crypto, s.writer, s.stream.v2MagicSent)

def encoding (s : Sender) : Event → Option Bytes
  | .plain type msg =>
    if conf.wireV2 then
      (V2.encodeMessage type msg).map fun frame ↦
        (if s.stream.v2MagicSent then [] else V2.magic) ++ frame
    else some (frameMsg type.code msg)
  | .enc type msg =>
    if conf.wireV2 then
      match V2.encodeMessage type msg with
      | none => none
      | some frame => if s.gotHello then (aeadWriterSeal P s.writer frame).2 else none
    else if s.crypto.mainEncoder.isSome then
      some (encryptData P s.crypto (frameMsg type.code msg)).2
    else
      let crypto := initMainEncoder P conf.authToken s.crypto
      some (P.randBytes s.crypto.draws ++ (encryptData P crypto (frameMsg type.code msg)).2)
  | _ => none

/-- A call emits the complete encoding of its message, or it emits nothing and
leaves the cipher where it was. -/
def AllOrNothing (s : Sender) (e : Event) : Prop :=
  (emittedBy P conf s e = [] ∧ cipher (step P conf s e) = cipher s) ∨
    encoding P conf s e = some (emittedBy P conf s e)

/-- A frame with `n` bytes of payload can go out now. -/
def room (s : Sender) (n : ℕ) : Prop :=
  s.stream.state.writeClosed = false ∧ n ≤ s.stream.sendWindow.toNat ∧ n ≤ defaultMaxFrameSize

def shut (s : Sender) : Prop := s.stream.state.writeClosed = true ∨ s.stream.sendWindow = 0

instance (s : Sender) (n : ℕ) : Decidable (room s n) := inferInstanceAs (Decidable (_ ∧ _ ∧ _))

instance (s : Sender) : Decidable (shut s) := inferInstanceAs (Decidable (_ ∨ _))

/-- The calls that keep the stream in order, told from the state before them. -/
def Fits (s : Sender) : Event → Prop
  | .plain type msg =>
    if conf.wireV2 then
      V2.msgTypeToId type = 0 ∨
      (if s.stream.v2MagicSent then
        shut s ∨ room s (V2.frameHeaderSize + 2 + msg.length)
      else room s (V2.magic.length + (V2.frameHeaderSize + 2 + msg.length)))
    else shut s ∨ room s (msgHdrSize + msg.length)
  | .enc type msg =>
    if conf.wireV2 then
      V2.msgTypeToId type = 0 ∨ s.gotHello = false ∨
      maxPayload < V2.frameHeaderSize + 2 + msg.length ∨
      ((incrementNonce s.writer.nonce).2 = true ∧
        room s ((if s.writer.headerSent then 0 else gcmNonceSize) + 4 +
          (V2.frameHeaderSize + 2 + msg.length + gcmTagSize)))
    else
      s.stream.state.writeClosed = false ∧ msgHdrSize + msg.length ≤ defaultMaxFrameSize ∧
      (if s.crypto.mainEncoder.isSome then 0 else 16) + (msgHdrSize + msg.length) ≤
        s.stream.sendWindow.toNat
  | _ => True

instance (s : Sender) (e : Event) : Decidable (Fits conf s e) :=
  match e with
  | .plain .. => inferInstanceAs (Decidable (if conf.wireV2 then _ else _))
  | .enc .. => inferInstanceAs (Decidable (if conf.wireV2 then _ else _))
  | .windowUpdate .. => isTrue trivial
  | .close => isTrue trivial

/-- How many of `n` bytes one write takes. -/
def accepts (s : TmuxStream) (n : ℕ) : ℕ :=
  if s.state.writeClosed then 0 else min (min n s.sendWindow.toNat) defaultMaxFrameSize

/-- The sender after `n` bytes have left it in the frames `added`. -/
def wrote (s : Sender) (st : TcpMuxState) (n : ℕ) (added : List Frame) : Sender :=
  { s with
    stream := { s.stream with state := st, sendWindow := s.stream.sendWindow - .ofNat n }
    out := s.out ++ added }

theorem writeTemp_spec (s : Sender) (data : Bytes) :
    ∃ st added, (writeTemp s data).1 = wrote s st (accepts s.stream data.length) added ∧
      dataBytes added = data.take (accepts s.stream data.length) ∧
      st.writeClosed = s.stream.state.writeClosed ∧
      (0 ≤ (writeTemp s data).2 ↔ s.stream.state.writeClosed = false) := by
  have hzero : s.stream.sendWindow - .ofNat 0 = s.stream.sendWindow := UInt32.sub_zero _
  obtain ⟨h, hwhy⟩ | ⟨n, flags, st, hn, -, hc, hst, h⟩ := tmuxStreamWrite_cases s.stream data
  · have hacc : accepts s.stream data.length = 0 := by
      unfold accepts
      obtain hc | rfl | hw := hwhy
      · rw [if_pos hc]
      · simp
      · simp [hw]
    refine ⟨s.stream.state, [], ?_, by simp [hacc], rfl, ?_⟩
    · simp only [writeTemp, h, hacc, wrote, hzero]
    · simp only [writeTemp, h]
      split_ifs with hcl <;> simp [hcl]
  · have hacc : accepts s.stream data.length = n := by
      rw [accepts, if_neg (by simp [hc]), hn]
    refine ⟨st, [⟨tcpMuxEncode .tmuxData flags s.stream.id n, data.take n⟩], ?_, ?_,
      by rw [hc, hst], ?_⟩
    · simp only [writeTemp, h, hacc]
      rfl
    · rw [hacc]
      exact dataBytes_data flags _ _ _
    · simp [writeTemp, h, hc]

theorem accepts_le (s : TmuxStream) (n : ℕ) : accepts s n ≤ n := by
  unfold accepts
  split_ifs
  · exact Nat.zero_le n
  · omega

theorem accepts_eq_iff {s : Sender} {n : ℕ} (hn : 0 < n) : accepts s.stream n = n ↔ room s n := by
  have hle : min (min n s.stream.sendWindow.toNat) defaultMaxFrameSize = n ↔
      n ≤ s.stream.sendWindow.toNat ∧ n ≤ defaultMaxFrameSize := by omega
  unfold accepts room
  cases s.stream.state.writeClosed with
  | true =>
    constructor
    · intro h
      exact absurd h (Nat.ne_of_lt hn)
    · rintro ⟨hc, -⟩
      cases hc
  | false => exact hle.trans (and_iff_right rfl).symm

theorem accepts_eq_zero_iff {s : Sender} {n : ℕ} (hn : 0 < n) :
    accepts s.stream n = 0 ↔ shut s := by
  have hw : s.stream.sendWindow = 0 ↔ s.stream.sendWindow.toNat = 0 :=
    ⟨fun h ↦ by rw [h]; rfl, fun h ↦ UInt32.toNat_inj.mp h⟩
  have hd : 0 < defaultMaxFrameSize := by decide
  unfold accepts shut
  rw [hw]
  cases s.stream.state.writeClosed with
  | true => simp
  | false => simp; omega

theorem not_shut_of_room {s : Sender} {n : ℕ} (hn : 0 < n) (h : room s n) : ¬ shut s := by
  rw [← accepts_eq_iff hn] at h
  rw [← accepts_eq_zero_iff hn]
  omega

theorem take_accepts_iff {s : Sender} {data : Bytes} (hd : data ≠ []) :
    data.take (accepts s.stream data.length) = data ↔ room s data.length := by
  have hpos := List.length_pos_of_ne_nil hd
  rw [← accepts_eq_iff hpos, List.take_eq_self_iff]
  have hle := accepts_le s.stream data.length
  omega

theorem take_accepts_nil_iff {s : Sender} {data : Bytes} (hd : data ≠ []) :
    data.take (accepts s.stream data.length) = [] ↔ shut s := by
  have hpos := List.length_pos_of_ne_nil hd
  rw [← accepts_eq_zero_iff hpos, List.take_eq_nil_iff]
  simp [hd]

theorem emittedBy_eq {s : Sender} {e : Event} (added : List Frame)
    (h : (step P conf s e).out = s.out ++ added) : emittedBy P conf s e = dataBytes added := by
  rw [emittedBy, h, List.drop_left]

theorem emittedBy_write {s s₁ : Sender} {e : Event} {data : Bytes}
    (h : step P conf s e = (writeTemp s₁ data).1) (hout : s₁.out = s.out) :
    emittedBy P conf s e = data.take (accepts s₁.stream data.length) ∧
      cipher (step P conf s e) = cipher s₁ := by
  obtain ⟨st, added, hw, hdata, -, -⟩ := writeTemp_spec s₁ data
  rw [hw] at h
  refine ⟨?_, by rw [h]; rfl⟩
  rw [emittedBy_eq P conf added (by rw [h, ← hout]; rfl), hdata]

theorem allOrNothing_write {s : Sender} {e : Event} {data : Bytes}
    (h : step P conf s e = (writeTemp s data).1) (hd : data ≠ [])
    (henc : encoding P conf s e = some data) :
    AllOrNothing P conf s e ↔ shut s ∨ room s data.length := by
  obtain ⟨hem, hc⟩ := emittedBy_write P conf h rfl
  unfold AllOrNothing
  rw [hem, hc, henc, Option.some.injEq, eq_comm (a := data), take_accepts_iff hd,
    take_accepts_nil_iff hd]
  simp

theorem allOrNothing_advanced {s s₁ : Sender} {e : Event} {data : Bytes}
    (h : step P conf s e = (writeTemp s₁ data).1) (hout : s₁.out = s.out)
    (hstream : accepts s₁.stream data.length = accepts s.stream data.length) (hd : data ≠ [])
    (henc : encoding P conf s e = some data) (hc : cipher s₁ ≠ cipher s) :
    AllOrNothing P conf s e ↔ room s data.length := by
  obtain ⟨hem, hc'⟩ := emittedBy_write P conf h hout
  unfold AllOrNothing
  rw [hem, hc', henc, Option.some.injEq, eq_comm (a := data), hstream, take_accepts_iff hd]
  simp [hc]

theorem emittedBy_idle {s : Sender} {e : Event} (h : (step P conf s e).out = s.out) :
    emittedBy P conf s e = [] := by
  rw [emittedBy_eq P conf [] (by rw [h, List.append_nil])]
  rfl

theorem allOrNothing_idle {s : Sender} {e : Event} (h : step P conf s e = s) :
    AllOrNothing P conf s e :=
  .inl ⟨emittedBy_idle P conf (by rw [h]), by rw [h]⟩

theorem encodeMessage_some {type : MsgType} {msg frame : Bytes}
    (h : V2.encodeMessage type msg = some frame) :
    V2.msgTypeToId type ≠ 0 ∧ frame.length = V2.frameHeaderSize + 2 + msg.length := by
  unfold V2.encodeMessage at h
  split_ifs at h with hid
  refine ⟨hid, ?_⟩
  rw [Option.some.injEq] at h
  rw [← h, V2.encodeFrame_length, List.length_append, toBe_length]
  omega

theorem encodeMessage_none {type : MsgType} {msg : Bytes}
    (h : V2.encodeMessage type msg = none) : V2.msgTypeToId type = 0 := by
  unfold V2.encodeMessage at h
  split_ifs at h with hid
  exact hid

theorem plain_allOrNothing_iff (s : Sender) (type : MsgType) (msg : Bytes) :
    AllOrNothing P conf s (.plain type msg) ↔ Fits conf s (.plain type msg) := by
  unfold Fits
  cases hv : conf.wireV2 with
  | false =>
    have hstep : step P conf s (.plain type msg) = (writeTemp s (frameMsg type.code msg)).1 := by
      simp [step, sendMsgFrpServer, hv]
    have henc : encoding P conf s (.plain type msg) = some (frameMsg type.code msg) := by
      simp [encoding, hv]
    rw [allOrNothing_write P conf hstep (by simp [frameMsg]) henc]
    simp
  | true =>
    cases hf : V2.encodeMessage type msg with
    | none =>
      have hstep : step P conf s (.plain type msg) = s := by
        simp [step, sendMsgFrpServer, hv, hf]
      simp [allOrNothing_idle P conf hstep, encodeMessage_none hf]
    | some frame =>
      obtain ⟨hid, hlen⟩ := encodeMessage_some hf
      have hne : frame ≠ [] := List.ne_nil_of_length_pos (by rw [hlen, V2.frameHeaderSize]; omega)
      cases hm : s.stream.v2MagicSent with
      | true =>
        have hstep : step P conf s (.plain type msg) = (writeTemp s frame).1 := by
          simp [step, sendMsgFrpServer, hv, hf, hm]
        have henc : encoding P conf s (.plain type msg) = some frame := by
          simp [encoding, hv, hf, hm]
        rw [allOrNothing_write P conf hstep hne henc, hlen]
        simp [hid]
      | false =>
        have hstep : step P conf s (.plain type msg) =
            (writeTemp (markMagicSent s) (V2.magic ++ frame)).1 := by
          simp [step, sendMsgFrpServer, hv, hf, hm]
        have henc : encoding P conf s (.plain type msg) = some (V2.magic ++ frame) := by
          simp [encoding, hv, hf, hm]
        have hc : cipher (markMagicSent s) ≠ cipher s := by
          simp [cipher, markMagicSent, hm]
        rw [allOrNothing_advanced P conf hstep rfl rfl (by simp [hne]) henc hc,
          List.length_append, hlen]
        simp [hid]

theorem advance_ne (w : AeadWriter) : w.advance ≠ w := by
  intro h
  have hl := w.nonce_length
  refine incrementNonce_ne ?_ (congrArg AeadWriter.nonce h)
  rintro hnil
  simp [hnil, gcmNonceSize] at hl

theorem encV2_sealed_iff {s : Sender} {type : MsgType} {msg frame : Bytes}
    (hv : conf.wireV2 = true) (hf : V2.encodeMessage type msg = some frame)
    (hg : s.gotHello = true) (hne : frame ≠ []) :
    AllOrNothing P conf s (.enc type msg) ↔ maxPayload < frame.length ∨
      ((incrementNonce s.writer.nonce).2 = true ∧
        room s ((if s.writer.headerSent then 0 else gcmNonceSize) + 4 +
          (frame.length + gcmTagSize))) := by
  obtain ⟨hbig, hs⟩ | ⟨hle, hok, hs⟩ | ⟨hle, hok, hs⟩ := aeadWriterSeal_cases P s.writer hne
  · have hstep : step P conf s (.enc type msg) = s := by
      simp [step, sendEncMsgFrpServer, hv, hf, hg, hs]
      rw [← hg]
    simp [allOrNothing_idle P conf hstep, hbig]
  · have hstep : step P conf s (.enc type msg) = { s with writer := s.writer.advance } := by
      simp [step, sendEncMsgFrpServer, hv, hf, hg, hs]
    have henc : encoding P conf s (.enc type msg) = none := by simp [encoding, hv, hf, hg, hs]
    have hnot : ¬ AllOrNothing P conf s (.enc type msg) := by
      rintro (⟨-, hci⟩ | hsome)
      · rw [hstep] at hci
        simp only [cipher, Prod.mk.injEq, true_and, and_true] at hci
        exact advance_ne s.writer hci
      · rw [henc] at hsome
        simp at hsome
    simp only [hnot, hok, Bool.false_eq_true, false_and, or_false, false_iff]
    omega
  · have hstep : step P conf s (.enc type msg) = (writeTemp { s with writer :=
        { s.writer.advance with frameCount := s.writer.frameCount + 1 } }
          (s.writer.sealed P frame)).1 := by
      simp [step, sendEncMsgFrpServer, hv, hf, hg, hs]
    have henc : encoding P conf s (.enc type msg) = some (s.writer.sealed P frame) := by
      simp [encoding, hv, hf, hg, hs]
    have hsealed : s.writer.sealed P frame ≠ [] :=
      List.ne_nil_of_length_pos (by rw [sealed_length]; omega)
    have hc : cipher { s with writer := { s.writer.advance with
        frameCount := s.writer.frameCount + 1 } } ≠ cipher s := by
      intro h
      simp only [cipher, Prod.mk.injEq, true_and, and_true] at h
      have hcount := congrArg AeadWriter.frameCount h
      simp at hcount
    rw [allOrNothing_advanced P conf hstep rfl rfl hsealed henc hc, sealed_length]
    simp only [hok, true_and]
    refine ⟨.inr, fun h ↦ h.resolve_left (by omega)⟩

theorem encV2_allOrNothing_iff {s : Sender} {type : MsgType} {msg : Bytes}
    (hv : conf.wireV2 = true) :
    AllOrNothing P conf s (.enc type msg) ↔ Fits conf s (.enc type msg) := by
  simp only [Fits, hv, if_true]
  cases hf : V2.encodeMessage type msg with
  | none =>
    have hstep : step P conf s (.enc type msg) = s := by
      simp [step, sendEncMsgFrpServer, hv, hf]
    simp [allOrNothing_idle P conf hstep, encodeMessage_none hf]
  | some frame =>
    obtain ⟨hid, hlen⟩ := encodeMessage_some hf
    have hne : frame ≠ [] := List.ne_nil_of_length_pos (by rw [hlen, V2.frameHeaderSize]; omega)
    cases hg : s.gotHello with
    | false =>
      have hstep : step P conf s (.enc type msg) = s := by
        simp [step, sendEncMsgFrpServer, hv, hf, hg]
      simp [allOrNothing_idle P conf hstep]
    | true =>
      rw [encV2_sealed_iff P conf hv hf hg hne, hlen]
      simp [hid]

theorem encV1_running_iff {s : Sender} {type : MsgType} {msg : Bytes} {coder : FrpCoder}
    (hv : conf.wireV2 = false) (he : s.crypto.mainEncoder = some coder) :
    AllOrNothing P conf s (.enc type msg) ↔ room s (msgHdrSize + msg.length) := by
  have hstep : step P conf s (.enc type msg) =
      (writeTemp { s with crypto := (encryptData P s.crypto (frameMsg type.code msg)).1 }
        (encryptData P s.crypto (frameMsg type.code msg)).2).1 := by
    simp [step, sendEncMsgFrpServer, hv, he]
  have henc : encoding P conf s (.enc type msg) =
      some (encryptData P s.crypto (frameMsg type.code msg)).2 := by
    simp [encoding, hv, he]
  have hlen := encryptData_length (P := P) he (frameMsg type.code msg)
  have hne : (encryptData P s.crypto (frameMsg type.code msg)).2 ≠ [] :=
    List.ne_nil_of_length_pos (by rw [hlen, frameMsg_length, msgHdrSize]; omega)
  have hc : cipher { s with crypto := (encryptData P s.crypto (frameMsg type.code msg)).1 } ≠
      cipher s := by
    intro h
    simp only [cipher, Prod.mk.injEq, and_true, encryptData, he] at h
    have hctx := congrArg CryptoState.encCtx h
    dsimp only at hctx
    cases hx : s.crypto.encCtx with
    | none => rw [hx] at hctx; simp at hctx
    | some ctx =>
      rw [hx, Option.getD_some, Option.some.injEq] at hctx
      have hcount := congrArg CfbCtx.count hctx
      rw [encryptCtx_count, frameMsg_length, msgHdrSize] at hcount
      omega
  rw [allOrNothing_advanced P conf hstep rfl rfl hne henc hc, hlen, frameMsg_length]

/-- What the stream still takes after a write that spent part of its window. -/
theorem accepts_spent {s : TmuxStream} {st : TcpMuxState} (hcl : s.state.writeClosed = false)
    (hst : st.writeClosed = s.state.writeClosed) (k n : ℕ) :
    accepts { s with state := st, sendWindow := s.sendWindow - .ofNat (accepts s k) } n =
      min (min n (s.sendWindow.toNat - accepts s k)) defaultMaxFrameSize := by
  have hacc : accepts s k ≤ s.sendWindow.toNat := by
    simp only [accepts, hcl, Bool.false_eq_true, if_false]
    omega
  have hopen : st.writeClosed = false := hst.trans hcl
  have hleft := toNat_sub_ofNat hacc
  rw [accepts, if_neg (by simp [hopen])]
  dsimp only
  rw [hleft]

theorem encV1_first_step {s : Sender} (type : MsgType) (msg : Bytes)
    (hk : Keyed P conf.authToken s.crypto) (hv : conf.wireV2 = false)
    (he : s.crypto.mainEncoder = none) :
    (step P conf s (.enc type msg)).crypto.mainEncoder.isSome = true ∧
    emittedBy P conf s (.enc type msg) =
      (P.randBytes s.crypto.draws).take (accepts s.stream 16) ++
        (if s.stream.state.writeClosed then []
          else (encryptData P (initMainEncoder P conf.authToken s.crypto)
            (frameMsg type.code msg)).2.take
              (min (min (msgHdrSize + msg.length)
                (s.stream.sendWindow.toNat - accepts s.stream 16)) defaultMaxFrameSize)) ∧
    (s.stream.state.writeClosed = false → cipher (step P conf s (.enc type msg)) =
      ((encryptData P (initMainEncoder P conf.authToken s.crypto) (frameMsg type.code msg)).1,
        s.writer, s.stream.v2MagicSent)) := by
  obtain ⟨henc, hctx, -⟩ := initMainEncoder_spec hk
  have hiv := P.randBytes_length s.crypto.draws
  obtain ⟨st, added, hw, hdata, hst, hret⟩ := writeTemp_spec
    { s with crypto := initMainEncoder P conf.authToken s.crypto } (P.randBytes s.crypto.draws)
  have hlen := encryptData_length (P := P) henc (frameMsg type.code msg)
  rw [hiv] at hw hdata
  cases hcl : s.stream.state.writeClosed with
  | true =>
    have hstep : step P conf s (.enc type msg) = (writeTemp
        { s with crypto := initMainEncoder P conf.authToken s.crypto }
          (P.randBytes s.crypto.draws)).1 := by
      have hneg : ¬ 0 ≤ (writeTemp { s with crypto := initMainEncoder P conf.authToken s.crypto }
          (P.randBytes s.crypto.draws)).2 := by
        rw [hret]
        simp [hcl]
      simp [step, sendEncMsgFrpServer, hv, he, initializeEncoder, henc, hneg]
    rw [hw] at hstep
    refine ⟨by rw [hstep]; simp [wrote, henc], ?_, nofun⟩
    rw [emittedBy_eq P conf added (by rw [hstep]; rfl), hdata]
    simp
  | false =>
    have hpos : 0 ≤ (writeTemp { s with crypto := initMainEncoder P conf.authToken s.crypto }
        (P.randBytes s.crypto.draws)).2 := hret.mpr hcl
    obtain ⟨st₂, added₂, hw₂, hdata₂, -, -⟩ := writeTemp_spec
      { wrote { s with crypto := initMainEncoder P conf.authToken s.crypto } st
          (accepts s.stream 16) added with
        crypto := (encryptData P (initMainEncoder P conf.authToken s.crypto)
          (frameMsg type.code msg)).1 }
      (encryptData P (initMainEncoder P conf.authToken s.crypto) (frameMsg type.code msg)).2
    have hstep : step P conf s (.enc type msg) = (writeTemp
      { wrote { s with crypto := initMainEncoder P conf.authToken s.crypto } st
          (accepts s.stream 16) added with
        crypto := (encryptData P (initMainEncoder P conf.authToken s.crypto)
          (frameMsg type.code msg)).1 }
      (encryptData P (initMainEncoder P conf.authToken s.crypto) (frameMsg type.code msg)).2).1 := by
      simp [step, sendEncMsgFrpServer, hv, he, initializeEncoder, henc, hpos, hw, wrote]
    rw [hw₂] at hstep
    have hacc₂ := accepts_spent hcl hst 16
    refine ⟨?_, ?_, fun _ ↦ by rw [hstep]; rfl⟩
    · rw [hstep]
      simp [wrote, encryptData, henc]
    · rw [emittedBy_eq P conf (added ++ added₂)
        (by rw [hstep]; simp [wrote, List.append_assoc]), dataBytes_append, hdata, hdata₂]
      simp only [wrote, hacc₂, hlen, frameMsg_length, Bool.false_eq_true, if_false]

theorem encV1_first_iff {s : Sender} {type : MsgType} {msg : Bytes}
    (hk : Keyed P conf.authToken s.crypto) (hv : conf.wireV2 = false)
    (he : s.crypto.mainEncoder = none) :
    AllOrNothing P conf s (.enc type msg) ↔ Fits conf s (.enc type msg) := by
  obtain ⟨hsome, hem, -⟩ := encV1_first_step P conf type msg hk hv he
  obtain ⟨henc, -, -⟩ := initMainEncoder_spec hk
  have hiv := P.randBytes_length s.crypto.draws
  have hlen := encryptData_length (P := P) henc (frameMsg type.code msg)
  rw [frameMsg_length] at hlen
  have hcode : encoding P conf s (.enc type msg) = some (P.randBytes s.crypto.draws ++
      (encryptData P (initMainEncoder P conf.authToken s.crypto) (frameMsg type.code msg)).2) := by
    simp [encoding, hv, he]
  have hc : cipher (step P conf s (.enc type msg)) ≠ cipher s := by
    intro h
    have hcr : (step P conf s (.enc type msg)).crypto = s.crypto := congrArg Prod.fst h
    rw [hcr, he] at hsome
    simp at hsome
  have hd : 16 ≤ defaultMaxFrameSize := by decide
  unfold AllOrNothing
  simp only [hc, and_false, false_or, hcode, Option.some.injEq, hem, Fits, hv, he,
    Option.isSome_none, Bool.false_eq_true, if_false]
  constructor
  · intro h
    have hl := congrArg List.length h
    cases hcl : s.stream.state.writeClosed with
    | true =>
      simp only [accepts, hcl, if_true, List.length_append, List.length_take, List.length_nil, hiv,
        hlen, msgHdrSize] at hl
      omega
    | false =>
      simp only [accepts, hcl, Bool.false_eq_true, if_false, List.length_append, List.length_take,
        hiv, hlen] at hl
      refine ⟨rfl, ?_, ?_⟩ <;> omega
  · rintro ⟨hcl, hmax, hwin⟩
    have h16 : accepts s.stream 16 = 16 := by
      simp only [accepts, hcl, Bool.false_eq_true, if_false]
      omega
    have hn : min (min (msgHdrSize + msg.length) (s.stream.sendWindow.toNat - 16))
        defaultMaxFrameSize = msgHdrSize + msg.length := by omega
    rw [h16, hn, if_neg (by simp [hcl]), List.take_of_length_le (by rw [hiv]),
      List.take_of_length_le (by rw [hlen])]

theorem credit_v2MagicSent (flags increment : ℕ) (s : TmuxStream) :
    (credit flags increment s).v2MagicSent = s.v2MagicSent := by
  unfold credit
  split_ifs
  · rfl
  · obtain ⟨-, h⟩ | ⟨-, -, st, h⟩ | ⟨-, -, -, st, h⟩ | ⟨-, -, -, st, h⟩ :=
      creditSendWindow_cases flags increment s <;> rw [h]

theorem tmuxStreamClose_v2MagicSent (s : TmuxStream) :
    (tmuxStreamClose s).stream.v2MagicSent = s.v2MagicSent := by
  unfold tmuxStreamClose
  split <;> rfl

theorem tmuxStreamClose_out (s : TmuxStream) :
    ∃ out, (tmuxStreamClose s).out = out ∧ dataBytes out = [] := by
  unfold tmuxStreamClose
  split <;> exact ⟨_, rfl, rfl⟩

theorem allOrNothing_iff_fits {s : Sender} (hk : Keyed P conf.authToken s.crypto) (e : Event) :
    AllOrNothing P conf s e ↔ Fits conf s e := by
  cases e with
  | plain type msg => exact plain_allOrNothing_iff P conf s type msg
  | enc type msg =>
    cases hv : conf.wireV2 with
    | true => exact encV2_allOrNothing_iff P conf hv
    | false =>
      cases he : s.crypto.mainEncoder with
      | none => exact encV1_first_iff P conf hk hv he
      | some coder =>
        rw [encV1_running_iff P conf hv he]
        simp only [Fits, hv, he, room, Option.isSome_some, if_true, Nat.zero_add,
          Bool.false_eq_true, if_false]
        constructor
        · rintro ⟨hcl, hwin, hmax⟩
          exact ⟨hcl, hmax, hwin⟩
        · rintro ⟨hcl, hmax, hwin⟩
          exact ⟨hcl, hwin, hmax⟩
  | windowUpdate flags increment =>
    refine iff_of_true (.inl ⟨?_, ?_⟩) trivial
    · exact emittedBy_idle P conf rfl
    · simp only [cipher, step, credit_v2MagicSent]
  | close =>
    obtain ⟨out, hout, hdata⟩ := tmuxStreamClose_out s.stream
    refine iff_of_true (.inl ⟨?_, ?_⟩) trivial
    · rw [emittedBy_eq P conf out (by simp [step, hout]), hdata]
    · simp only [cipher, step, tmuxStreamClose_v2MagicSent]

end Xfrpc.Control.SendMux
