import Xfrpc.Foundations.Runs
import Xfrpc.Tunnel.Client

namespace Xfrpc.Tunnel.StartWork

open Control.Receive (checkMsg)
open Client Control.Message Foundations.Runs Lifetime Mux.Header Mux.Stream Service Wire

variable (E : Env)

/-- What becomes of a message: it is no StartWorkConn, or it is turned down, or
the client takes its proxy over and serves it unless something is amiss. -/
inductive Verdict
  | other
  | refused (why : Refusal)
  | accepted (ps : ProxyService) (amiss : Option Refusal)
  deriving DecidableEq, Repr

def amiss (ps : ProxyService) (n : ℕ) : Option Refusal :=
  if ps.proxyType = .xtcp then some .unsupported
  else if ps.localPort = 0 ∧ isUdsProxy ps = false then some .badConfig
  else if localConnection E ps n = some none then some .localConnect
  else none

def startVerdict (data : Bytes) (n : ℕ) : Verdict :=
  match E.startWorkConnRespUnmarshal data with
  | none => .refused .malformed
  | some name =>
    match E.getProxyService name with
    | none => .refused .unknownProxy
    | some ps =>
      if isServiceAvailable ps (E.currentHour n) = false then .refused .unavailable
      else .accepted ps (amiss E ps n)

def isStart (buf : Bytes) : Bool :=
  (checkMsg buf).any fun m ↦ decide (m.1 = MsgType.startWorkConn.code)

/-- The verdict on a message that is handled as the `n`-th question. -/
def verdict (buf : Bytes) (n : ℕ) : Verdict :=
  match checkMsg buf with
  | none => .other
  | some (type, data) =>
    if type = MsgType.startWorkConn.code then startVerdict E data n else .other

def Verdict.notes : Verdict → List Note
  | .other => []
  | .refused why => [.refused why]
  | .accepted ps none => [.accepted ps]
  | .accepted ps (some .localConnect) =>
    [.accepted ps, .refused .localConnect, .stale .setClientWorkStart]
  | .accepted ps (some why) => [.accepted ps, .refused why]

def Verdict.removes : Verdict → Bool
  | .accepted _ (some .localConnect) => true
  | _ => false

theorem note_life (t : Conn) (n : Note) : (t.note n).life = t.life := rfl

/-- The client after `start_xfrp_tunnel`. -/
def startClient (c : ProxyClient) (ps : ProxyService) (n : ℕ) : ProxyClient :=
  if ps.localPort = 0 ∧ isUdsProxy ps = false then c
  else
    match localConnection E ps n with
    | none => initCrypto E c ps n
    | some none => (initCrypto E c ps n).openLocal none
    | some (some bev) => setupProxyCallbacks E ((initCrypto E c ps n).openLocal (some bev)) ps

/-- The client after an accepted StartWorkConn with `rest` behind it. -/
def acceptClient (c : ProxyClient) (ps : ProxyService) (rest : Bytes) (n : ℕ) : ProxyClient :=
  let c₁ := { c with ps := some ps, dataTail := if rest = [] then c.dataTail else rest }
  if ps.proxyType = .xtcp then c₁
  else if amiss E ps n = some .localConnect then startClient E c₁ ps n
  else { startClient E c₁ ps n with workStarted := true }

theorem startXfrpTunnel_spec (t : Conn) (ps : ProxyService) (n : ℕ) (hx : ps.proxyType ≠ .xtcp)
    (ha : t.life.alive = true) :
    (startXfrpTunnel E t ps n).touch .setClientWorkStart setClientWorkStart =
      { t with
        client := if amiss E ps n = some .localConnect then startClient E t.client ps n
          else { startClient E t.client ps n with workStarted := true }
        life := if amiss E ps n = some .localConnect then t.life.delete else t.life
        log := t.log ++ ((Verdict.accepted ps (amiss E ps n)).notes.drop 1) } := by
  unfold startXfrpTunnel amiss startClient
  rw [if_neg hx]
  by_cases hcfg : ps.localPort = 0 ∧ isUdsProxy ps = false
  · rw [if_pos hcfg, if_pos hcfg, if_pos hcfg, Conn.touch, note_life, if_pos ha]
    rfl
  · rw [if_neg hcfg, if_neg hcfg, if_neg hcfg]
    unfold setupLocalConnection
    rcases hl : localConnection E ps n with _ | _ | bev
    · rw [Conn.touch, if_pos ha]
      simp [setClientWorkStart, Verdict.notes]
    · rw [Conn.touch, if_neg (by simp [Conn.note, Life.delete])]
      simp [Conn.note, Verdict.notes]
    · rw [Conn.touch, if_pos ha]
      simp [setClientWorkStart, Verdict.notes]

def Verdict.client (v : Verdict) (c : ProxyClient) (rest : Bytes) (n : ℕ) : ProxyClient :=
  match v with
  | .accepted ps _ => acceptClient E c ps rest n
  | _ => c

theorem handleTypeStartWorkConn_spec (t : Conn) (data rest : Bytes) (ha : t.life.alive = true) :
    handleTypeStartWorkConn E t data rest =
      { t with
        tick := t.tick + 1
        client := (startVerdict E data t.tick).client E t.client rest t.tick
        life := if (startVerdict E data t.tick).removes then t.life.delete else t.life
        log := t.log ++ (startVerdict E data t.tick).notes } := by
  unfold handleTypeStartWorkConn startVerdict
  cases hname : E.startWorkConnRespUnmarshal data with
  | none => rfl
  | some name =>
    cases hps : E.getProxyService name with
    | none => simp only [hps]; rfl
    | some ps =>
      simp only [hps]
      by_cases hav : isServiceAvailable ps (E.currentHour t.tick) = false
      · rw [if_pos hav, if_pos hav]
        rfl
      · rw [if_neg hav, if_neg hav]
        by_cases hx : ps.proxyType = .xtcp
        · rw [if_pos hx]
          have hm : amiss E ps t.tick = some .unsupported := by rw [amiss, if_pos hx]
          simp [hm, Verdict.client, Verdict.removes, Verdict.notes, acceptClient, hx, Conn.note]
        · rw [if_neg hx, startXfrpTunnel_spec E _ ps t.tick hx (by exact ha)]
          have hrem : (Verdict.accepted ps (amiss E ps t.tick)).removes =
              decide (amiss E ps t.tick = some .localConnect) := by
            rcases hm : amiss E ps t.tick with _ | why
            · rfl
            · cases why <;> rfl
          have hnotes : (Verdict.accepted ps (amiss E ps t.tick)).notes =
              .accepted ps :: (Verdict.accepted ps (amiss E ps t.tick)).notes.drop 1 := by
            rcases hm : amiss E ps t.tick with _ | why
            · rfl
            · cases why <;> rfl
          rw [hrem, hnotes]
          simp [Verdict.client, acceptClient, hx, Conn.note]

def tailOf (buf : Bytes) : Bytes :=
  buf.drop (msgHdrSize + ((checkMsg buf).map fun m ↦ m.2.length).getD 0)

theorem handleControlWork_spec (t : Conn) (buf : Bytes) (ha : t.life.alive = true) :
    handleControlWork E t buf =
      { t with
        tick := if isStart buf then t.tick + 1 else t.tick
        client := (verdict E buf t.tick).client E t.client (tailOf buf) t.tick
        life := if (verdict E buf t.tick).removes then t.life.delete else t.life
        log := t.log ++ .controlWork buf :: (verdict E buf t.tick).notes } := by
  rcases hm : checkMsg buf with _ | ⟨type, data⟩
  · have hv : verdict E buf t.tick = .other := by simp only [verdict, hm]
    simp [handleControlWork, isStart, hm, hv, Conn.note, Verdict.removes, Verdict.notes,
      Verdict.client]
  · by_cases hs : type = MsgType.startWorkConn.code
    · have hv : verdict E buf t.tick = startVerdict E data t.tick := by
        simp only [verdict, hm, if_pos hs]
      have htail : tailOf buf = buf.drop (msgHdrSize + data.length) := by simp [tailOf, hm]
      simp only [handleControlWork, hm, if_pos hs, hv, htail]
      rw [handleTypeStartWorkConn_spec E _ _ _ (by exact ha)]
      simp [isStart, hm, hs, Conn.note]
      congr
    · have hv : verdict E buf t.tick = .other := by simp only [verdict, hm, if_neg hs]
      simp [handleControlWork, isStart, hm, hs, hv, Conn.note, Verdict.removes, Verdict.notes,
        Verdict.client]

/-- The messages in a buffer of v2 frames, read until a frame is wrong or not
complete. -/
def frameMsgs : ℕ → Bytes → List Bytes
  | 0, _ => []
  | fuel + 1, rx =>
    match V2.parseFrame rx with
    | .incomplete | .error => []
    | .frame type payload n => (frameToV1 type payload).toList ++ frameMsgs fuel (rx.drop n)

/-- The buffers that a payload makes `handle_control_work` look at. -/
def messages (s : TmuxStream) (payload : Bytes) : List Bytes :=
  if E.conf.wireV2 then
    let rx := (received s payload).v2Rx
    frameMsgs (rx.length + 1) rx
  else [payload]

def nextTick (buf : Bytes) (n : ℕ) : ℕ := if isStart buf then n + 1 else n

def verdicts : List Bytes → ℕ → List Verdict
  | [], _ => []
  | buf :: bufs, n => verdict E buf n :: verdicts bufs (nextTick buf n)

def msgNotes : List Bytes → ℕ → List Note
  | [], _ => []
  | buf :: bufs, n => .controlWork buf :: (verdict E buf n).notes ++ msgNotes bufs (nextTick buf n)

def msgClient : List Bytes → ℕ → ProxyClient → ProxyClient
  | [], _, c => c
  | buf :: bufs, n, c =>
    msgClient bufs (nextTick buf n) ((verdict E buf n).client E c (tailOf buf) n)

def msgTick : List Bytes → ℕ → ℕ
  | [], n => n
  | buf :: bufs, n => msgTick bufs (nextTick buf n)

/-- No message of the list gets the client removed. -/
def Kept (bufs : List Bytes) (n : ℕ) : Prop := ∀ v ∈ verdicts E bufs n, v.removes = false

instance (bufs : List Bytes) (n : ℕ) : Decidable (Kept E bufs n) :=
  inferInstanceAs (Decidable (∀ _ ∈ _, _))

variable {E}

def upstream (c : ProxyClient) :
    Option ProxyService × Bool × Bool × Bool × Option CryptoCtx × Bytes :=
  (c.ps, c.pendingClose, c.useEncryption, c.useCompression, c.encryptCtx, c.encPending)

def locals (c : ProxyClient) : Option LocalBev × List LocalBev × Bool :=
  (c.localProxyBev, c.orphans, c.localEnded)

/-- What an accepted StartWorkConn may do to the local connections. -/
structure Started (c c' : ProxyClient) : Prop where
  pendingClose : c'.pendingClose = c.pendingClose
  encPending : c'.encPending = c.encPending
  locals : locals c' = locals c ∨ locals c' = locals (c.openLocal none) ∨
    ∃ b, (b = .tcp [] ∨ b = .udp) ∧ locals c' = locals (c.openLocal (some b))

theorem initCrypto_eq (c : ProxyClient) (ps : ProxyService) (n : ℕ) :
    ∃ enc dec, initCrypto E c ps n =
      { c with
        useEncryption := ps.useEncryption, useCompression := ps.useCompression
        encryptCtx := enc, decryptCtx := dec } := by
  unfold initCrypto
  cases ps.useEncryption <;> cases E.conf.authToken <;> exact ⟨_, _, rfl⟩

theorem localConnection_fresh {ps : ProxyService} {n : ℕ} {b : LocalBev}
    (h : localConnection E ps n = some (some b)) : b = .tcp [] ∨ b = .udp := by
  unfold localConnection at h
  split_ifs at h
  · cases h
    exact .inr rfl
  · cases h
  · cases h
  · cases h
    exact .inl rfl
  · cases h

theorem startClient_started (c : ProxyClient) (ps : ProxyService) (n : ℕ) :
    Started c (startClient E c ps n) := by
  obtain ⟨enc, dec, hinit⟩ := initCrypto_eq (E := E) c ps n
  unfold startClient
  split_ifs
  · exact ⟨rfl, rfl, .inl rfl⟩
  · rcases hl : localConnection E ps n with _ | _ | b
    · dsimp only
      rw [hinit]
      exact ⟨rfl, rfl, .inl rfl⟩
    · dsimp only
      rw [hinit]
      exact ⟨rfl, rfl, .inr (.inl rfl)⟩
    · dsimp only
      rw [hinit]
      unfold setupProxyCallbacks
      split_ifs <;> exact ⟨rfl, rfl, .inr (.inr ⟨b, localConnection_fresh hl, rfl⟩)⟩

theorem acceptClient_started (c : ProxyClient) (ps : ProxyService) (rest : Bytes) (n : ℕ) :
    Started c (acceptClient E c ps rest n) := by
  unfold acceptClient
  dsimp only
  obtain ⟨hp, he, hl⟩ := startClient_started (E := E)
    { c with ps := some ps, dataTail := if rest = [] then c.dataTail else rest } ps n
  by_cases hx : ps.proxyType = .xtcp
  · rw [if_pos hx]
    exact ⟨rfl, rfl, .inl rfl⟩
  rw [if_neg hx]
  by_cases hm : amiss E ps n = some .localConnect
  · rw [if_pos hm]
    exact ⟨hp, he, hl⟩
  · rw [if_neg hm]
    exact ⟨hp, he, hl⟩

theorem Verdict.client_started (v : Verdict) (c : ProxyClient) (rest : Bytes) (n : ℕ) :
    Started c (v.client E c rest n) := by
  cases v with
  | other => exact ⟨rfl, rfl, .inl rfl⟩
  | refused why => exact ⟨rfl, rfl, .inl rfl⟩
  | accepted ps why => exact acceptClient_started c ps rest n

theorem locals_ended {c c' : ProxyClient} (h : locals c' = locals c) :
    c'.localEnded = c.localEnded := congrArg (fun p ↦ p.2.2) h

theorem Started.ended {c c' : ProxyClient} (h : Started c c') (he : c'.localEnded = true) :
    c.localEnded = true := by
  obtain hl | hl | ⟨b, -, hl⟩ := h.locals
  · rwa [locals_ended hl] at he
  · rw [locals_ended hl] at he
    simpa [ProxyClient.openLocal] using he
  · rw [locals_ended hl] at he
    simp [ProxyClient.openLocal] at he

theorem Kept.head {buf : Bytes} {bufs : List Bytes} {n : ℕ} (h : Kept E (buf :: bufs) n) :
    (verdict E buf n).removes = false := h _ List.mem_cons_self

theorem Kept.tail {buf : Bytes} {bufs : List Bytes} {n : ℕ} (h : Kept E (buf :: bufs) n) :
    Kept E bufs (nextTick buf n) := fun v hv ↦ h v (List.mem_cons_of_mem _ hv)

theorem handleControlWork_kept {t : Conn} {buf : Bytes} (ha : t.life.alive = true)
    (h : (verdict E buf t.tick).removes = false) :
    handleControlWork E t buf =
      { t with
        tick := nextTick buf t.tick
        client := (verdict E buf t.tick).client E t.client (tailOf buf) t.tick
        log := t.log ++ .controlWork buf :: (verdict E buf t.tick).notes } := by
  rw [handleControlWork_spec E t buf ha]
  simp [h, nextTick]

theorem v2ConsumePlainFrames_kept {fuel : ℕ} {t : Conn} (ha : t.life.alive = true)
    (h : Kept E (frameMsgs fuel t.life.stream.v2Rx) t.tick) :
    ∃ rest, v2ConsumePlainFrames E fuel t = setRx
      { t with
        tick := msgTick (frameMsgs fuel t.life.stream.v2Rx) t.tick
        client := msgClient E (frameMsgs fuel t.life.stream.v2Rx) t.tick t.client
        log := t.log ++ msgNotes E (frameMsgs fuel t.life.stream.v2Rx) t.tick } rest := by
  induction fuel generalizing t with
  | zero => exact ⟨t.life.stream.v2Rx, by simp [v2ConsumePlainFrames, frameMsgs, msgTick, msgClient,
      msgNotes, setRx, Conn.setStream]⟩
  | succ fuel ih =>
    unfold v2ConsumePlainFrames
    unfold frameMsgs at h ⊢
    cases hp : V2.parseFrame t.life.stream.v2Rx with
    | incomplete =>
      exact ⟨t.life.stream.v2Rx, by simp [msgTick, msgClient, msgNotes, setRx, Conn.setStream]⟩
    | error => exact ⟨[], by simp [msgTick, msgClient, msgNotes, setRx]⟩
    | frame type payload n =>
      rw [hp] at h
      dsimp only at h ⊢
      cases hf : frameToV1 type payload with
      | none =>
        rw [hf] at h
        rw [Conn.touch, if_pos ha]
        obtain ⟨rest, hrest⟩ := ih (t := setRx t (t.life.stream.v2Rx.drop n)) ha h
        exact ⟨rest, hrest⟩
      | some v1 =>
        rw [hf] at h
        dsimp only
        rw [handleControlWork_kept ha h.head, Conn.touch, if_pos ha]
        obtain ⟨rest, hrest⟩ := ih (t := setRx
          { t with
            tick := nextTick v1 t.tick
            client := (verdict E v1 t.tick).client E t.client (tailOf v1) t.tick
            log := t.log ++ .controlWork v1 :: (verdict E v1 t.tick).notes }
          (t.life.stream.v2Rx.drop n)) ha h.tail
        refine ⟨rest, hrest.trans ?_⟩
        simp [setRx, Conn.setStream, msgTick, msgClient, msgNotes]

theorem v2ConsumePlainFrames_removed {fuel : ℕ} {t : Conn} (ha : t.life.alive = true)
    (h : ¬ Kept E (frameMsgs fuel t.life.stream.v2Rx) t.tick) :
    (∃ rx, (v2ConsumePlainFrames E fuel t).life =
      { t.life with alive := false, stream := { t.life.stream with v2Rx := rx } }) ∧
      ((v2ConsumePlainFrames E fuel t).client.localEnded = true → t.client.localEnded = true) ∧
      .stale .v2Rx ∈ (v2ConsumePlainFrames E fuel t).log := by
  induction fuel generalizing t with
  | zero => exact absurd (fun _ hv ↦ by cases hv) h
  | succ fuel ih =>
    unfold v2ConsumePlainFrames
    unfold frameMsgs at h
    cases hp : V2.parseFrame t.life.stream.v2Rx with
    | incomplete => exact absurd (fun _ hv ↦ by rw [hp] at hv; cases hv) h
    | error => exact absurd (fun _ hv ↦ by rw [hp] at hv; cases hv) h
    | frame type payload n =>
      rw [hp] at h
      dsimp only at h ⊢
      cases hf : frameToV1 type payload with
      | none =>
        rw [hf] at h
        rw [Conn.touch, if_pos ha]
        exact ih (t := setRx t (t.life.stream.v2Rx.drop n)) ha h
      | some v1 =>
        rw [hf] at h
        dsimp only
        have hs := (verdict E v1 t.tick).client_started (E := E) t.client (tailOf v1) t.tick
        by_cases hr : (verdict E v1 t.tick).removes = true
        · have hdead : (handleControlWork E t v1).life = t.life.delete := by
            rw [handleControlWork_spec E t v1 ha]
            exact if_pos hr
          rw [Conn.touch, if_neg (by simp [hdead, Life.delete])]
          refine ⟨⟨t.life.stream.v2Rx, hdead⟩, fun he ↦ hs.ended ?_, by simp [Conn.note]⟩
          have he' : (handleControlWork E t v1).client.localEnded = true := he
          rwa [handleControlWork_spec E t v1 ha] at he'
        · have hr' : (verdict E v1 t.tick).removes = false := by simpa using hr
          rw [handleControlWork_kept ha hr', Conn.touch, if_pos ha]
          have hmore := ih (t := setRx
            { t with
              tick := nextTick v1 t.tick
              client := (verdict E v1 t.tick).client E t.client (tailOf v1) t.tick
              log := t.log ++ .controlWork v1 :: (verdict E v1 t.tick).notes }
            (t.life.stream.v2Rx.drop n)) ha fun hk ↦ h ?_
          · exact ⟨hmore.1, fun he ↦ hs.ended (hmore.2.1 he), hmore.2.2⟩
          · intro v hv
            rcases List.mem_cons.mp hv with rfl | hv
            · exact hr'
            · exact hk v hv

theorem received_eq (s : TmuxStream) (payload : Bytes) :
    ∃ seen rx, received s payload = { s with v2MagicSeen := seen, v2Rx := rx } := by
  unfold received
  split_ifs
  · exact ⟨_, _, rfl⟩
  · exact ⟨_, _, rfl⟩

theorem handleFrpsMsg_kept {t : Conn} {payload : Bytes} (ha : t.life.alive = true)
    (hne : payload ≠ []) (h : Kept E (messages E t.life.stream payload) t.tick) :
    ∃ seen rx, handleFrpsMsg E t payload =
      { t with
        tick := msgTick (messages E t.life.stream payload) t.tick
        client := msgClient E (messages E t.life.stream payload) t.tick t.client
        life := { t.life with stream := { t.life.stream with v2MagicSeen := seen, v2Rx := rx } }
        log := t.log ++ .frpsMsg payload :: msgNotes E (messages E t.life.stream payload) t.tick } := by
  unfold handleFrpsMsg
  unfold messages at h ⊢
  rw [if_neg hne]
  by_cases hv : E.conf.wireV2 = true
  · rw [if_pos hv] at h ⊢
    rw [if_pos hv]
    unfold v2HandleBytes
    obtain ⟨rest, hrest⟩ := v2ConsumePlainFrames_kept
      (t := (t.note (.frpsMsg payload)).setStream (received t.life.stream payload)) ha h
    obtain ⟨seen, rx, hrx⟩ := received_eq t.life.stream payload
    refine ⟨seen, rest, hrest.trans ?_⟩
    simp [setRx, Conn.setStream, Conn.note, hrx]
  · rw [if_neg hv] at h ⊢
    rw [if_neg hv, handleControlWork_kept (t := t.note (.frpsMsg payload)) ha h.head]
    exact ⟨_, _, by simp [Conn.note, msgTick, msgClient, msgNotes]; rfl⟩

theorem handleFrpsMsg_removed {t : Conn} {payload : Bytes} (ha : t.life.alive = true)
    (hne : payload ≠ []) (h : ¬ Kept E (messages E t.life.stream payload) t.tick) :
    (∃ seen rx, (handleFrpsMsg E t payload).life =
      { t.life with
        alive := false, stream := { t.life.stream with v2MagicSeen := seen, v2Rx := rx } }) ∧
      ((handleFrpsMsg E t payload).client.localEnded = true → t.client.localEnded = true) ∧
      ∃ site, .stale site ∈ (handleFrpsMsg E t payload).log := by
  unfold handleFrpsMsg
  unfold messages at h
  rw [if_neg hne]
  by_cases hv : E.conf.wireV2 = true
  · rw [if_pos hv] at h ⊢
    unfold v2HandleBytes
    obtain ⟨⟨rest, hrest⟩, hended, hlog⟩ := v2ConsumePlainFrames_removed
      (t := (t.note (.frpsMsg payload)).setStream (received t.life.stream payload)) ha h
    obtain ⟨seen, rx, hrx⟩ := received_eq t.life.stream payload
    refine ⟨⟨seen, rest, hrest.trans ?_⟩, hended, _, hlog⟩
    simp [Conn.setStream, Conn.note, hrx]
  · rw [if_neg hv] at h ⊢
    have hr : (verdict E payload t.tick).removes = true := by
      refine Bool.not_eq_false _ ▸ fun hr ↦ h ?_
      intro v hm
      rcases List.mem_cons.mp hm with rfl | hm
      · exact hr
      · cases hm
    rw [handleControlWork_spec E _ _ (by exact ha)]
    refine ⟨⟨t.life.stream.v2MagicSeen, t.life.stream.v2Rx, if_pos hr⟩, ?_, .setClientWorkStart, ?_⟩
    · exact ((verdict E payload t.tick).client_started t.client (tailOf payload) t.tick).ended
    obtain ⟨ps, hps⟩ : ∃ ps, verdict E payload t.tick = .accepted ps (some .localConnect) := by
      cases hverd : verdict E payload t.tick with
      | other => rw [hverd] at hr; cases hr
      | refused why => rw [hverd] at hr; cases hr
      | accepted ps why =>
        rw [hverd] at hr
        rcases why with _ | why
        · cases hr
        · cases why <;> first | exact ⟨ps, rfl⟩ | cases hr
    have hps' : verdict E payload (t.note (.frpsMsg payload)).tick =
        .accepted ps (some .localConnect) := hps
    simp [hps', Verdict.notes]

end Xfrpc.Tunnel.StartWork
