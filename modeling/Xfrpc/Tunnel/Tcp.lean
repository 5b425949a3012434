import Xfrpc.Tunnel.Closing

namespace Xfrpc.Tunnel.Tcp

open Client Closing Control.Message Lifetime Mux.Header Mux.Stream Service StartWork
  Wire

variable {E : Env}

/-- A proxy whose bytes pass between the server and a local TCP service without
being looked at. -/
def isTcp (ps : ProxyService) : Bool := !isUdpProxy ps && !isSocks5Proxy ps && !hasServiceType ps

def keyed (E : Env) (ps : ProxyService) : Bool := !ps.useEncryption || E.conf.authToken.isSome

def tunnelKey (E : Env) : Bytes := cryptoDeriveKey E.prims (E.conf.authToken.getD [])

def begun (c : ProxyClient) : Bool := c.localProxyBev.isSome || c.localEnded

/-- At most one of the proxies that are accepted is served, the last, and it is a
TCP one whose keys are there. -/
def opensOnce (E : Env) : Bool → List Verdict → Bool
  | _, [] => true
  | b, .accepted ps why :: vs =>
    !b && isTcp ps && keyed E ps && (decide (why = some .localConnect) || opensOnce E why.isNone vs)
  | b, .other :: vs | b, .refused _ :: vs => opensOnce E b vs

/-- The StartWorkConn that opens a tunnel: its proxy, what follows it in its
buffer, and the number it is handled as. -/
def opening (E : Env) : List Bytes → ℕ → Option (ProxyService × Bytes × ℕ)
  | [], _ => none
  | buf :: bufs, n =>
    match verdict E buf n with
    | .accepted ps none => some (ps, tailOf buf, n)
    | _ => opening E bufs (nextTick buf n)

/-- A client that has not been given a local connection yet. -/
structure Fresh (c : ProxyClient) : Prop where
  bev : c.localProxyBev = none
  orphans : c.orphans = []
  ended : c.localEnded = false
  pendingClose : c.pendingClose = false
  encPending : c.encPending = []
  tcp : ∀ ps, c.ps = some ps → isTcp ps = true

theorem new_fresh : Fresh .new := ⟨rfl, rfl, rfl, rfl, rfl, nofun⟩

/-- A client whose tunnel for `ps` has just been opened, by the message handled as
the `n`-th. -/
structure Opened (E : Env) (ps : ProxyService) (n : ℕ) (c : ProxyClient) : Prop where
  served : c.ps = some ps
  bev : c.localProxyBev = some (.tcp [])
  orphans : c.orphans = []
  ended : c.localEnded = false
  pendingClose : c.pendingClose = false
  encPending : c.encPending = []
  useEncryption : c.useEncryption = ps.useEncryption
  useCompression : c.useCompression = ps.useCompression
  workCb : E.conf.tcpMux = false → c.workCb = .tcp
  coders : ps.useEncryption = true → ∀ token, E.conf.authToken = some token →
    c.encryptCtx =
      some (cryptoCtxNewWriter (cryptoDeriveKey E.prims token) (E.prims.randBytes n)) ∧
    c.decryptCtx = some (cryptoCtxNewReader (cryptoDeriveKey E.prims token))

theorem isTcp_iff {ps : ProxyService} : isTcp ps = true ↔
    isUdpProxy (some ps) = false ∧ isSocks5Proxy (some ps) = false ∧
      hasServiceType (some ps) = false := by
  simp [isTcp, and_assoc]

theorem localConnection_tcp {ps : ProxyService} {n : ℕ} (h : isTcp ps = true) :
    localConnection E ps n = some none ∨ localConnection E ps n = some (some (.tcp [])) := by
  obtain ⟨hu, h5, hs⟩ := isTcp_iff.mp h
  unfold localConnection
  simp only [hu, h5, hs]
  cases isUdsProxy (some ps) <;> cases E.connectServer n <;> simp

theorem localConnection_served {ps : ProxyService} {n : ℕ} (h : isTcp ps = true)
    (hm : amiss E ps n = none) :
    ps.proxyType ≠ .xtcp ∧ ¬ (ps.localPort = 0 ∧ isUdsProxy ps = false) ∧
      localConnection E ps n = some (some (.tcp [])) := by
  unfold amiss at hm
  split_ifs at hm with hx hcfg hl
  refine ⟨hx, hcfg, ?_⟩
  rcases localConnection_tcp (E := E) (n := n) h with hno | hyes
  · exact absurd hno hl
  · exact hyes

theorem initCrypto_coders (c : ProxyClient) (ps : ProxyService) (n : ℕ) {token : Bytes}
    (he : ps.useEncryption = true) (ht : E.conf.authToken = some token) :
    (initCrypto E c ps n).encryptCtx =
        some (cryptoCtxNewWriter (cryptoDeriveKey E.prims token) (E.prims.randBytes n)) ∧
      (initCrypto E c ps n).decryptCtx =
        some (cryptoCtxNewReader (cryptoDeriveKey E.prims token)) := by
  unfold initCrypto
  rw [he, ht]
  exact ⟨rfl, rfl⟩

theorem acceptClient_opened {c : ProxyClient} (hc : Fresh c) {ps : ProxyService} {n : ℕ}
    (hps : isTcp ps = true) (hm : amiss E ps n = none) (rest : Bytes) :
    Opened E ps n (acceptClient E c ps rest n) := by
  obtain ⟨hx, hcfg, hl⟩ := localConnection_served hps hm
  have hcoders := fun he token (ht : E.conf.authToken = some token) ↦ initCrypto_coders
    { c with ps := some ps, dataTail := if rest = [] then c.dataTail else rest } ps n he ht
  unfold acceptClient startClient
  dsimp only
  rw [if_neg hx, if_neg (by rw [hm]; simp), if_neg hcfg, hl]
  obtain ⟨enc, dec, hinit⟩ := initCrypto_eq (E := E)
    { c with ps := some ps, dataTail := if rest = [] then c.dataTail else rest } ps n
  rw [hinit] at hcoders ⊢
  have hudp : isUdpProxy (some ps) = false := (isTcp_iff.mp hps).1
  unfold setupProxyCallbacks
  by_cases hmux : E.conf.tcpMux = true
  · simp only [if_pos hmux]
    refine ⟨rfl, rfl, ?_, ?_, hc.pendingClose, hc.encPending, rfl, rfl, ?_, hcoders⟩
    · simp [ProxyClient.openLocal, hc.orphans, hc.bev]
    · simp [ProxyClient.openLocal]
    · rw [hmux]
      exact fun hf ↦ Bool.noConfusion hf
  · simp only [if_neg hmux]
    refine ⟨rfl, rfl, ?_, ?_, hc.pendingClose, hc.encPending, rfl, rfl, fun _ ↦ ?_, hcoders⟩
    · simp [ProxyClient.openLocal, hc.orphans, hc.bev]
    · simp [ProxyClient.openLocal]
    · simp [hudp]

theorem acceptClient_unserved {c : ProxyClient} (hc : Fresh c) {ps : ProxyService} {n : ℕ}
    {why : Refusal} (hps : isTcp ps = true) (hm : amiss E ps n = some why)
    (hwhy : why ≠ .localConnect) (rest : Bytes) :
    Fresh (acceptClient E c ps rest n) ∧ (acceptClient E c ps rest n).workCb = c.workCb := by
  have htcp : ∀ ps', (some ps : Option ProxyService) = some ps' → isTcp ps' = true := by
    rintro ps' ⟨⟩
    exact hps
  have hloc : amiss E ps n ≠ some .localConnect := by
    rw [hm]
    simpa using hwhy
  unfold acceptClient
  dsimp only
  by_cases hx : ps.proxyType = .xtcp
  · rw [if_pos hx]
    exact ⟨⟨hc.bev, hc.orphans, hc.ended, hc.pendingClose, hc.encPending, htcp⟩, rfl⟩
  · have hcfg : ps.localPort = 0 ∧ isUdsProxy ps = false := by
      by_contra hcfg
      unfold amiss at hm hloc
      rw [if_neg hx, if_neg hcfg] at hm hloc
      split_ifs at hm hloc
      exact hloc rfl
    rw [if_neg hx, if_neg hloc, startClient, if_pos hcfg]
    exact ⟨⟨hc.bev, hc.orphans, hc.ended, hc.pendingClose, hc.encPending, htcp⟩, rfl⟩

theorem verdict_amiss {buf : Bytes} {n : ℕ} {ps : ProxyService} {why : Option Refusal}
    (h : verdict E buf n = .accepted ps why) : why = amiss E ps n := by
  unfold verdict startVerdict at h
  split at h
  · cases h
  · split_ifs at h
    split at h
    · cases h
    · split at h
      · cases h
      · split_ifs at h
        cases h
        rfl

theorem msgClient_begun {bufs : List Bytes} {n : ℕ} {c : ProxyClient}
    (h : opensOnce E true (verdicts E bufs n) = true) : msgClient E bufs n c = c := by
  induction bufs generalizing n with
  | nil => rfl
  | cons buf bufs ih =>
    unfold msgClient
    unfold verdicts at h
    cases hv : verdict E buf n with
    | other =>
      rw [hv] at h
      exact ih h
    | refused why =>
      rw [hv] at h
      exact ih h
    | accepted ps why =>
      rw [hv] at h
      simp [opensOnce] at h

theorem kept_begun {bufs : List Bytes} {n : ℕ}
    (h : opensOnce E true (verdicts E bufs n) = true) : Kept E bufs n := by
  induction bufs generalizing n with
  | nil => exact List.forall_mem_nil _
  | cons buf bufs ih =>
    unfold verdicts at h
    intro v hv
    rcases List.mem_cons.mp hv with rfl | hv
    · cases hver : verdict E buf n with
      | other => rfl
      | refused why => rfl
      | accepted ps why =>
        rw [hver] at h
        simp [opensOnce] at h
    · refine ih ?_ v hv
      cases hver : verdict E buf n with
      | other =>
        rw [hver] at h
        exact h
      | refused why =>
        rw [hver] at h
        exact h
      | accepted ps why =>
        rw [hver] at h
        simp [opensOnce] at h

theorem msgClient_fresh {bufs : List Bytes} {n : ℕ} {c : ProxyClient} (hc : Fresh c)
    (h : opensOnce E false (verdicts E bufs n) = true) (hk : Kept E bufs n) :
    (opening E bufs n = none ∧ Fresh (msgClient E bufs n c) ∧
      (msgClient E bufs n c).workCb = c.workCb) ∨
    ∃ ps rest k, opening E bufs n = some (ps, rest, k) ∧ isTcp ps = true ∧ keyed E ps = true ∧
      Opened E ps k (msgClient E bufs n c) := by
  induction bufs generalizing n c with
  | nil => exact .inl ⟨rfl, hc, rfl⟩
  | cons buf bufs ih =>
    have hr := hk.head
    unfold opening msgClient
    unfold verdicts at h
    cases hv : verdict E buf n with
    | other =>
      rw [hv] at h
      exact ih hc h hk.tail
    | refused why =>
      rw [hv] at h
      exact ih hc h hk.tail
    | accepted ps why =>
      rw [hv] at h hr
      have hm := verdict_amiss hv
      simp only [opensOnce, Bool.not_false, Bool.true_and, Bool.and_eq_true, Bool.or_eq_true,
        decide_eq_true_eq] at h
      obtain ⟨⟨hps, hkey⟩, hnext⟩ := h
      cases why with
      | none =>
        have hbegun : opensOnce E true (verdicts E bufs (nextTick buf n)) = true := by
          simpa using hnext
        refine .inr ⟨ps, tailOf buf, n, rfl, hps, hkey, ?_⟩
        rw [msgClient_begun hbegun]
        exact acceptClient_opened hc hps hm.symm (tailOf buf)
      | some why =>
        have hwhy : why ≠ .localConnect := by
          rintro rfl
          cases hr
        have hmore : opensOnce E false (verdicts E bufs (nextTick buf n)) = true := by
          simpa [hwhy] using hnext
        obtain ⟨hfresh, hcb⟩ := acceptClient_unserved hc hps hm.symm hwhy (tailOf buf)
        rw [← hcb]
        exact ih hfresh hmore hk.tail

/-- What frames of the server do to a stream: apart from its windows and its state
they may make it send updates. -/
structure Idle (l l' : Life) : Prop where
  out : ∃ frames, l'.out = l.out ++ frames ∧ ∀ f ∈ frames, PlainUpdate f
  opened : l'.stream.state ≠ .init
  writeClosed : l'.alive = true →
    l.alive = true ∧ l'.stream.state.writeClosed = l.stream.state.writeClosed

theorem Idle.of_out {l l' : Life} (hout : l'.out = l.out) (hst : l'.stream.state ≠ .init)
    (hwc : l'.alive = true →
      l.alive = true ∧ l'.stream.state.writeClosed = l.stream.state.writeClosed) : Idle l l' :=
  ⟨⟨[], hout.trans (List.append_nil _).symm, List.forall_mem_nil _⟩, hst, hwc⟩

theorem Idle.refl {l : Life} (h : l.stream.state ≠ .init) : Idle l l :=
  .of_out rfl h fun ha ↦ ⟨ha, rfl⟩

theorem Idle.trans {l₁ l₂ l₃ : Life} (h₁ : Idle l₁ l₂) (h₂ : Idle l₂ l₃) : Idle l₁ l₃ := by
  obtain ⟨fs, ho₁, hf₁⟩ := h₁.out
  obtain ⟨gs, ho₂, hf₂⟩ := h₂.out
  refine ⟨⟨fs ++ gs, by rw [ho₂, ho₁, List.append_assoc], ?_⟩, h₂.opened, fun ha ↦ ?_⟩
  · intro f hf
    rcases List.mem_append.mp hf with hf | hf
    · exact hf₁ f hf
    · exact hf₂ f hf
  · obtain ⟨ha₂, hw₂⟩ := h₂.writeClosed ha
    obtain ⟨ha₁, hw₁⟩ := h₁.writeClosed ha₂
    exact ⟨ha₁, hw₂.trans hw₁⟩

theorem settle_idle {l : Life} (h : l.stream.state ≠ .init) (n : ℕ) : Idle l (l.settle n) := by
  obtain ⟨st, w, frames, hl, hne, hwc, -, -, hupd⟩ := settle_cases h n
  rw [hl]
  exact ⟨⟨frames, rfl, hupd⟩, hne, fun ha ↦ ⟨ha, hwc⟩⟩

theorem freed_idle {l : Life} (h : l.stream.state ≠ .init) {flags : ℕ} {st : TcpMuxState}
    (hp : processFlags flags l.stream = .freed { l.stream with state := st }) :
    Idle l (l.freed flags { l.stream with state := st }) :=
  .of_out rfl (ne_init_of_writeClosed (processFlags_freed_state hp h).1)
    fun ha ↦ absurd ha Bool.false_ne_true

def admits (t : Conn) (flags : ℕ) (payload : Bytes) : Bool :=
  t.life.alive && decide (payload ≠ []) && decide (payload.length ≤ maxStreamWindowSize) &&
    !flagsRefused flags t.life.stream && !flagsFree flags t.life.stream &&
    decide (payload.length ≤ t.life.stream.recvWindow.toNat) && decide (t.owner = .client)

theorem reachesHandler_eq (t : Conn) (flags : ℕ) (payload : Bytes) :
    reachesHandler t flags payload = (admits t flags payload && takesMessages t.client) := rfl

def delivered (E : Env) (c : ProxyClient) (payload : Bytes) : ProxyClient :=
  if c.useEncryption || c.useCompression then
    (proxyCryptoDecodeEvbuffer E c payload).1.queue (proxyCryptoDecodeEvbuffer E c payload).2.1
  else c.queue payload

theorem takesMessages_tcp {c : ProxyClient} (h : ∀ ps, c.ps = some ps → isTcp ps = true) :
    takesMessages c = c.localProxyBev.isNone := by
  unfold takesMessages defaultPath
  cases hps : c.ps with
  | none => simp [isUdpProxy, isSocks5Proxy, hasServiceType]
  | some ps =>
    obtain ⟨hu, h5, hs⟩ := isTcp_iff.mp (h ps hps)
    simp [hu, h5, hs]

theorem dispatchClient_delivered {t : Conn} {ps : ProxyService} (hps : t.client.ps = some ps)
    (htcp : isTcp ps = true) (hb : t.client.localProxyBev.isNone = false) (payload : Bytes) :
    (dispatchClient E t payload).1 = { t with client := delivered E t.client payload } := by
  obtain ⟨hu, h5, hs⟩ := isTcp_iff.mp htcp
  unfold dispatchClient delivered defaultPath
  dsimp only
  rw [if_neg (by simp [hb]), hps]
  simp only [hu, h5, hs]
  simp only [Bool.false_eq_true, if_false]
  split_ifs
  · rfl
  · rfl

theorem handleControlWork_owner {t : Conn} (ha : t.life.alive = true) (buf : Bytes) :
    (handleControlWork E t buf).owner = t.owner := by
  rw [handleControlWork_spec E t buf ha]

theorem v2ConsumePlainFrames_owner {fuel : ℕ} {t : Conn} (ha : t.life.alive = true) :
    (v2ConsumePlainFrames E fuel t).owner = t.owner := by
  induction fuel generalizing t with
  | zero => rfl
  | succ fuel ih =>
    unfold v2ConsumePlainFrames
    cases V2.parseFrame t.life.stream.v2Rx with
    | incomplete => rfl
    | error => rfl
    | frame type payload n =>
      dsimp only
      cases frameToV1 type payload with
      | none =>
        simp only [Conn.touch, ha, if_true]
        exact ih ha
      | some v1 =>
        unfold Conn.touch
        dsimp only
        split_ifs with halive
        · have hrest := ih (t := setRx (handleControlWork E t v1)
            ((handleControlWork E t v1).life.stream.v2Rx.drop n)) halive
          exact hrest.trans (handleControlWork_owner ha v1)
        · exact handleControlWork_owner ha v1

theorem handleFrpsMsg_owner {t : Conn} (ha : t.life.alive = true) (payload : Bytes) :
    (handleFrpsMsg E t payload).owner = t.owner := by
  unfold handleFrpsMsg v2HandleBytes
  dsimp only
  split_ifs
  · rfl
  · exact v2ConsumePlainFrames_owner (t := (t.note (.frpsMsg payload)).setStream _) ha
  · exact handleControlWork_owner (t := t.note (.frpsMsg payload)) ha payload

/-- A payload read as messages and then charged to the window: either every message keeps the
client, which then has taken them all, or one of them removed it. -/
theorem handleFrpsMsg_settled {t : Conn} (ha : t.life.alive = true) (ho : t.owner = .client)
    (h : t.life.stream.state ≠ .init) {payload : Bytes} (hne : payload ≠ []) :
    let t' := (handleFrpsMsg E t payload).touch Site.settle (·.settle payload.length)
    t'.owner = .client ∧ Idle t.life t'.life ∧
      ((Kept E (messages E t.life.stream payload) t.tick ∧
        t'.client = msgClient E (messages E t.life.stream payload) t.tick t.client) ∨
      (¬ Kept E (messages E t.life.stream payload) t.tick ∧ t'.life.alive = false)) := by
  by_cases hk : Kept E (messages E t.life.stream payload) t.tick
  · obtain ⟨seen, rx, hmsg⟩ := handleFrpsMsg_kept (E := E) ha hne hk
    rw [hmsg]
    simp only [Conn.touch, ha, if_true]
    refine ⟨ho, .trans ?_ (settle_idle ?_ payload.length), .inl ⟨hk, rfl⟩⟩
    · exact .of_out rfl h fun _ ↦ ⟨ha, rfl⟩
    · exact h
  · obtain ⟨⟨seen, rx, hdead⟩, -⟩ := handleFrpsMsg_removed (E := E) ha hne hk
    have hgone : (handleFrpsMsg E t payload).life.alive = false := by rw [hdead]
    have hidle : Idle t.life (handleFrpsMsg E t payload).life := by
      rw [hdead]
      exact .of_out rfl h fun ha ↦ absurd ha Bool.false_ne_true
    simp only [Conn.touch, hgone]
    exact ⟨(handleFrpsMsg_owner (E := E) ha payload).trans ho, hidle, .inr ⟨hk, hgone⟩⟩

theorem step_data_cases {t : Conn} (h : t.life.stream.state ≠ .init) (ho : t.owner = .client)
    (htcp : ∀ ps, t.client.ps = some ps → isTcp ps = true)
    (hserved : t.client.localProxyBev.isNone = false → t.client.ps.isSome = true)
    (flags : ℕ) (payload : Bytes) (replies : List Bytes) :
    let t' := step E t (.data flags payload replies)
    t'.owner = .client ∧ Idle t.life t'.life ∧
      ((admits t flags payload = false ∧ t'.client = t.client) ∨
      (admits t flags payload = true ∧ t.client.localProxyBev.isNone = false ∧
        t'.client = delivered E t.client payload) ∨
      (reachesHandler t flags payload = true ∧
        Kept E (messages E t.life.stream payload) t.tick ∧
        t'.client = msgClient E (messages E t.life.stream payload) t.tick t.client) ∨
      (reachesHandler t flags payload = true ∧
        ¬ Kept E (messages E t.life.stream payload) t.tick ∧ t'.life.alive = false)) := by
  simp only [step]
  by_cases hd : t.life.alive = true ∧ payload ≠ [] ∧ payload.length ≤ maxStreamWindowSize
  swap
  · rw [if_neg hd]
    refine ⟨ho, .refl h, .inl ⟨?_, rfl⟩⟩
    by_contra hadm
    simp only [admits, Bool.not_eq_false, Bool.and_eq_true, decide_eq_true_eq] at hadm
    exact hd ⟨hadm.1.1.1.1.1.1, hadm.1.1.1.1.1.2, hadm.1.1.1.1.2⟩
  rw [if_pos hd]
  obtain ⟨ha, hne, hmax⟩ := hd
  obtain ⟨hr, hp⟩ | ⟨-, hf, st, hpf, hp⟩ | ⟨hr, hf, st, hpf, ⟨hw, hp⟩ | ⟨hw, t₁, ht₁, hp⟩⟩ :=
    processData_cases (E := E) t flags payload replies
  · rw [hp]
    exact ⟨ho, .refl h, .inl ⟨by simp [admits, hr], rfl⟩⟩
  · rw [hp]
    exact ⟨ho, freed_idle h hpf, .inl ⟨by simp [admits, hf], rfl⟩⟩
  · obtain ⟨hst, hwc, -⟩ := processFlags_kept_state hpf
    rw [hp]
    exact ⟨ho, .of_out rfl (hst h) fun ha ↦ ⟨ha, hwc⟩,
      .inl ⟨by simp [admits, Nat.not_le.mpr hw], rfl⟩⟩
  obtain ⟨hst, hwc, -⟩ := processFlags_kept_state hpf
  have hadm : admits t flags payload = true := by simp [admits, ha, hne, hmax, hr, hf, hw, ho]
  have hlife : Idle t.life t₁.life := by
    rw [ht₁]
    exact .of_out rfl (hst h) fun ha ↦ ⟨ha, hwc⟩
  have hclient : t₁.client = t.client := by rw [ht₁]; rfl
  have ho₁ : t₁.owner = .client := by rw [ht₁]; exact ho
  have ha₁ : t₁.life.alive = true := by rw [ht₁]; exact ha
  have hdisp : dispatch E t₁ payload replies = dispatchClient E t₁ payload := by
    rw [dispatch, ho₁]
  rw [hp, hdisp]
  cases hbev : t.client.localProxyBev.isNone with
  | false =>
    obtain ⟨ps, hps⟩ := Option.isSome_iff_exists.mp (hserved hbev)
    rw [dispatchClient_delivered (hclient ▸ hps) (htcp ps hps) (hclient ▸ hbev)]
    simp only [Conn.touch, ha₁, if_true]
    exact ⟨ho₁, hlife.trans (settle_idle hlife.opened payload.length),
      .inr (.inl ⟨hadm, trivial, by rw [← hclient]; rfl⟩)⟩
  | true =>
    have htakes : takesMessages t.client = true := (takesMessages_tcp htcp).trans hbev
    have hreach : reachesHandler t flags payload = true := by
      rw [reachesHandler_eq, hadm, htakes]
      rfl
    have hmsgs : messages E t₁.life.stream payload = messages E t.life.stream payload := by
      rw [ht₁]
      exact messages_admitted _ _ _ _
    have htick : t₁.tick = t.tick := by rw [ht₁]; rfl
    rw [dispatchClient_messages (hclient ▸ htakes)]
    obtain ⟨howner, hidle, hmsg⟩ := handleFrpsMsg_settled (E := E) ha₁ ho₁ hlife.opened hne
    rw [hmsgs, htick, hclient] at hmsg
    obtain ⟨hk, hc⟩ | ⟨hk, hgone⟩ := hmsg
    · exact ⟨howner, hlife.trans hidle, .inr (.inr (.inl ⟨hreach, hk, hc⟩))⟩
    · exact ⟨howner, hlife.trans hidle, .inr (.inr (.inr ⟨hreach, hk, hgone⟩))⟩

def wake (c : ProxyClient) : ProxyClient :=
  { c with localProxyBev := c.localProxyBev.map fun b ↦ { b with evRead := true } }

theorem step_windowUpdate_cases {t : Conn} (h : t.life.stream.state ≠ .init) (flags increment : ℕ) :
    let t' := step E t (.windowUpdate flags increment)
    t'.owner = t.owner ∧
      ((Idle t.life t'.life ∧ (t'.client = t.client ∨ t'.client = wake t.client)) ∨
      (t.client.pendingClose = true ∧ t'.client = t.client ∧
        ∃ l : Life, t'.life = l.close ∧ Idle t.life l)) := by
  simp only [step]
  by_cases hd : t.life.alive = true ∧ hasFlag flags .syn = false
  swap
  · rw [if_neg hd]
    exact ⟨rfl, .inl ⟨.refl h, .inl rfl⟩⟩
  rw [if_pos hd]
  unfold incrSendWindow creditSendWindow
  obtain ⟨-, hpf⟩ | ⟨-, -, st, hpf⟩ | ⟨-, -, st, hpf⟩ := processFlags_outcome flags t.life.stream
  · rw [hpf]
    exact ⟨rfl, .inl ⟨.refl h, .inl rfl⟩⟩
  · rw [hpf]
    exact ⟨rfl, .inl ⟨freed_idle h hpf, .inl rfl⟩⟩
  · obtain ⟨hst, hwc, -⟩ := processFlags_kept_state hpf
    rw [hpf]
    have hidle : ∀ w, Idle t.life
        { t.life with stream := { t.life.stream with state := st, sendWindow := w } } := by
      intro w
      exact .of_out rfl (hst h) fun ha ↦ ⟨ha, hwc⟩
    by_cases hinc : maxStreamWindowSize < increment
    · simp only [gt_iff_lt, if_pos hinc]
      exact ⟨rfl, .inl ⟨hidle _, .inl rfl⟩⟩
    simp only [gt_iff_lt, if_neg hinc]
    split_ifs with hz hpend hold
    · exact ⟨rfl, .inl ⟨hidle _, .inl rfl⟩⟩
    · exact ⟨rfl, .inr ⟨hpend, rfl, _, rfl, hidle _⟩⟩
    · exact ⟨rfl, .inl ⟨hidle _, .inr rfl⟩⟩
    · exact ⟨rfl, .inl ⟨hidle _, .inl rfl⟩⟩

theorem plainUpdate_dataBytes {frames : List Frame} (h : ∀ f ∈ frames, PlainUpdate f) :
    dataBytes frames = [] := by
  have hnone : frames.filter Frame.isData = [] :=
    List.filter_eq_nil_iff.mpr fun f hf ↦ by simp [(h f hf).data]
  simp [dataBytes, hnone]

theorem Idle.dataBytes {l l' : Life} (h : Idle l l') :
    Mux.Header.dataBytes l'.out = Mux.Header.dataBytes l.out := by
  obtain ⟨frames, ho, hf⟩ := h.out
  rw [ho, dataBytes_append, plainUpdate_dataBytes hf, List.append_nil]

theorem Idle.closes {l l' : Life} (h : Idle l l') {f : Frame} (hf : f ∈ l'.out)
    (hc : Lifetime.closes f = true) : f ∈ l.out := by
  obtain ⟨frames, ho, hupd⟩ := h.out
  rw [ho] at hf
  rcases List.mem_append.mp hf with hf | hf
  · exact hf
  · rw [(hupd f hf).not_closes] at hc
    cases hc

theorem close_dataBytes (l : Life) : Mux.Header.dataBytes l.close.out = Mux.Header.dataBytes l.out := by
  obtain ⟨-, hl⟩ | ⟨st, -, -, -, hl⟩ := close_cases l
  · rw [hl]
  · rw [hl, dataBytes_append]
    simp [Mux.Header.dataBytes, Frame.isData, tcpMuxSendWinUpdate, tcpMuxEncode]

theorem sendClientDataTail_queue (c : ProxyClient) :
    ∃ ctx tail out, sendClientDataTail E c =
      ({ c with decryptCtx := ctx, dataTail := tail } : ProxyClient).queue out := by
  unfold sendClientDataTail
  obtain ⟨ctx, hdec⟩ := decode_eq (E := E) c c.dataTail
  split_ifs
  · exact ⟨c.decryptCtx, c.dataTail, [], (queue_nil c).symm⟩
  · dsimp only
    rw [hdec]
    exact ⟨ctx, [], (proxyCryptoDecodeEvbuffer E c c.dataTail).2.1, rfl⟩
  · exact ⟨c.decryptCtx, [], c.dataTail, rfl⟩

theorem delivered_queue (c : ProxyClient) (payload : Bytes) :
    ∃ ctx out, delivered E c payload = ({ c with decryptCtx := ctx } : ProxyClient).queue out := by
  unfold delivered
  obtain ⟨ctx, hdec⟩ := decode_eq (E := E) c payload
  split_ifs
  · rw [hdec]
    exact ⟨_, _, rfl⟩
  · exact ⟨c.decryptCtx, payload, rfl⟩

theorem step_absent {t : Conn} {w : Which} (h : t.life.alive = false ∨ t.client.bevAt w = none)
    (g : LocalBev → Conn) : t.withBev w g = t := by
  unfold Conn.withBev
  rcases h with h | h
  · rw [if_neg (by simp [h])]
  · rw [h]
    split_ifs <;> rfl

theorem bevAt_none {c : ProxyClient} (hb : c.localProxyBev = none) (ho : c.orphans = [])
    (w : Which) : c.bevAt w = none := by
  cases w with
  | current => exact hb
  | orphan i => simp [ProxyClient.bevAt, ho]

theorem step_gone {t : Conn} (h : t.life.alive = false) (ho : t.owner = .client) (e : Event) :
    step E t e = t := by
  cases e with
  | data flags payload replies => simp [step, h]
  | windowUpdate flags increment => simp [step, h]
  | connected w => exact step_absent (.inl h) _
  | readable w d => exact step_absent (.inl h) _
  | closed w d => exact step_absent (.inl h) _
  | send src => simp [step, ho]

end Xfrpc.Tunnel.Tcp
