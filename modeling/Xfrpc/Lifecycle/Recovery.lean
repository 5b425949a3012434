import Xfrpc.Lifecycle.Session

namespace Xfrpc.Lifecycle.Recovery

open Foundations.Runs Lifecycle.Task Lifecycle.Places Lifecycle.Session

def Running (s : State) : Prop :=
  s.stopFlag = false ∧
    (serving s.pc = true ∧ (s.breakFlag = true → s.reconnectRequested = true) ∨
      (s.pc = .leave ∨ s.pc = .connect) ∧ s.reconnectRequested = true)

/-- A connect or a handshake is in progress, and its deadline has not been reported. -/
def inProgress (s : State) : Bool :=
  s.bev.any fun b ↦ (b.phase == .connecting || b.phase == .handshaking) && !b.failed && !b.expired

def attended (s : State) : Bool :=
  inProgress s || established s && s.tickerPing || s.reconnectTimer.isSome || s.reconnectRequested

/-- After its first login the client is not left without a way to the server. -/
def NotStranded (s : State) : Prop := s.everLogin = true → Running s ∧ attended s = true

/-- Nobody calls `xfrpc_stop`, and timers can be allocated. -/
def Assumed : Event → Prop
  | .stop _ => False
  | .control (.connected _ timer _) => timer = true
  | .control (.eof timer) => timer = true
  | .control (.error timer) => timer = true
  | _ => True

/-- After the first login every attempt to connect can be begun, the login message can
be prepared, and the clock works and the handshake meets its deadline unless a reconnect
is due anyway; and that login finds the heartbeat timer set and the loop not stopped. -/
def Kept (s : State) : Event → Prop
  | .task ok => s.pc = .connect → s.everLogin = true → ok = true
  | .control (.connected prepared timer now) =>
    served s (.connected prepared timer now) = true → s.everLogin = true →
      prepared = true ∧ (now ≠ -1 ∨ s.reconnectTimer.isSome = true)
  | .control .timeout =>
    served s .timeout = true → s.everLogin = true → s.reconnectTimer.isSome = true
  | .control (.message (.loginResp true)) =>
    served s (.message (.loginResp true)) = true → s.everLogin = false →
      s.stopFlag = false ∧ (s.tickerPing = true ∨ s.reconnectTimer.isSome = true)
  | _ => True

instance : ∀ e, Decidable (Assumed e)
  | .stop _ => .isFalse id
  | .control (.connected _ timer _) => inferInstanceAs (Decidable (timer = true))
  | .control (.eof timer) => inferInstanceAs (Decidable (timer = true))
  | .control (.error timer) => inferInstanceAs (Decidable (timer = true))
  | .control .tcpUp | .control .timeout | .control (.message _) => .isTrue trivial
  | .start _ | .task _ | .heartbeat _ | .reconnect | .work _ _ => .isTrue trivial

instance (s : State) : ∀ e, Decidable (Kept s e)
  | .task ok => inferInstanceAs (Decidable (s.pc = .connect → s.everLogin = true → ok = true))
  | .control (.connected prepared timer now) =>
    inferInstanceAs (Decidable (served s (.connected prepared timer now) = true →
      s.everLogin = true → prepared = true ∧ (now ≠ -1 ∨ s.reconnectTimer.isSome = true)))
  | .control .timeout =>
    inferInstanceAs (Decidable (served s .timeout = true → s.everLogin = true →
      s.reconnectTimer.isSome = true))
  | .control (.message (.loginResp true)) =>
    inferInstanceAs (Decidable (served s (.message (.loginResp true)) = true →
      s.everLogin = false → s.stopFlag = false ∧
        (s.tickerPing = true ∨ s.reconnectTimer.isSome = true)))
  | .control (.message (.loginResp false)) | .control (.message (.reqWorkConn _))
  | .control (.message (.pong _)) | .control (.message .other) => .isTrue trivial
  | .control .tcpUp | .control (.eof _) | .control (.error _) => .isTrue trivial
  | .start _ | .heartbeat _ | .reconnect | .work _ _ | .stop _ => .isTrue trivial

theorem running_of_serving {s : State} (ho : Orderly s) (hpc : serving s.pc = true) :
    Running s ↔ s.stopFlag = false :=
  ⟨fun h ↦ h.1, fun h ↦ ⟨h, .inl ⟨hpc, ho.broken hpc⟩⟩⟩

theorem notStranded_congr {s t : State} (hpc : t.pc = s.pc) (hstop : t.stopFlag = s.stopFlag)
    (hbreak : t.breakFlag = s.breakFlag) (hreq : t.reconnectRequested = s.reconnectRequested)
    (hbev : t.bev = s.bev) (hticker : t.tickerPing = s.tickerPing)
    (htimer : t.reconnectTimer = s.reconnectTimer) :
    (Running t ∧ attended t = true) ↔ (Running s ∧ attended s = true) := by
  unfold Running attended inProgress established
  rw [hpc, hstop, hbreak, hreq, hbev, hticker, htimer]

theorem requestReconnect_notStranded {s : State} (h : NotStranded s) (hpc : serving s.pc = true)
    (hctl : s.ctl = true) : NotStranded (requestReconnect s) := by
  rw [requestReconnect_eq hctl]
  intro hever
  have hrun := (h hever).1
  exact ⟨⟨hrun.1, .inl ⟨hpc, fun _ ↦ rfl⟩⟩, by simp [attended]⟩

theorem heartbeatHandler_notStranded {s : State} (h : NotStranded s) (hpc : serving s.pc = true)
    (hctl : s.ctl = true) (now : ℤ) : NotStranded (heartbeatHandler s now) := by
  unfold heartbeatHandler checkServerTimeout
  split_ifs
  · exact h
  · exact h
  · exact requestReconnect_notStranded h hpc hctl
  · exact h

theorem handleFrpsMsg_watch (s : State) (m : Message) :
    (Running (handleFrpsMsg s m) ∧ attended (handleFrpsMsg s m) = true) ↔
      (Running s ∧ attended s = true) := by
  unfold handleFrpsMsg
  cases m with
  | loginResp good =>
    cases good <;> split_ifs <;> exact notStranded_congr rfl rfl rfl rfl rfl rfl rfl
  | reqWorkConn opened =>
    simp only [handleControlWork, handleTypeReqWorkConn, newClientConnect]
    split_ifs <;> exact notStranded_congr rfl rfl rfl rfl rfl rfl rfl
  | pong now => split_ifs <;> exact notStranded_congr rfl rfl rfl rfl rfl rfl rfl
  | other => split_ifs <;> exact notStranded_congr rfl rfl rfl rfl rfl rfl rfl

theorem handleFrpsMsg_everLogin (s : State) (m : Message) :
    (handleFrpsMsg s m).everLogin = (s.everLogin || (!s.isLogin && m == .loginResp true)) := by
  unfold handleFrpsMsg
  cases m with
  | loginResp good => cases good <;> cases s.isLogin <;> simp [handleControlWork, handleLoginResponse]
  | reqWorkConn opened =>
    cases s.isLogin <;> simp [handleControlWork, handleTypeReqWorkConn, newClientConnect]
    split_ifs <;> rfl
  | pong now => cases s.isLogin <;> simp [handleControlWork]
  | other => cases s.isLogin <;> simp [handleControlWork]

theorem not_requested {s : State} (ho : Orderly s) {b : Bev} (hb : s.bev = some b) :
    s.reconnectRequested = false := by
  by_contra hr
  rw [(ho.requested (Bool.not_eq_false _ ▸ hr)).1] at hb
  cases hb

theorem login_notStranded {s : State} (ho : Orderly s) (hpc : serving s.pc = true) {b : Bev}
    (hb : s.bev = some b) (hup : established s = true) :
    (Running s ∧ attended s = true) ↔
      s.stopFlag = false ∧ (s.tickerPing = true ∨ s.reconnectTimer.isSome = true) := by
  have hreq := not_requested ho hb
  have hno : inProgress s = false := by
    simp only [established, hb, Option.any_some, Bool.and_eq_true, beq_iff_eq] at hup
    simp [inProgress, hb, hup.1]
  rw [running_of_serving ho hpc]
  simp [attended, hreq, hno, hup]

theorem message_notStranded {s : State} (h : NotStranded s) (ho : Orderly s)
    (hpc : serving s.pc = true) {b : Bev} (hb : s.bev = some b) {m : Message}
    (hm : reports b (.message m) = true) :
    NotStranded (handleFrpsMsg s m) ↔ (m = .loginResp true → s.everLogin = false →
      s.stopFlag = false ∧ (s.tickerPing = true ∨ s.reconnectTimer.isSome = true)) := by
  have hup : established s = true := by simpa [established, hb, reports] using hm
  have hlogin := ho.login
  unfold NotStranded
  rw [handleFrpsMsg_watch, handleFrpsMsg_everLogin]
  cases hever : s.everLogin with
  | true => exact ⟨fun _ _ hf ↦ Bool.noConfusion hf, fun _ _ ↦ h hever⟩
  | false =>
    have hl : s.isLogin = false := by
      by_contra hl
      rw [(hlogin (Bool.not_eq_false _ ▸ hl)).2] at hever
      cases hever
    rw [hl, login_notStranded ho hpc hb hup]
    simp only [Bool.false_or, Bool.not_false, Bool.true_and, beq_iff_eq, true_implies]

theorem reconnectTimer_of_failed {s : State} (ho : Orderly s) (ha : attended s = true) {b : Bev}
    (hb : s.bev = some b) (hphase : b.phase ≠ .up) (hf : b.failed = true ∨ b.expired = true) :
    s.reconnectTimer.isSome = true := by
  have hreq := not_requested ho hb
  rcases hf with hf | hf <;>
    simpa [attended, inProgress, established, hb, hphase, hf, hreq] using ha

theorem connected_notStranded {s : State} (h : NotStranded s) (ho : Orderly s)
    (hctl : s.ctl = true) (hbase : s.base = true) {b : Bev} (hb : s.bev = some b)
    (hphase : b.phase ≠ .up) (prepared : Bool) (now : ℤ) :
    NotStranded (connectEventCb s b (.connected prepared true now)) ↔ (s.everLogin = true →
      prepared = true ∧ (now ≠ -1 ∨ s.reconnectTimer.isSome = true)) := by
  have hreq := not_requested ho hb
  cases prepared with
  | false =>
    refine ⟨fun ht hever ↦ ?_, fun hc hever ↦ ?_⟩
    · have hstop := (ht hever).1.1
      simp [connectEventCb, handleConnectionSuccess, login, xfrpcFatal, keepControlAlive, hctl,
        hbase] at hstop
    · have hfalse := (hc hever).1
      cases hfalse
  | true =>
    have hatt : attended (connectEventCb s b (.connected true true now)) =
        (!b.failed && decide (now ≠ -1) || s.reconnectTimer.isSome) := by
      have hup : (Phase.up == .connecting) = false ∧ (Phase.up == .handshaking) = false := by decide
      simp [connectEventCb, handleConnectionSuccess, login, keepControlAlive, attended, inProgress,
        established, hreq, hup]
    refine ⟨fun ht hever ↦ ⟨rfl, ?_⟩, fun hc hever ↦ ?_⟩
    · have ha := (ht hever).2
      rw [hatt] at ha
      simp only [Bool.or_eq_true, Bool.and_eq_true, decide_eq_true_eq] at ha
      exact ha.imp_left And.right
    · obtain ⟨hrun, ha⟩ := h hever
      refine ⟨hrun, ?_⟩
      rw [hatt]
      cases hf : b.failed with
      | true =>
        have htimer := reconnectTimer_of_failed ho ha hb hphase (.inl hf)
        simp [htimer]
      | false => simpa using (hc hever).2

theorem timeout_notStranded {s : State} (h : NotStranded s) (ho : Orderly s) {b : Bev}
    (hb : s.bev = some b) (hphase : b.phase ≠ .up) :
    NotStranded (connectEventCb s b .timeout) ↔
      (s.everLogin = true → s.reconnectTimer.isSome = true) := by
  have hreq := not_requested ho hb
  have hatt : attended (connectEventCb s b .timeout) = s.reconnectTimer.isSome := by
    simp [connectEventCb, attended, inProgress, established, hreq, hphase]
  refine ⟨fun ht hever ↦ ?_, fun hc hever ↦ ⟨(h hever).1, ?_⟩⟩
  · rw [← hatt]
    exact (ht hever).2
  · rw [hatt]
    exact hc hever

theorem tcpUp_notStranded {s : State} (h : NotStranded s) {b : Bev} (hb : s.bev = some b)
    (hphase : b.phase = .connecting) : NotStranded (connectEventCb s b .tcpUp) := by
  intro hever
  obtain ⟨hrun, ha⟩ := h hever
  refine ⟨hrun, ?_⟩
  simpa [connectEventCb, attended, inProgress, established, hb, hphase] using ha

theorem failure_notStranded {s : State} (h : NotStranded s) (b : Bev) :
    NotStranded (handleConnectionFailure { s with bev := some b } true) := by
  intro hever
  exact ⟨(h hever).1, by simp [attended, handleConnectionFailure]⟩

theorem connectEventCb_notStranded {s : State} (h : NotStranded s) (ho : Orderly s)
    (hpl : Placed s) (hpc : s.pc = .bevs) {b : Bev} (hb : s.bev = some b) {c : Control}
    (hc : reports b c = true) (ha : Assumed (.control c)) :
    NotStranded (connectEventCb s b c) ↔ Kept s (.control c) := by
  have hserving : serving s.pc = true := by rw [hpc]; rfl
  have hbase := hpl.base (by rw [hpc]; rfl)
  have hctl := hpl.owner (.inl hbase)
  have hserved : served s c = true := by simp [served, hpc, hb, hc]
  cases c with
  | tcpUp =>
    refine ⟨fun _ ↦ trivial, fun _ ↦ tcpUp_notStranded h hb ?_⟩
    simp only [reports, Bool.and_eq_true, beq_iff_eq] at hc
    exact hc.2
  | connected prepared timer now =>
    obtain rfl : timer = true := ha
    have hphase : b.phase ≠ .up := by
      intro hup
      cases htls : b.tls <;> simp [reports, hup, htls] at hc
    rw [connected_notStranded h ho hctl hbase hb hphase]
    exact ⟨fun hk _ ↦ hk, fun hk ↦ hk hserved⟩
  | eof timer =>
    obtain rfl : timer = true := ha
    exact ⟨fun _ ↦ trivial, fun _ ↦ failure_notStranded h _⟩
  | error timer =>
    obtain rfl : timer = true := ha
    exact ⟨fun _ ↦ trivial, fun _ ↦ failure_notStranded h _⟩
  | timeout =>
    have hphase : b.phase ≠ .up := by
      intro hup
      simp [reports, hup] at hc
    rw [timeout_notStranded h ho hb hphase]
    exact ⟨fun hk _ ↦ hk, fun hk ↦ hk hserved⟩
  | message m =>
    show NotStranded (handleFrpsMsg s m) ↔ _
    rw [message_notStranded h ho hserving hb hc]
    cases m with
    | loginResp good =>
      cases good with
      | true => exact ⟨fun hk _ ↦ hk rfl, fun hk _ ↦ hk hserved⟩
      | false => exact ⟨fun _ ↦ trivial, fun _ hf ↦ by cases hf⟩
    | reqWorkConn | pong | other => exact ⟨fun _ ↦ trivial, fun _ hf ↦ by cases hf⟩

theorem work_notStranded {s : State} (h : NotStranded s) (ho : Orderly s) (i : ℕ)
    (e : WorkEvent) : NotStranded (step s (.work i e)) := by
  simp only [step]
  split
  · next w hw =>
    have hever : s.everLogin = true := by
      refine (ho.works ?_).1
      intro hnil
      rw [hnil] at hw
      cases hw
    have hold := h hever
    split_ifs
    · cases e with
      | connected =>
        simp only [clientStartEventCb, handleClientConnected]
        split_ifs
        · exact fun _ ↦ (notStranded_congr rfl rfl rfl rfl rfl rfl rfl).mpr hold
        · exact h
      | gone => exact fun _ ↦ (notStranded_congr rfl rfl rfl rfl rfl rfl rfl).mpr hold
      | message m =>
        simp only [clientStartEventCb]
        split_ifs
        · exact h
        · exact fun _ ↦ (handleFrpsMsg_watch s m).mpr hold
    · exact h
  · exact h

theorem place_of_running {s : State} (h : Running s) :
    serving s.pc = true ∨ (s.pc = .leave ∨ s.pc = .connect) ∧ s.reconnectRequested = true :=
  h.2.imp_left And.left

theorem moved_notStranded {s : State} (hold : Running s ∧ attended s = true) {pc : Pc}
    (hpc : serving pc = true) (hfrom : serving s.pc = true) (ho : Orderly s) :
    Running { s with pc } ∧ attended { s with pc } = true :=
  ⟨⟨hold.1.1, .inl ⟨hpc, ho.broken hfrom⟩⟩, hold.2⟩

theorem left_notStranded {s : State} (hold : Running s ∧ attended s = true)
    (hreq : s.reconnectRequested = true) {pc : Pc} (hpc : pc = .leave ∨ pc = .connect) :
    Running { s with pc } ∧ attended { s with pc } = true :=
  ⟨⟨hold.1.1, .inr ⟨hpc, hreq⟩⟩, hold.2⟩

theorem requested_of_flagged {s : State} (hrun : Running s) (ho : Orderly s)
    (hpc : serving s.pc = true) (hf : flagged s = true) : s.reconnectRequested = true := by
  apply ho.broken hpc
  simpa [flagged, hrun.1] using hf

theorem requested_of_idle {s : State} (ha : attended s = true) (harmed : armed s = false)
    (hticker : s.tickerPing = false) (htimer : s.reconnectTimer = none) :
    s.reconnectRequested = true := by
  have hno : inProgress s = false := by
    by_contra hp
    have hin : inProgress s = true := Bool.not_eq_false _ ▸ hp
    simp only [inProgress, Option.any_eq_true, Bool.and_eq_true, Bool.or_eq_true, beq_iff_eq] at hin
    obtain ⟨b, hb, ⟨hphase, -⟩, -⟩ := hin
    rcases hphase with hphase | hphase <;> simp [armed, hb, hphase] at harmed
  simpa [attended, hno, hticker, htimer] using ha

theorem top_notStranded {s : State} (hold : Running s ∧ attended s = true) (ho : Orderly s)
    (hpc : s.pc = .top) (ok : Bool) :
    Running (taskStep s ok) ∧ attended (taskStep s ok) = true := by
  have hfrom : serving s.pc = true := by rw [hpc]; rfl
  simp only [taskStep, hpc]
  split_ifs with hf hidle
  · exact left_notStranded hold (requested_of_flagged hold.1 ho hfrom hf) (.inl rfl)
  · simp only [Bool.and_eq_true, Bool.not_eq_true', Option.isNone_iff_eq_none] at hidle
    obtain ⟨⟨⟨harmed, hticker⟩, htimer⟩, -⟩ := hidle
    exact left_notStranded hold (requested_of_idle hold.2 harmed hticker htimer) (.inl rfl)
  · exact moved_notStranded hold rfl hfrom ho

theorem connect_notStranded {s : State} (hold : Running s ∧ attended s = true) (ho : Orderly s)
    (hpl : Placed s) (hpc : s.pc = .connect) (ok : Bool) :
    (Running (taskStep s ok) ∧ attended (taskStep s ok) = true) ↔ ok = true := by
  have hreq : s.reconnectRequested = true := by
    rcases place_of_running hold.1 with hs | hs
    · rw [hpc] at hs
      cases hs
    · exact hs.2
  have hbase := (ho.requested hreq).2
  have hctl := hpl.owner (.inl hbase)
  have hstop := hold.1.1
  simp only [taskStep, hpc, if_pos hctl]
  cases ok with
  | true =>
    refine ⟨fun _ ↦ rfl, fun _ ↦ ⟨⟨hstop, .inl ⟨rfl, fun hf ↦ Bool.noConfusion hf⟩⟩, ?_⟩⟩
    simp [startBaseConnect, attended, inProgress]
  | false =>
    refine ⟨fun ht ↦ ?_, fun hf ↦ Bool.noConfusion hf⟩
    have hflag := ht.1.1
    simp [startBaseConnect, xfrpcFatal, hctl, hbase] at hflag

theorem taskStep_everLogin (s : State) (ok : Bool) : (taskStep s ok).everLogin = s.everLogin := by
  unfold taskStep startBaseConnect closeMainControl clearMainControl
  split <;> try split_ifs
  all_goals rfl

theorem taskStep_notStranded {s : State} (h : NotStranded s) (ho : Orderly s) (hpl : Placed s)
    (ok : Bool) : NotStranded (taskStep s ok) ↔ Kept s (.task ok) := by
  unfold NotStranded
  rw [taskStep_everLogin]
  cases hever : s.everLogin with
  | false =>
    refine ⟨fun _ _ he ↦ ?_, fun _ hf ↦ Bool.noConfusion hf⟩
    rw [hever] at he
    cases he
  | true =>
    have hold := h hever
    by_cases hconn : s.pc = .connect
    · rw [connect_notStranded hold ho hpl hconn]
      exact ⟨fun hk _ _ ↦ hk rfl, fun hk _ ↦ hk hconn hever⟩
    · refine ⟨fun _ hc ↦ absurd hc hconn, fun _ _ ↦ ?_⟩
      rcases place_of_running hold.1 with hs | ⟨hp | hp, hreq⟩
      · cases hpc : s.pc with
        | top => exact top_notStranded hold ho hpc ok
        | wait | timers | bevs =>
          simp only [taskStep, hpc]
          exact moved_notStranded hold rfl hs ho
        | woken | served =>
          simp only [taskStep, hpc]
          split_ifs with hf
          · exact left_notStranded hold (requested_of_flagged hold.1 ho hs hf) (.inl rfl)
          · exact moved_notStranded hold rfl hs ho
        | idle | entered | initLogin | initControl | initBase | initTls | connect | leave | close
        | freeBase | freeControl | report | exited | crashed =>
          rw [hpc] at hs
          cases hs
      · simp only [taskStep, hp, if_pos hreq]
        exact left_notStranded hold hreq (.inr rfl)
      · exact absurd hp hconn

theorem kept_of_not_served {s : State} {c : Control} (h : served s c ≠ true) :
    Kept s (.control c) := by
  cases c with
  | connected prepared timer now => exact fun hs ↦ absurd hs h
  | timeout => exact fun hs ↦ absurd hs h
  | message m =>
    cases m with
    | loginResp good =>
      cases good with
      | true => exact fun hs ↦ absurd hs h
      | false => trivial
    | reqWorkConn | pong | other => trivial
  | tcpUp | eof | error => trivial

theorem control_notStranded {s : State} (h : NotStranded s) (ho : Orderly s) (hpl : Placed s)
    {c : Control} (ha : Assumed (.control c)) :
    NotStranded (step s (.control c)) ↔ Kept s (.control c) := by
  cases hb : s.bev with
  | none =>
    simp only [step, hb]
    exact ⟨fun _ ↦ kept_of_not_served (by simp [served, hb]), fun _ ↦ h⟩
  | some b =>
    by_cases hs : s.pc = .bevs ∧ reports b c = true
    · simp only [step, hb, if_pos hs]
      exact connectEventCb_notStranded h ho hpl hs.1 hb hs.2 ha
    · have hno : served s c ≠ true := by
        intro hc
        exact hs (by simpa [served, hb] using hc)
      simp only [step, hb, if_neg hs]
      exact ⟨fun _ ↦ kept_of_not_served hno, fun _ ↦ h⟩

theorem step_notStranded {s : State} {e : Event} (ha : Assumed e) (h : NotStranded s)
    (ho : Orderly s) (hpl : Placed s) : NotStranded (step s e) ↔ Kept s e := by
  cases e with
  | start cfg =>
    refine ⟨fun _ ↦ trivial, fun _ ↦ ?_⟩
    simp only [step, xfrpcLaunch]
    split_ifs
    · exact fun hf ↦ Bool.noConfusion hf
    · exact h
  | task ok => exact taskStep_notStranded h ho hpl ok
  | heartbeat now =>
    refine ⟨fun _ ↦ trivial, fun _ ↦ ?_⟩
    simp only [step]
    split_ifs with hs
    · have hctl := hpl.owner (.inl (hpl.base (by rw [hs.1]; rfl)))
      exact heartbeatHandler_notStranded h (by rw [hs.1]; rfl) hctl now
    · exact h
  | reconnect =>
    refine ⟨fun _ ↦ trivial, fun _ ↦ ?_⟩
    simp only [step]
    split_ifs with hs
    · have hctl := hpl.owner (.inl (hpl.base (by rw [hs.1]; rfl)))
      exact requestReconnect_notStranded h (by rw [hs.1]; rfl) hctl
    · exact h
  | control c => exact control_notStranded h ho hpl ha
  | work i e => exact ⟨fun _ ↦ trivial, fun _ ↦ work_notStranded h ho i e⟩
  | stop i => exact ha.elim

/-- The client is never stranded if and only if every step is one of those asked for. -/
theorem never_stranded_iff {events : List Event} (h : ∀ e ∈ events, Assumed e) :
    Always step NotStranded boot events ↔ Along step Kept boot events := by
  have hboot : NotStranded boot := by
    intro hever
    cases hever
  exact always_iff_along_on (Q := fun s ↦ Orderly s ∧ Placed s)
    (fun s e hq ↦ ⟨step_orderly hq.1 hq.2 e, step_placed s e hq.2⟩)
    (fun _ _ ha hp hq ↦ step_notStranded ha hp hq.1 hq.2) hboot ⟨boot_orderly, boot_placed⟩ h

/-- A client with TLS that has logged in. -/
def loggedIn : List Event :=
  .start ⟨true, true, 90⟩ :: List.replicate 11 (.task true) ++
    [.control .tcpUp, .control (.connected true true 1), .control (.message (.loginResp true))]

/-- The server closes the connection, and the reconnect timer expires. -/
def reconnecting : List Event :=
  loggedIn ++ .control (.eof true) :: List.replicate 4 (.task true) ++
    .reconnect :: List.replicate 4 (.task true)

/-- The client reconnects. -/
theorem reconnect_not_stranded : Always step NotStranded boot reconnecting :=
  (never_stranded_iff (by decide)).mpr (by decide)

/-- The handshake of the new connection runs into its deadline. -/
def handshakeTimeout : List Event :=
  reconnecting ++ List.replicate 5 (.task true) ++ [.control .tcpUp, .control .timeout]

theorem handshakeTimeout_stranded :
    (∀ e ∈ handshakeTimeout, Assumed e) ∧ ¬ Always step NotStranded boot handshakeTimeout := by
  refine ⟨by decide, fun h ↦ ?_⟩
  have hatt := (h.last rfl).2
  cases hatt

end Xfrpc.Lifecycle.Recovery
