import Xfrpc.Lifecycle.Places

namespace Xfrpc.Lifecycle.Session

open Foundations.Runs Lifecycle.Task Lifecycle.Places

def serving : Pc → Bool
  | .top | .wait | .woken | .timers | .served | .bevs => true
  | _ => false

def outside : Pc → Bool
  | .initTls | .freeBase => true
  | pc => unbased pc

def established (s : State) : Bool := s.bev.any fun b ↦ b.phase == .up && !b.failed

/-- The control connection can report `c` now. -/
def served (s : State) (c : Control) : Bool := s.pc == .bevs && s.bev.any fun b ↦ reports b c

/-- What a session hands to the next: a reconnect is asked for only when the session
is cleared, a login sets the status, and without a session there is no connection. -/
structure Orderly (s : State) : Prop where
  requested : s.reconnectRequested = true → s.bev = none ∧ s.base = true
  login : s.isLogin = true → s.status = true ∧ s.everLogin = true
  works : s.works ≠ [] → s.everLogin = true ∧ s.base = true
  broken : serving s.pc = true → s.breakFlag = true → s.reconnectRequested = true
  quiet : outside s.pc = true ∨ s.pc = .connect → s.bev = none
  fresh : outside s.pc = true → s.isLogin = false
  settled : outside s.pc = true ∨ s.pc = .close → s.reconnectRequested = false

theorem outside_of_serving {pc : Pc} (h : serving pc = true) :
    ¬ (outside pc = true ∨ pc = .connect) ∧ ¬ (outside pc = true ∨ pc = .close) := by
  cases pc <;> first | decide | cases h

theorem Orderly.of_serving {s : State} (hpc : serving s.pc = true)
    (requested : s.reconnectRequested = true → s.bev = none ∧ s.base = true)
    (login : s.isLogin = true → s.status = true ∧ s.everLogin = true)
    (works : s.works ≠ [] → s.everLogin = true ∧ s.base = true)
    (broken : s.breakFlag = true → s.reconnectRequested = true) : Orderly s := by
  obtain ⟨hconnect, hclose⟩ := outside_of_serving hpc
  exact ⟨requested, login, works, fun _ ↦ broken, fun h ↦ absurd h hconnect,
    fun h ↦ absurd (.inl h) hconnect, fun h ↦ absurd h hclose⟩

theorem Orderly.of_quiet {s : State} (hpc : serving s.pc = false) (hbev : s.bev = none)
    (hlogin : s.isLogin = false) (hreq : s.reconnectRequested = false)
    (hworks : s.works ≠ [] → s.everLogin = true ∧ s.base = true) : Orderly s := by
  refine ⟨fun hr ↦ ?_, fun hl ↦ ?_, hworks, fun hs ↦ ?_, fun _ ↦ hbev, fun _ ↦ hlogin, fun _ ↦ hreq⟩
  · rw [hreq] at hr
    cases hr
  · rw [hlogin] at hl
    cases hl
  · rw [hpc] at hs
    cases hs

theorem Orderly.of_leave {s : State} (hpc : s.pc = .leave ∨ s.pc = .crashed)
    (requested : s.reconnectRequested = true → s.bev = none ∧ s.base = true)
    (login : s.isLogin = true → s.status = true ∧ s.everLogin = true)
    (works : s.works ≠ [] → s.everLogin = true ∧ s.base = true) : Orderly s := by
  have hserving : ¬ serving s.pc = true := by rcases hpc with hp | hp <;> rw [hp] <;> decide
  have hconnect : ¬ (outside s.pc = true ∨ s.pc = .connect) := by
    rcases hpc with hp | hp <;> rw [hp] <;> decide
  have hclose : ¬ (outside s.pc = true ∨ s.pc = .close) := by
    rcases hpc with hp | hp <;> rw [hp] <;> decide
  exact ⟨requested, login, works, fun h ↦ absurd h hserving, fun h ↦ absurd h hconnect,
    fun h ↦ absurd (.inl h) hconnect, fun h ↦ absurd h hclose⟩

theorem requestReconnect_eq {s : State} (hctl : s.ctl = true) :
    requestReconnect s =
      { s with
        tickerPing := false, reconnectTimer := none, status := false, isLogin := false, pongTime := 0
        trace := s.trace ++ [.report .reconnecting]
        works := s.works.map fun w ↦ { w with orphan := true }, bev := none
        reconnectRequested := true, breakFlag := s.breakFlag || (s.ctl && s.base) } := by
  simp [requestReconnect, clearMainControl, hctl]

section Callbacks

variable {s : State} (h : Orderly s) (hpc : serving s.pc = true)

include h hpc

theorem requestReconnect_orderly (hctl : s.ctl = true) (hbase : s.base = true) :
    Orderly (requestReconnect s) := by
  have hworks := h.works
  rw [requestReconnect_eq hctl]
  refine .of_serving hpc (fun _ ↦ ⟨rfl, hbase⟩) (fun hl ↦ ?_) (fun hw ↦ hworks ?_) fun _ ↦ rfl
  · cases hl
  · intro hnil
    exact hw (by simp [hnil])

theorem handleFrpsMsg_orderly (hbase : s.base = true) (m : Message) :
    Orderly (handleFrpsMsg s m) := by
  have hbroken := h.broken hpc
  cases hl : s.isLogin with
  | false =>
    cases m with
    | loginResp good =>
      cases good with
      | true =>
        simp only [handleFrpsMsg, hl]
        exact .of_serving hpc h.requested (fun _ ↦ ⟨rfl, rfl⟩) (fun _ ↦ ⟨rfl, hbase⟩) hbroken
      | false => simpa [handleFrpsMsg, hl, handleLoginResponse] using h
    | reqWorkConn opened => simpa [handleFrpsMsg, hl] using h
    | pong now => simpa [handleFrpsMsg, hl] using h
    | other => simpa [handleFrpsMsg, hl] using h
  | true =>
    have hever := (h.login hl).2
    cases m with
    | reqWorkConn opened =>
      simp only [handleFrpsMsg, hl, if_true, handleControlWork, handleTypeReqWorkConn,
        newClientConnect]
      split_ifs
      · exact .of_serving hpc h.requested (fun _ ↦ ⟨rfl, hever⟩) (fun _ ↦ ⟨hever, hbase⟩) hbroken
      · exact .of_serving hpc h.requested (fun _ ↦ ⟨rfl, hever⟩) h.works hbroken
    | pong now =>
      simp only [handleFrpsMsg, hl, if_true, handleControlWork]
      exact .of_serving hpc h.requested (fun _ ↦ h.login hl) h.works hbroken
    | loginResp good => simpa [handleFrpsMsg, hl, handleControlWork] using h
    | other => simpa [handleFrpsMsg, hl, handleControlWork] using h

theorem handleConnectionFailure_orderly (hctl : s.ctl = true) (hbase : s.base = true)
    (timer : Bool) : Orderly (handleConnectionFailure s timer) := by
  have hbroken := h.broken hpc
  cases timer with
  | true => exact .of_serving hpc h.requested h.login h.works hbroken
  | false =>
    refine requestReconnect_orderly ?_ hpc hctl hbase
    exact .of_serving hpc h.requested h.login h.works hbroken

theorem handleConnectionSuccess_orderly (prepared timer : Bool) (now : ℤ) :
    Orderly (handleConnectionSuccess s prepared timer now) := by
  have hbroken := h.broken hpc
  unfold handleConnectionSuccess login keepControlAlive xfrpcFatal
  split_ifs <;> exact .of_serving hpc h.requested h.login h.works hbroken

theorem heartbeatHandler_orderly (hctl : s.ctl = true) (hbase : s.base = true) (now : ℤ) :
    Orderly (heartbeatHandler s now) := by
  unfold heartbeatHandler checkServerTimeout
  split_ifs
  · exact h
  · exact h
  · exact requestReconnect_orderly h hpc hctl hbase
  · exact h

theorem bev_orderly {b : Bev} (hb : s.bev = some b) (b' : Bev) :
    Orderly { s with bev := some b' } := by
  have hno : s.reconnectRequested ≠ true := by
    intro hr
    rw [(h.requested hr).1] at hb
    cases hb
  exact .of_serving hpc (fun hr ↦ absurd hr hno) h.login h.works (h.broken hpc)

theorem connectEventCb_orderly (hctl : s.ctl = true) (hbase : s.base = true) {b : Bev}
    (hb : s.bev = some b) (c : Control) : Orderly (connectEventCb s b c) := by
  cases c with
  | tcpUp => exact bev_orderly h hpc hb _
  | connected prepared timer now =>
    have hup := bev_orderly h hpc hb { b with phase := .up }
    have hretry : Orderly { s with bev := some { b with phase := .up }, retryTimes := 0 } :=
      .of_serving hpc hup.requested hup.login hup.works (hup.broken hpc)
    exact handleConnectionSuccess_orderly hretry hpc prepared timer now
  | eof timer =>
    exact handleConnectionFailure_orderly (bev_orderly h hpc hb _) hpc hctl hbase timer
  | error timer =>
    exact handleConnectionFailure_orderly (bev_orderly h hpc hb _) hpc hctl hbase timer
  | timeout => exact bev_orderly h hpc hb _
  | message m => exact handleFrpsMsg_orderly h hpc hbase m

theorem clientStartEventCb_orderly (hbase : s.base = true) {i : ℕ} {w : Work}
    (hw : s.works[i]? = some w) (e : WorkEvent) : Orderly (clientStartEventCb s i w e) := by
  have hever : s.everLogin = true ∧ s.base = true := by
    apply h.works
    intro hnil
    rw [hnil] at hw
    cases hw
  cases e with
  | connected =>
    simp only [clientStartEventCb, handleClientConnected]
    split_ifs
    · exact .of_serving hpc h.requested (fun _ ↦ ⟨rfl, hever.1⟩) (fun _ ↦ hever) (h.broken hpc)
    · exact h
  | gone =>
    simp only [clientStartEventCb]
    exact .of_serving hpc h.requested h.login (fun _ ↦ hever) (h.broken hpc)
  | message m =>
    simp only [clientStartEventCb]
    split_ifs
    · exact h
    · exact handleFrpsMsg_orderly h hpc hbase m

end Callbacks

theorem callback_orderly {s : State} (h : Orderly s) (hpl : Placed s) {e : Event}
    (he : e.callback = true) : Orderly (step s e) := by
  by_cases hloop : s.pc = .timers ∨ s.pc = .bevs
  · have hpc : serving s.pc = true := by rcases hloop with hp | hp <;> rw [hp] <;> rfl
    have hbase := hpl.base (by rcases hloop with hp | hp <;> rw [hp] <;> rfl)
    have hctl := hpl.owner (.inl hbase)
    cases e with
    | start cfg => cases he
    | task ok => cases he
    | stop i => cases he
    | heartbeat now =>
      simp only [step]
      split_ifs
      · exact heartbeatHandler_orderly h hpc hctl hbase now
      · exact h
    | reconnect =>
      simp only [step]
      split_ifs
      · exact requestReconnect_orderly h hpc hctl hbase
      · exact h
    | control c =>
      simp only [step]
      split
      · split_ifs
        · exact connectEventCb_orderly h hpc hctl hbase ‹_› c
        · exact h
      · exact h
    | work i e =>
      simp only [step]
      split
      · split_ifs
        · exact clientStartEventCb_orderly h hpc hbase ‹_› e
        · exact h
      · exact h
  · rw [callback_idle (fun ht ↦ hloop (.inl ht)) (fun hb ↦ hloop (.inr hb)) he]
    exact h

theorem closeMainControl_clean {s : State} (h : Orderly s) (hbase : s.base = false)
    (hpc : outside s.pc = true) :
    (closeMainControl s).bev = none ∧ (closeMainControl s).isLogin = false ∧
      (closeMainControl s).reconnectRequested = false ∧ (closeMainControl s).works = [] := by
  have hworks : s.works = [] := by
    by_contra hw
    rw [(h.works hw).2] at hbase
    cases hbase
  have hreq := h.settled (.inl hpc)
  unfold closeMainControl clearMainControl
  split_ifs
  · exact ⟨rfl, rfl, hreq, rfl⟩
  · exact ⟨h.quiet (.inl hpc), h.fresh hpc, hreq, hworks⟩

theorem taskStep_orderly_outside {s : State} (h : Orderly s) (hpl : Placed s)
    (hout : outside s.pc = true) (ok : Bool) : Orderly (taskStep s ok) := by
  have hbev := h.quiet (.inl hout)
  have hlogin := h.fresh hout
  have hreq := h.settled (.inl hout)
  have hnoBase := hpl.noBase
  cases hpc : s.pc with
  | idle | exited =>
    simp only [taskStep, hpc]
    exact h
  | entered | report =>
    simp only [taskStep, hpc]
    exact .of_quiet rfl hbev hlogin hreq h.works
  | initLogin =>
    simp only [taskStep, hpc]
    cases ok <;> exact .of_quiet rfl hbev hlogin hreq h.works
  | initControl =>
    obtain ⟨hbev, hlogin, hreq, hworks⟩ :=
      closeMainControl_clean h (hnoBase (by rw [hpc]; rfl)) hout
    simp only [taskStep, hpc]
    cases ok <;> exact .of_quiet rfl hbev hlogin hreq fun hw ↦ absurd hworks hw
  | initBase =>
    have hno := hnoBase (by rw [hpc]; rfl)
    have hworks : s.works = [] := by
      by_contra hw
      rw [(h.works hw).2] at hno
      cases hno
    simp only [taskStep, hpc]
    cases ok <;> exact .of_quiet rfl hbev hlogin hreq fun hw ↦ absurd hworks hw
  | initTls =>
    simp only [taskStep, hpc]
    split_ifs
    · exact .of_quiet rfl hbev hlogin hreq fun hw ↦ absurd rfl hw
    · exact .of_quiet rfl hbev hlogin hreq h.works
  | freeBase =>
    simp only [taskStep, hpc]
    exact .of_quiet rfl hbev hlogin hreq fun hw ↦ absurd rfl hw
  | freeControl =>
    simp only [taskStep, hpc]
    exact .of_quiet rfl hbev hlogin hreq h.works
  | connect | top | wait | woken | timers | served | bevs | leave | close | crashed =>
    rw [hpc] at hout
    cases hout

theorem taskStep_orderly {s : State} (h : Orderly s) (hpl : Placed s) (ok : Bool) :
    Orderly (taskStep s ok) := by
  have hconnect := h.quiet
  have hsettled := h.settled
  have hbroken := h.broken
  have hbase := hpl.base
  have absurdFlag : ∀ {P : Prop}, false = true → P := fun hf ↦ Bool.noConfusion hf
  cases hpc : s.pc with
  | connect =>
    have hbev := hconnect (.inr hpc)
    simp only [taskStep, hpc, startBaseConnect]
    split_ifs
    · exact .of_serving rfl absurdFlag h.login h.works absurdFlag
    · exact .of_serving rfl absurdFlag h.login h.works absurdFlag
    · exact .of_leave (.inr rfl) absurdFlag h.login h.works
  | top =>
    have hb := hbroken (by rw [hpc]; rfl)
    simp only [taskStep, hpc]
    split_ifs
    · exact .of_leave (.inl rfl) h.requested h.login h.works
    · exact .of_leave (.inl rfl) h.requested h.login h.works
    · exact .of_serving rfl h.requested h.login h.works hb
  | woken | served =>
    have hb := hbroken (by rw [hpc]; rfl)
    simp only [taskStep, hpc]
    split_ifs
    · exact .of_leave (.inl rfl) h.requested h.login h.works
    · exact .of_serving rfl h.requested h.login h.works hb
  | wait | timers | bevs =>
    have hb := hbroken (by rw [hpc]; rfl)
    simp only [taskStep, hpc]
    exact .of_serving rfl h.requested h.login h.works hb
  | leave =>
    simp only [taskStep, hpc]
    split_ifs with hr
    · refine ⟨h.requested, h.login, h.works, fun hs ↦ ?_, fun _ ↦ (h.requested hr).1, fun ho ↦ ?_,
        fun hc ↦ ?_⟩
      · cases hs
      · cases ho
      · rcases hc with hc | hc <;> cases hc
    · refine ⟨h.requested, h.login, h.works, fun hs ↦ ?_, fun hc ↦ ?_, fun ho ↦ ?_,
        fun _ ↦ Bool.not_eq_true _ ▸ hr⟩
      · cases hs
      · rcases hc with hc | hc <;> cases hc
      · cases ho
  | close =>
    have hreq := hsettled (.inr hpc)
    have hb := hbase (by rw [hpc]; rfl)
    have hctl := hpl.owner (.inl hb)
    simp only [taskStep, hpc, clearMainControl, if_pos hctl]
    refine .of_quiet rfl rfl rfl hreq fun hw ↦ h.works ?_
    intro hnil
    exact hw (by simp [hnil])
  | crashed =>
    simp only [taskStep, hpc]
    exact h
  | idle | entered | initLogin | initControl | initBase | initTls | freeBase | freeControl | report
  | exited => exact taskStep_orderly_outside h hpl (by rw [hpc]; rfl) ok

theorem xfrpcLaunch_orderly {s : State} (h : Orderly s) (hpl : Placed s) (cfg : Config) :
    Orderly (xfrpcLaunch s cfg) := by
  unfold xfrpcLaunch
  split_ifs with hpc
  · have hout : outside s.pc = true := by rcases hpc with hp | hp <;> rw [hp] <;> rfl
    have hno := hpl.noBase (by rcases hpc with hp | hp <;> rw [hp] <;> rfl)
    have hworks : s.works = [] := by
      by_contra hw
      rw [(h.works hw).2] at hno
      cases hno
    exact .of_quiet rfl (h.quiet (.inl hout)) (h.fresh hout) (h.settled (.inl hout))
      fun hw ↦ absurd hworks hw
  · exact h

theorem step_orderly {s : State} (h : Orderly s) (hpl : Placed s) (e : Event) :
    Orderly (step s e) := by
  cases e with
  | start cfg => exact xfrpcLaunch_orderly h hpl cfg
  | task ok => exact taskStep_orderly h hpl ok
  | stop i =>
    obtain ⟨flag, p, heq, -⟩ := xfrpcStop_eq s i
    simp only [step, heq]
    exact ⟨h.requested, h.login, h.works, h.broken, h.quiet, h.fresh, h.settled⟩
  | heartbeat now => exact callback_orderly h hpl rfl
  | reconnect => exact callback_orderly h hpl rfl
  | control c => exact callback_orderly h hpl rfl
  | work i e => exact callback_orderly h hpl rfl

theorem boot_orderly : Orderly boot := .of_quiet rfl rfl rfl rfl fun hw ↦ absurd rfl hw

end Xfrpc.Lifecycle.Session
