import Xfrpc.Lifecycle.Session

namespace Xfrpc.Lifecycle.Status

open Foundations.Runs Lifecycle.Task Lifecycle.Places Lifecycle.Session

def xfrpcIsConnected (s : State) : Bool := s.status

def Truthful (s : State) : Prop :=
  xfrpcIsConnected s = true → established s = true ∧ s.isLogin = true

def workServed (s : State) (i : ℕ) (connecting : Bool) : Bool :=
  s.pc == .bevs && s.works[i]?.any fun w ↦ w.connecting == connecting

/-- The control connection does not fail while the status is set, unless no timer can
be had and the session is cleared at once; and no work connection, which may be one of
an earlier session, comes up without the status or logs in without the connection. -/
def Honest (s : State) : Event → Prop
  | .control (.eof timer) => served s (.eof timer) = true → timer = true → s.status = false
  | .control (.error timer) => served s (.error timer) = true → timer = true → s.status = false
  | .work i .connected => workServed s i true = true → s.status = true
  | .work i (.message (.loginResp true)) =>
    workServed s i false = true → s.isLogin = false → established s = true
  | _ => True

theorem truthful_of_status {s : State} (h : s.status = false) : Truthful s := by
  intro hs
  rw [xfrpcIsConnected, h] at hs
  cases hs

theorem truthful_of_stays {s t : State} (h : Truthful s) (hs : t.status = s.status)
    (hb : t.bev = s.bev) (hl : t.isLogin = s.isLogin) : Truthful t := by
  unfold Truthful xfrpcIsConnected established
  rw [hs, hb, hl]
  exact h

theorem status_false {s : State} {b : Bev} (h : Truthful s) (hb : s.bev = some b)
    (hup : b.phase ≠ .up) : s.status = false := by
  by_contra hs
  have hup' := (h (Bool.not_eq_false _ ▸ hs)).1
  simp [established, hb, hup] at hup'

theorem clearMainControl_truthful {s : State} (h : Truthful s) : Truthful (clearMainControl s) := by
  unfold clearMainControl
  split_ifs
  · exact truthful_of_status rfl
  · exact h

theorem requestReconnect_truthful {s : State} (h : Truthful s) :
    Truthful (requestReconnect s) :=
  truthful_of_stays (clearMainControl_truthful h) rfl rfl rfl

theorem closeMainControl_truthful {s : State} (h : Truthful s) : Truthful (closeMainControl s) := by
  unfold closeMainControl
  split_ifs
  · exact truthful_of_stays (clearMainControl_truthful h) rfl rfl rfl
  · exact h

theorem heartbeatHandler_truthful {s : State} (h : Truthful s) (now : ℤ) :
    Truthful (heartbeatHandler s now) := by
  unfold heartbeatHandler checkServerTimeout
  split_ifs
  · exact h
  · exact h
  · exact requestReconnect_truthful h
  · exact h

theorem handleConnectionFailure_truthful {s : State} {b : Bev} (hctl : s.ctl = true)
    (timer : Bool) :
    Truthful (handleConnectionFailure { s with bev := some (afterFailure b) } timer) ↔
      (timer = true → s.status = false) := by
  cases timer with
  | true =>
    refine ⟨fun h _ ↦ ?_, fun h ↦ truthful_of_status (h rfl)⟩
    by_contra hs
    have hup := (h (Bool.not_eq_false _ ▸ hs)).1
    simp [established, handleConnectionFailure, afterFailure] at hup
  | false =>
    refine ⟨fun _ hf ↦ Bool.noConfusion hf, fun _ ↦ truthful_of_status ?_⟩
    simp [handleConnectionFailure, requestReconnect, clearMainControl, hctl]

theorem handleConnectionSuccess_truthful {s : State} (h : Truthful s) (prepared timer : Bool)
    (now : ℤ) : Truthful (handleConnectionSuccess s prepared timer now) := by
  unfold handleConnectionSuccess login keepControlAlive xfrpcFatal
  split_ifs <;> exact h

theorem handleFrpsMsg_truthful {s : State} (h : Truthful s) (ho : Orderly s) (m : Message) :
    Truthful (handleFrpsMsg s m) ↔
      (m = .loginResp true → s.isLogin = false → established s = true) := by
  cases hl : s.isLogin with
  | false =>
    cases m with
    | loginResp good =>
      cases good with
      | true =>
        simp only [handleFrpsMsg, hl, handleLoginResponse]
        exact ⟨fun ht _ _ ↦ (ht rfl).1, fun he _ ↦ ⟨he trivial trivial, rfl⟩⟩
      | false =>
        refine ⟨fun _ hf ↦ by simp at hf, fun _ ↦ ?_⟩
        simpa [handleFrpsMsg, hl, handleLoginResponse] using h
    | reqWorkConn | pong | other =>
      exact ⟨fun _ hf ↦ by simp at hf, fun _ ↦ by simpa [handleFrpsMsg, hl] using h⟩
  | true =>
    refine ⟨fun _ _ hf ↦ Bool.noConfusion hf, fun _ ↦ ?_⟩
    have hup := h (ho.login hl).1
    cases m with
    | reqWorkConn opened =>
      simp only [handleFrpsMsg, hl, if_true, handleControlWork, handleTypeReqWorkConn,
        newClientConnect]
      split_ifs <;> exact fun _ ↦ ⟨hup.1, rfl⟩
    | loginResp good => simpa [handleFrpsMsg, hl, handleControlWork] using h
    | pong now =>
      simp only [handleFrpsMsg, hl, if_true, handleControlWork]
      exact fun _ ↦ ⟨hup.1, rfl⟩
    | other => simpa [handleFrpsMsg, hl, handleControlWork] using h

theorem connectEventCb_truthful {s : State} (h : Truthful s) (ho : Orderly s) (hctl : s.ctl = true)
    {b : Bev} (hb : s.bev = some b) {c : Control} (hc : reports b c = true) :
    Truthful (connectEventCb s b c) ↔
      ∀ timer, c = .eof timer ∨ c = .error timer → timer = true → s.status = false := by
  cases c with
  | tcpUp =>
    have hs : s.status = false := by
      refine status_false h hb fun hup ↦ ?_
      simp [reports, hup] at hc
    exact ⟨fun _ _ hf ↦ by simp at hf, fun _ ↦ truthful_of_status hs⟩
  | connected prepared timer now =>
    have hs : s.status = false := by
      refine status_false h hb fun hup ↦ ?_
      cases ht : b.tls <;> simp [reports, hup, ht] at hc
    have hup : Truthful { s with bev := some { b with phase := .up }, retryTimes := 0 } :=
      truthful_of_status hs
    exact ⟨fun _ _ hf ↦ by simp at hf,
      fun _ ↦ handleConnectionSuccess_truthful hup prepared timer now⟩
  | eof timer =>
    refine (handleConnectionFailure_truthful hctl timer).trans
      ⟨fun hs t ht ↦ ?_, fun hs ↦ hs timer (.inl rfl)⟩
    obtain rfl : timer = t := by simpa using ht
    exact hs
  | error timer =>
    refine (handleConnectionFailure_truthful hctl timer).trans
      ⟨fun hs t ht ↦ ?_, fun hs ↦ hs timer (.inr rfl)⟩
    obtain rfl : timer = t := by simpa using ht
    exact hs
  | timeout =>
    have hs : s.status = false := by
      refine status_false h hb fun hup ↦ ?_
      simp [reports, hup] at hc
    exact ⟨fun _ _ hf ↦ by simp at hf, fun _ ↦ truthful_of_status hs⟩
  | message m =>
    refine ⟨fun _ _ hf ↦ by simp at hf,
      fun _ ↦ (handleFrpsMsg_truthful h ho m).mpr fun _ _ ↦ ?_⟩
    simpa [established, hb, reports] using hc

theorem taskStep_truthful {s : State} (h : Truthful s) (ho : Orderly s) (ok : Bool) :
    Truthful (taskStep s ok) := by
  have hquiet := ho.quiet
  cases hpc : s.pc with
  | initControl =>
    simp only [taskStep, hpc]
    split_ifs <;> exact truthful_of_stays (closeMainControl_truthful h) rfl rfl rfl
  | connect =>
    have hstatus : s.status = false := by
      by_contra hs
      have hup := (h (Bool.not_eq_false _ ▸ hs)).1
      rw [established, hquiet (.inr hpc)] at hup
      cases hup
    simp only [taskStep, hpc, startBaseConnect]
    split_ifs <;> exact truthful_of_status hstatus
  | close =>
    simp only [taskStep, hpc]
    exact truthful_of_stays (clearMainControl_truthful h) rfl rfl rfl
  | initLogin =>
    simp only [taskStep, hpc]
    cases ok <;> exact truthful_of_stays h rfl rfl rfl
  | initBase | initTls | top | woken | served | leave =>
    simp only [taskStep, hpc]
    split_ifs <;> exact truthful_of_stays h rfl rfl rfl
  | idle | entered | wait | timers | bevs | freeBase | freeControl | report | exited | crashed =>
    simp only [taskStep, hpc]
    exact truthful_of_stays h rfl rfl rfl

theorem honest_control (s : State) (c : Control) :
    Honest s (.control c) ↔ (served s c = true →
      ∀ timer, c = .eof timer ∨ c = .error timer → timer = true → s.status = false) := by
  cases c with
  | eof timer =>
    refine ⟨fun h hs t ht ↦ ?_, fun h hs ↦ h hs timer (.inl rfl)⟩
    obtain rfl : timer = t := by simpa using ht
    exact h hs
  | error timer =>
    refine ⟨fun h hs t ht ↦ ?_, fun h hs ↦ h hs timer (.inr rfl)⟩
    obtain rfl : timer = t := by simpa using ht
    exact h hs
  | tcpUp | connected | timeout | message => exact ⟨fun _ _ _ hf ↦ by simp at hf, fun _ ↦ trivial⟩

theorem control_truthful {s : State} (h : Truthful s) (ho : Orderly s) (hpl : Placed s)
    (c : Control) : Truthful (step s (.control c)) ↔ Honest s (.control c) := by
  rw [honest_control]
  cases hb : s.bev with
  | none =>
    simp only [step, hb, served, Option.any_none, Bool.and_false]
    exact ⟨fun _ hf ↦ Bool.noConfusion hf, fun _ ↦ h⟩
  | some b =>
    by_cases hs : s.pc = .bevs ∧ reports b c = true
    · have hserved : served s c = true := by simp [served, hs.1, hb, hs.2]
      have hctl := hpl.owner (.inl (hpl.base (by rw [hs.1]; rfl)))
      simp only [step, hb, if_pos hs]
      rw [connectEventCb_truthful h ho hctl hb hs.2]
      exact ⟨fun ht _ ↦ ht, fun ht ↦ ht hserved⟩
    · have hserved : served s c ≠ true := by
        intro hc
        exact hs (by simpa [served, hb] using hc)
      simp only [step, hb, if_neg hs]
      exact ⟨fun _ ht ↦ absurd ht hserved, fun _ ↦ h⟩

theorem handleClientConnected_truthful {s : State} (h : Truthful s) (ho : Orderly s) (i : ℕ)
    (w : Work) : Truthful (handleClientConnected s i w) ↔ s.status = true := by
  constructor
  · intro ht
    exact (ho.login (ht rfl).2).1
  · intro hs _
    exact h hs

theorem clientStartEventCb_truthful {s : State} (h : Truthful s) (ho : Orderly s) {i : ℕ} {w : Work}
    (hw : s.works[i]? = some w) (hpc : s.pc = .bevs) (e : WorkEvent) :
    Truthful (clientStartEventCb s i w e) ↔ Honest s (.work i e) := by
  have hserved : ∀ c, workServed s i c = (w.connecting == c) := by
    intro c
    simp [workServed, hpc, hw]
  cases e with
  | gone => exact ⟨fun _ ↦ trivial, fun _ ↦ h⟩
  | connected =>
    simp only [clientStartEventCb, Honest, hserved]
    cases w.connecting with
    | true =>
      simp only [if_true]
      rw [handleClientConnected_truthful h ho]
      exact ⟨fun hs _ ↦ hs, fun hs ↦ hs rfl⟩
    | false => exact ⟨fun _ hf ↦ Bool.noConfusion hf, fun _ ↦ h⟩
  | message m =>
    have hm : Honest s (.work i (.message m)) ↔ (w.connecting = false →
        m = .loginResp true → s.isLogin = false → established s = true) := by
      cases m with
      | loginResp good =>
        cases good with
        | true =>
          simp only [Honest, hserved, beq_iff_eq]
          exact ⟨fun hh hc _ ↦ hh hc, fun hh hc ↦ hh hc trivial⟩
        | false => exact ⟨fun _ _ hf ↦ by simp at hf, fun _ ↦ trivial⟩
      | reqWorkConn | pong | other => exact ⟨fun _ _ hf ↦ by simp at hf, fun _ ↦ trivial⟩
    rw [hm]
    simp only [clientStartEventCb]
    cases w.connecting with
    | true => exact ⟨fun _ hf ↦ Bool.noConfusion hf, fun _ ↦ h⟩
    | false =>
      simp only [Bool.false_eq_true, if_false]
      rw [handleFrpsMsg_truthful h ho]
      exact ⟨fun hh _ ↦ hh, fun hh ↦ hh trivial⟩

theorem work_truthful {s : State} (h : Truthful s) (ho : Orderly s) (i : ℕ) (e : WorkEvent) :
    Truthful (step s (.work i e)) ↔ Honest s (.work i e) := by
  by_cases hs : s.pc = .bevs ∧ ∃ w, s.works[i]? = some w
  · obtain ⟨hpc, w, hw⟩ := hs
    simp only [step, hw, if_pos hpc]
    exact clientStartEventCb_truthful h ho hw hpc e
  · have hsame : step s (.work i e) = s := by
      simp only [step]
      split
      · exact if_neg fun hpc ↦ hs ⟨hpc, _, ‹_›⟩
      · rfl
    have hno : ∀ c, workServed s i c ≠ true := by
      intro c hc
      simp only [workServed, Bool.and_eq_true, beq_iff_eq, Option.any_eq_true] at hc
      obtain ⟨hpc, w, hw, -⟩ := hc
      exact hs ⟨hpc, w, hw⟩
    rw [hsame]
    refine ⟨fun _ ↦ ?_, fun _ ↦ h⟩
    cases e with
    | gone => trivial
    | connected => exact fun hc ↦ absurd hc (hno true)
    | message m =>
      cases m with
      | loginResp good =>
        cases good with
        | true => exact fun hc ↦ absurd hc (hno false)
        | false => trivial
      | reqWorkConn | pong | other => trivial

theorem step_truthful {s : State} (h : Truthful s) (ho : Orderly s) (hpl : Placed s) (e : Event) :
    Truthful (step s e) ↔ Honest s e := by
  cases e with
  | start cfg =>
    refine ⟨fun _ ↦ trivial, fun _ ↦ ?_⟩
    simp only [step, xfrpcLaunch]
    split_ifs <;> exact h
  | task ok => exact ⟨fun _ ↦ trivial, fun _ ↦ taskStep_truthful h ho ok⟩
  | heartbeat now =>
    refine ⟨fun _ ↦ trivial, fun _ ↦ ?_⟩
    simp only [step]
    split_ifs
    · exact heartbeatHandler_truthful h now
    · exact h
  | reconnect =>
    refine ⟨fun _ ↦ trivial, fun _ ↦ ?_⟩
    simp only [step]
    split_ifs
    · exact requestReconnect_truthful h
    · exact h
  | control c => exact control_truthful h ho hpl c
  | work i e => exact work_truthful h ho i e
  | stop i =>
    refine ⟨fun _ ↦ trivial, fun _ ↦ ?_⟩
    obtain ⟨flag, p, heq, -⟩ := xfrpcStop_eq s i
    simp only [step, heq]
    exact h

/-- The status tells the truth throughout a run if and only if every step is honest. -/
theorem truthful_iff_honest (events : List Event) :
    Always step Truthful boot events ↔ Along step Honest boot events :=
  always_iff_along_of (Q := fun s ↦ Orderly s ∧ Placed s)
    (fun s e _ _ hq ↦ ⟨step_orderly hq.1 hq.2 e, step_placed s e hq.2⟩)
    (fun _ e h hq ↦ step_truthful h hq.1 hq.2 e) (truthful_of_status rfl)
    ⟨boot_orderly, boot_placed⟩

/-- A client that has logged in. -/
def loggedIn : List Event :=
  .start ⟨false, false, 90⟩ :: List.replicate 11 (.task true) ++
    [.control (.connected true true 1), .control (.message (.loginResp true))]

/-- The server closes the control connection after the login. -/
theorem status_after_eof :
    ¬ Always step Truthful boot (loggedIn ++ [.control (.eof true)]) := by
  intro h
  have hup := (h.last rfl).1
  cases hup

def lateWork : List Event :=
  loggedIn ++ [.control (.message (.reqWorkConn true)), .control (.eof false), .work 0 .connected]

example : ¬ Truthful (lateWork.foldl step boot) := by
  intro h
  have hlogin := (h rfl).2
  cases hlogin

end Xfrpc.Lifecycle.Status
