import Xfrpc.Lifecycle.Places

namespace Xfrpc.Lifecycle.Stop

open Foundations.Runs Lifecycle.Task Lifecycle.Places

def checks : Pc → Bool
  | .top | .woken | .served => true
  | _ => false

/-- Once a call of `xfrpc_stop` has returned, the tests see the flag, and the task
does not begin to wait. -/
structure Heeded (s : State) : Prop where
  seen : ∀ i, s.callers i = .returned → checks s.pc = true → s.stopFlag = true
  noWait : ∀ i e, s.callers i = .returned → (step s e).pc = .wait → s.pc = .wait

/-- No call finds `main_ctl` or its base missing in a task that is still starting. -/
def Timely (s : State) : Event → Prop
  | .stop i => starting s.pc = true →
    ¬ (s.callers i = .called ∧ s.ctl = false) ∧ ¬ (s.callers i = .gotControl ∧ s.base = false)
  | _ => True

instance (s : State) (e : Event) : Decidable (Timely s e) :=
  match e with
  | .stop i => inferInstanceAs (Decidable (starting s.pc = true →
      ¬ (s.callers i = .called ∧ s.ctl = false) ∧ ¬ (s.callers i = .gotControl ∧ s.base = false)))
  | .start _ | .task _ | .heartbeat _ | .reconnect | .control _ | .work _ _ => .isTrue trivial

/-- A call that has returned has left its mark on the base, which is not made again. -/
structure Told (s : State) : Prop where
  returned : ∀ i, s.callers i = .returned →
    starting s.pc = false ∧ (s.base = true → s.stopFlag = true)
  gotBase : ∀ i, s.callers i = .gotBase → starting s.pc = false

theorem based_of_checks {pc : Pc} (h : checks pc = true) : based pc = true := by
  cases pc <;> first | rfl | cases h

theorem closeMainControl_callers (s : State) : (closeMainControl s).callers = s.callers := by
  unfold closeMainControl
  split_ifs
  · exact (clearMainControl_stays s).callers
  · rfl

theorem closeMainControl_stopFlag {s : State} (h : s.stopFlag = true) :
    (closeMainControl s).stopFlag = true := by
  unfold closeMainControl
  split_ifs
  · exact (clearMainControl_stays s).stopFlag h
  · exact h

theorem taskStep_callers (s : State) (ok : Bool) : (taskStep s ok).callers = s.callers := by
  unfold taskStep startBaseConnect
  split <;> try rfl
  · cases ok <;> rfl
  · cases ok <;> exact closeMainControl_callers s
  · cases ok <;> rfl
  · split_ifs <;> rfl
  · split_ifs <;> rfl
  · split_ifs <;> rfl
  · exact (clearMainControl_stays s).callers

theorem taskStep_starting {s : State} {ok : Bool} (h : starting (taskStep s ok).pc = true) :
    starting s.pc = true := by
  cases hpc : s.pc with
  | entered | initLogin | initControl | initBase => rfl
  | initTls | connect | top | woken | served | leave =>
    simp only [taskStep, hpc] at h
    split_ifs at h <;> cases h
  | wait | timers | bevs | close | freeBase | freeControl | report =>
    simp only [taskStep, hpc] at h
    cases h
  | idle | exited | crashed =>
    simp only [taskStep, hpc] at h
    cases h

theorem taskStep_stopFlag {s : State} {ok : Bool} (hpc : s.pc ≠ .initBase)
    (h : s.stopFlag = true) : (taskStep s ok).stopFlag = true := by
  unfold taskStep startBaseConnect
  split <;> try exact h
  · cases ok
    · exact (xfrpcFatal_stays s).stopFlag h
    · exact h
  · have hclose := closeMainControl_stopFlag h
    cases ok
    · exact (xfrpcFatal_stays _).stopFlag hclose
    · exact hclose
  · contradiction
  · split_ifs
    · exact (xfrpcFatal_stays _).stopFlag h
    · exact h
  · split_ifs
    · exact h
    · exact (xfrpcFatal_stays _).stopFlag h
    · exact h
  · split_ifs <;> exact h
  · exact (clearMainControl_stays s).stopFlag h

theorem taskStep_told {s : State} (h : Told s) (ok : Bool) : Told (taskStep s ok) := by
  have hstarting : starting s.pc = false → starting (taskStep s ok).pc = false := by
    intro hs
    by_contra hst
    rw [taskStep_starting (Bool.not_eq_false _ ▸ hst)] at hs
    cases hs
  refine ⟨fun i hi ↦ ?_, fun i hi ↦ ?_⟩
  · rw [taskStep_callers] at hi
    obtain ⟨hs, hflag⟩ := h.returned i hi
    have hpc : s.pc ≠ .initBase := by
      intro hpc
      rw [hpc] at hs
      cases hs
    refine ⟨hstarting hs, fun hb ↦ taskStep_stopFlag hpc (hflag ?_)⟩
    by_contra hno
    rw [taskStep_base hpc (Bool.not_eq_true _ ▸ hno)] at hb
    cases hb
  · rw [taskStep_callers] at hi
    exact hstarting (h.gotBase i hi)

theorem Told.stays {s t : State} (h : Told s) (ht : Stays s t) : Told t := by
  refine ⟨fun i hi ↦ ?_, fun i hi ↦ ?_⟩
  · rw [ht.callers] at hi
    rw [ht.pc, ht.base]
    exact ⟨(h.returned i hi).1, fun hb ↦ ht.stopFlag ((h.returned i hi).2 hb)⟩
  · rw [ht.callers] at hi
    rw [ht.pc]
    exact h.gotBase i hi

theorem xfrpcLaunch_told {s : State} (h : Told s) (cfg : Config) : Told (xfrpcLaunch s cfg) := by
  unfold xfrpcLaunch
  split_ifs
  · exact ⟨nofun, nofun⟩
  · exact h

theorem Told.setCaller {s : State} (h : Told s) (i : ℕ) (p : StopPc)
    (hr : p = .returned → starting s.pc = false ∧ (s.base = true → s.stopFlag = true))
    (hg : p = .gotBase → starting s.pc = false) : Told (setCaller s i p) := by
  refine ⟨fun j hj ↦ ?_, fun j hj ↦ ?_⟩
  · by_cases hji : j = i
    · exact hr (by simpa [Lifecycle.Task.setCaller, hji] using hj)
    · exact h.returned j (by simpa [Lifecycle.Task.setCaller, hji] using hj)
  · by_cases hji : j = i
    · exact hg (by simpa [Lifecycle.Task.setCaller, hji] using hj)
    · exact h.gotBase j (by simpa [Lifecycle.Task.setCaller, hji] using hj)

theorem xfrpcStop_told {s : State} (h : Told s) (hpl : Placed s) {i : ℕ}
    (ht : Timely s (.stop i)) : Told (xfrpcStop s i) := by
  unfold xfrpcStop
  cases hp : s.callers i with
  | idle =>
    dsimp only
    split_ifs
    · exact h.setCaller i .called nofun nofun
    · exact h
  | called =>
    dsimp only
    split_ifs with hc
    · exact h.setCaller i _ nofun nofun
    · refine h.setCaller i _ (fun _ ↦ ⟨?_, fun hb ↦ absurd (hpl.owner (.inl hb)) hc⟩) nofun
      by_contra hs
      exact (ht (Bool.not_eq_false _ ▸ hs)).1 ⟨hp, Bool.not_eq_true _ ▸ hc⟩
  | gotControl =>
    dsimp only
    split_ifs with hb
    · refine h.setCaller i _ nofun fun _ ↦ ?_
      by_contra hs
      rw [hpl.noBase (unbased_of_starting (Bool.not_eq_false _ ▸ hs))] at hb
      cases hb
    · refine h.setCaller i _ (fun _ ↦ ⟨?_, fun hb' ↦ absurd hb' hb⟩) nofun
      by_contra hs
      exact (ht (Bool.not_eq_false _ ▸ hs)).2 ⟨hp, Bool.not_eq_true _ ▸ hb⟩
  | gotBase =>
    have hflag : Told { s with stopFlag := s.stopFlag || s.base } := by
      apply h.stays
      exact ⟨rfl, rfl, rfl, rfl, rfl, fun hs ↦ by simp [hs]⟩
    refine hflag.setCaller i _ (fun _ ↦ ⟨h.gotBase i hp, fun hb ↦ ?_⟩) nofun
    have hb' : s.base = true := hb
    simp [hb']
  | returned => exact h

theorem step_told {s : State} {e : Event} (h : Told s) (hpl : Placed s) (ht : Timely s e) :
    Told (step s e) := by
  cases e with
  | start cfg => exact xfrpcLaunch_told h cfg
  | task ok => exact taskStep_told h ok
  | stop i => exact xfrpcStop_told h hpl ht
  | heartbeat now => exact h.stays (callback_stays s rfl)
  | reconnect => exact h.stays (callback_stays s rfl)
  | control c => exact h.stays (callback_stays s rfl)
  | work i e => exact h.stays (callback_stays s rfl)

theorem taskStep_wait {s : State} {ok : Bool} (h : (taskStep s ok).pc = .wait) :
    s.pc = .top ∧ s.stopFlag = false := by
  cases hpc : s.pc with
  | top =>
    refine ⟨rfl, ?_⟩
    by_contra hs
    have hflag : flagged s = true := by simp [flagged, Bool.not_eq_false _ ▸ hs]
    simp only [taskStep, hpc, if_pos hflag] at h
    cases h
  | initControl | initBase | initTls | connect | woken | served | leave =>
    simp only [taskStep, hpc] at h
    split_ifs at h
  | idle | entered | initLogin | wait | timers | bevs | close | freeBase | freeControl | report
  | exited | crashed =>
    simp only [taskStep, hpc] at h
    cases h

theorem Told.heeded {s : State} (h : Told s) (hpl : Placed s) : Heeded s := by
  have hseen : ∀ i, s.callers i = .returned → checks s.pc = true → s.stopFlag = true :=
    fun i hi hc ↦ (h.returned i hi).2 (hpl.base (based_of_checks hc))
  refine ⟨hseen, fun i e hi hw ↦ ?_⟩
  cases e with
  | start cfg =>
    simp only [step, xfrpcLaunch] at hw
    split_ifs at hw
    exact hw
  | task ok =>
    obtain ⟨hpc, hs⟩ := taskStep_wait hw
    rw [hseen i hi (by rw [hpc]; rfl)] at hs
    cases hs
  | stop j =>
    obtain ⟨flag, p, heq, -⟩ := xfrpcStop_eq s j
    simp only [step, heq] at hw
    exact hw
  | heartbeat now => exact (callback_stays s rfl).pc.symm.trans hw
  | reconnect => exact (callback_stays s rfl).pc.symm.trans hw
  | control c => exact (callback_stays s rfl).pc.symm.trans hw
  | work j e => exact (callback_stays s rfl).pc.symm.trans hw

/-- A stop request is heeded when it does not come before the event base is stored. -/
theorem stop_heeded_of_timely {events : List Event} (h : Along step Timely boot events) :
    Always step Heeded boot events := by
  have hboot : Told boot ∧ Placed boot := ⟨⟨nofun, nofun⟩, boot_placed⟩
  have hrun := always_of_along (P := fun s ↦ Told s ∧ Placed s)
    (fun s e hs hc ↦ ⟨step_told hs.1 hs.2 hc, step_placed s e hs.2⟩) hboot h
  exact hrun.mono fun _ hs ↦ hs.1.heeded hs.2

def sampleConfig : Config := ⟨true, false, 90⟩

/-- The task waits when it is stopped, and the loop ends. -/
theorem stop_waiting_heeded :
    Always step Heeded boot
      [.start sampleConfig, .task true, .task true, .task true, .task true, .task true, .task true,
        .task true, .stop 0, .stop 0, .stop 0, .stop 0, .task true, .task true, .task true] :=
  stop_heeded_of_timely (by decide)

/-- A stop request before `main_ctl` is allocated, and the task goes on to wait. -/
theorem early_stop_lost :
    ¬ Always step Heeded boot
      [.start sampleConfig, .stop 0, .stop 0, .task true, .task true, .task true, .task true,
        .task true, .task true] := by
  intro h
  have hflag := h.last.seen 0 rfl rfl
  cases hflag

end Xfrpc.Lifecycle.Stop
