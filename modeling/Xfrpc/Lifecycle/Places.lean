import Xfrpc.Lifecycle.Task

namespace Xfrpc.Lifecycle.Places

open Foundations.Runs Lifecycle.Task

def starting : Pc → Bool
  | .entered | .initLogin | .initControl | .initBase => true
  | _ => false

def unbased : Pc → Bool
  | .idle | .freeControl | .report | .exited => true
  | pc => starting pc

def based : Pc → Bool
  | .initTls | .top | .wait | .woken | .timers | .served | .bevs | .leave | .close | .freeBase => true
  | _ => false

/-- What the place of the task says of `main_ctl` and its event base. -/
structure Placed (s : State) : Prop where
  noBase : unbased s.pc = true → s.base = false
  base : based s.pc = true → s.base = true
  control : s.pc = .connect → s.ctl = true → s.base = true
  owner : s.base = true ∨ s.pc = .initBase → s.ctl = true

theorem unbased_of_starting {pc : Pc} (h : starting pc = true) : unbased pc = true := by
  cases pc <;> first | rfl | cases h

theorem closeMainControl_base {s : State} (h : s.base = false) :
    (closeMainControl s).base = false := by
  unfold closeMainControl
  split_ifs
  · rfl
  · exact h

theorem closeMainControl_ctl (s : State) : (closeMainControl s).ctl = false := by
  unfold closeMainControl
  split_ifs with hctl
  · rfl
  · exact Bool.not_eq_true _ ▸ hctl

theorem taskStep_base {s : State} {ok : Bool} (hpc : s.pc ≠ .initBase) (h : s.base = false) :
    (taskStep s ok).base = false := by
  unfold taskStep startBaseConnect
  split <;> try exact h
  · cases ok <;> exact h
  · have hclose := closeMainControl_base h
    cases ok <;> exact hclose
  · contradiction
  · split_ifs
    · rfl
    · exact h
  · split_ifs <;> exact h
  · split_ifs <;> exact h
  · exact (clearMainControl_stays s).base.trans h
  · rfl

theorem taskStep_unbased {s : State} {ok : Bool} (h : unbased (taskStep s ok).pc = true) :
    unbased s.pc = true ∧ s.pc ≠ .initBase ∨ s.pc = .freeBase := by
  cases hpc : s.pc with
  | idle | entered | initLogin | initControl | freeControl | report | exited => simp [unbased, starting]
  | freeBase => exact .inr rfl
  | initBase | initTls | connect | top | woken | served | leave =>
    simp only [taskStep, hpc] at h
    split_ifs at h <;> cases h
  | wait | timers | bevs | close | crashed =>
    simp only [taskStep, hpc] at h
    cases h

theorem taskStep_based {s : State} {ok : Bool} (h : Placed s)
    (hl : based (taskStep s ok).pc = true) : (taskStep s ok).base = true := by
  have hbase := h.base
  cases hpc : s.pc with
  | initBase =>
    cases ok
    · simp only [taskStep, hpc] at hl
      cases hl
    · simp only [taskStep, hpc]
      rfl
  | connect =>
    have hctl : s.ctl = true := by
      by_contra hctl
      simp only [taskStep, hpc, if_neg hctl] at hl
      cases hl
    have hb := h.control hpc hctl
    simp only [taskStep, hpc, if_pos hctl]
    cases ok <;> exact hb
  | top | wait | woken | timers | served | bevs | leave =>
    have hb := hbase (by rw [hpc]; rfl)
    simp only [taskStep, hpc]
    try split_ifs
    all_goals exact hb
  | close =>
    have hb := hbase (by rw [hpc]; rfl)
    simp only [taskStep, hpc]
    exact (clearMainControl_stays s).base.trans hb
  | initControl | initTls =>
    simp only [taskStep, hpc] at hl
    split_ifs at hl <;> cases hl
  | idle | entered | initLogin | freeBase | freeControl | report | exited | crashed =>
    simp only [taskStep, hpc] at hl
    cases hl

theorem taskStep_connect {s : State} {ok : Bool} (h : Placed s) (hc : (taskStep s ok).pc = .connect)
    (hctl : (taskStep s ok).ctl = true) : (taskStep s ok).base = true := by
  have hbase := h.base
  cases hpc : s.pc with
  | initControl =>
    cases ok
    · have hno := closeMainControl_ctl s
      simp only [taskStep, hpc] at hctl
      exact absurd hctl (by simpa [xfrpcFatal] using hno)
    · simp only [taskStep, hpc] at hc
      cases hc
  | initBase =>
    cases ok
    · simp only [taskStep, hpc] at hctl
      cases hctl
    · simp only [taskStep, hpc] at hc
      cases hc
  | initTls =>
    have hb := hbase (by rw [hpc]; rfl)
    simp only [taskStep, hpc] at hctl ⊢
    split_ifs with htls
    · rw [if_pos htls] at hctl
      cases hctl
    · exact hb
  | leave =>
    simp only [taskStep, hpc]
    exact hbase (by rw [hpc]; rfl)
  | connect | top | woken | served =>
    simp only [taskStep, hpc] at hc
    split_ifs at hc
  | idle | entered | initLogin | wait | timers | bevs | close | freeBase | freeControl | report
  | exited | crashed =>
    simp only [taskStep, hpc] at hc
    cases hc

theorem taskStep_owner {s : State} {ok : Bool} (h : Placed s)
    (hb : (taskStep s ok).base = true ∨ (taskStep s ok).pc = .initBase) :
    (taskStep s ok).ctl = true := by
  have howner := h.owner
  have hno := h.noBase
  cases hpc : s.pc with
  | initControl =>
    have hclose := closeMainControl_base (hno (by rw [hpc]; rfl))
    cases ok
    · simp only [taskStep, hpc] at hb
      simp [xfrpcFatal, hclose] at hb
    · simp only [taskStep, hpc]
      rfl
  | initBase =>
    have hctl := howner (.inr hpc)
    cases ok
    · have hbase := hno (by rw [hpc]; rfl)
      simp only [taskStep, hpc] at hb
      simp [xfrpcFatal, freeMainControl, hbase] at hb
    · simp only [taskStep, hpc]
      exact hctl
  | initTls =>
    simp only [taskStep, hpc] at hb ⊢
    split_ifs at hb ⊢
    · simp [xfrpcFatal, freeMainControl, freeEventBase] at hb
    · exact howner (.inl (by simpa using hb))
  | connect =>
    simp only [taskStep, hpc, startBaseConnect] at hb ⊢
    split_ifs at hb ⊢ with hctl hok
    · exact hctl
    · exact hctl
    · exact howner (.inl (by simpa using hb))
  | close =>
    have hstays := clearMainControl_stays s
    simp only [taskStep, hpc, hstays.ctl, hstays.base] at hb ⊢
    exact howner (.inl (by simpa using hb))
  | freeBase =>
    simp only [taskStep, hpc] at hb
    simp [freeEventBase] at hb
  | freeControl =>
    have hbase := hno (by rw [hpc]; rfl)
    simp only [taskStep, hpc] at hb
    simp [freeMainControl, hbase] at hb
  | initLogin =>
    cases ok <;> simp only [taskStep, hpc] at hb ⊢ <;>
      exact howner (.inl (by simpa [xfrpcFatal] using hb))
  | top | woken | served | leave =>
    simp only [taskStep, hpc] at hb ⊢
    split_ifs at hb ⊢ <;> exact howner (.inl (by simpa using hb))
  | idle | entered | wait | timers | bevs | report | exited | crashed =>
    simp only [taskStep, hpc] at hb ⊢
    exact howner (.inl (by simpa [hpc, xfrpcReportState] using hb))

theorem taskStep_placed {s : State} (h : Placed s) (ok : Bool) : Placed (taskStep s ok) := by
  refine ⟨fun hu ↦ ?_, taskStep_based h, taskStep_connect h, taskStep_owner h⟩
  rcases taskStep_unbased hu with ⟨hs, hpc⟩ | hpc
  · exact taskStep_base hpc (h.noBase hs)
  · simp only [taskStep, hpc]
    rfl

theorem Placed.stays {s t : State} (h : Placed s) (ht : Stays s t) : Placed t := by
  refine ⟨fun hu ↦ ?_, fun hb ↦ ?_, fun hc hctl ↦ ?_, fun hb ↦ ?_⟩
  · rw [ht.pc] at hu
    exact ht.base.trans (h.noBase hu)
  · rw [ht.pc] at hb
    exact ht.base.trans (h.base hb)
  · rw [ht.pc] at hc
    rw [ht.ctl] at hctl
    exact ht.base.trans (h.control hc hctl)
  · rw [ht.base, ht.pc] at hb
    exact ht.ctl.trans (h.owner hb)

theorem xfrpcLaunch_placed {s : State} (h : Placed s) (cfg : Config) :
    Placed (xfrpcLaunch s cfg) := by
  unfold xfrpcLaunch
  split_ifs with hpc
  · have hbase : s.base = false := by
      rcases hpc with hpc | hpc <;> exact h.noBase (by rw [hpc]; rfl)
    refine ⟨fun _ ↦ hbase, nofun, nofun, fun hb ↦ ?_⟩
    rcases hb with hb | hb
    · exact h.owner (.inl hb)
    · cases hb
  · exact h

theorem step_placed (s : State) (e : Event) (h : Placed s) : Placed (step s e) := by
  cases e with
  | start cfg => exact xfrpcLaunch_placed h cfg
  | task ok => exact taskStep_placed h ok
  | stop i =>
    obtain ⟨flag, p, heq, -⟩ := xfrpcStop_eq s i
    simp only [step, heq]
    exact ⟨h.noBase, h.base, h.control, h.owner⟩
  | heartbeat now => exact h.stays (callback_stays s rfl)
  | reconnect => exact h.stays (callback_stays s rfl)
  | control c => exact h.stays (callback_stays s rfl)
  | work i e => exact h.stays (callback_stays s rfl)

theorem boot_placed : Placed boot := ⟨fun _ ↦ rfl, nofun, nofun, by simp [boot]⟩

end Xfrpc.Lifecycle.Places
