import Xfrpc.Lifecycle.Places

namespace Xfrpc.Lifecycle.Reports

open Foundations.Runs Lifecycle.Task Lifecycle.Places

def word (trace : List Entry) : List Reported :=
  trace.filterMap fun e ↦ match e with
    | .report r => some r
    | _ => none

/-- The documented life of a client, as the trace of one run shows it. -/
structure Documented (trace : List Entry) : Prop where
  first : (word trace).head? = some .connecting
  login : ∀ pre post, trace = pre ++ .report .loginOk :: post →
    ∃ a b, pre = a ++ .report .connected :: b ∧
      Entry.report .connecting ∉ b ∧ Entry.report .reconnecting ∉ b
  reconnecting : ∀ pre post, trace = pre ++ .report .reconnecting :: post → Entry.attempt ∈ post
  last : (word trace).getLast? = some (if Entry.fatal ∈ trace then .fatal else .stopped)

def closing : Pc → Bool
  | .freeBase | .freeControl | .report => true
  | _ => false

structure Ending (s : State) : Prop where
  cleared : closing s.pc = true → ∃ t, s.trace = t ++ [.report .reconnecting]
  exited : s.pc = .exited → ∃ t r, s.trace = t ++ [.report .reconnecting, .report r]

theorem not_documented {t : List Entry} {r : Reported} :
    ¬ Documented (t ++ [.report .reconnecting, .report r]) := by
  intro h
  have hmem := h.reconnecting t [.report r] rfl
  simp at hmem

theorem ending_of_open {s : State} (h : (closing s.pc || s.pc == .exited) = false) :
    Ending s := by
  rw [Bool.or_eq_false_iff] at h
  refine ⟨fun hc ↦ ?_, fun hx ↦ ?_⟩
  · rw [h.1] at hc
    cases hc
  · rw [hx] at h
    cases h.2

theorem taskStep_ending {s : State} (h : Ending s) (hpl : Placed s) (ok : Bool) :
    Ending (taskStep s ok) := by
  have hcleared := h.cleared
  cases hpc : s.pc with
  | close =>
    have hctl := hpl.owner (.inl (hpl.base (by rw [hpc]; rfl)))
    simp only [taskStep, hpc, clearMainControl, if_pos hctl]
    refine ⟨fun _ ↦ ⟨s.trace, rfl⟩, fun hx ↦ ?_⟩
    cases hx
  | freeBase | freeControl =>
    have ht := hcleared (by rw [hpc]; rfl)
    simp only [taskStep, hpc]
    refine ⟨fun _ ↦ ht, fun hx ↦ ?_⟩
    cases hx
  | report =>
    obtain ⟨t, ht⟩ := hcleared (by rw [hpc]; rfl)
    simp only [taskStep, hpc, xfrpcReportState, ht]
    refine ⟨fun hc ↦ ?_, fun _ ↦ ⟨t, _, List.append_assoc ..⟩⟩
    cases hc
  | idle | exited | crashed =>
    simp only [taskStep, hpc]
    exact h
  | initControl | initBase | initTls | connect | top | woken | served | leave =>
    simp only [taskStep, hpc]
    split_ifs <;> exact ending_of_open rfl
  | entered | initLogin | wait | timers | bevs =>
    simp only [taskStep, hpc]
    exact ending_of_open rfl

theorem callback_ending {s : State} (h : Ending s) {e : Event} (he : e.callback = true) :
    Ending (step s e) := by
  by_cases hpc : s.pc = .timers ∨ s.pc = .bevs
  · have hs := callback_stays s he
    refine ⟨fun hc ↦ ?_, fun hx ↦ ?_⟩
    · rw [hs.pc] at hc
      rcases hpc with hpc | hpc <;> rw [hpc] at hc <;> cases hc
    · rw [hs.pc] at hx
      rcases hpc with hpc | hpc <;> rw [hpc] at hx <;> cases hx
  · rw [callback_idle (fun ht ↦ hpc (.inl ht)) (fun hb ↦ hpc (.inr hb)) he]
    exact h

theorem step_ending {s : State} (h : Ending s) (hpl : Placed s) (e : Event) :
    Ending (step s e) := by
  cases e with
  | start cfg =>
    simp only [step, xfrpcLaunch]
    split_ifs
    · exact ending_of_open rfl
    · exact h
  | task ok => exact taskStep_ending h hpl ok
  | stop i =>
    obtain ⟨flag, p, heq, -⟩ := xfrpcStop_eq s i
    simp only [step, heq]
    exact ⟨h.cleared, h.exited⟩
  | heartbeat now => exact callback_ending h rfl
  | reconnect => exact callback_ending h rfl
  | control c => exact callback_ending h rfl
  | work i e => exact callback_ending h rfl

/-- No run from a start to an exit follows the documented life: the last thing a
task reports before its final state is that it reconnects. -/
theorem no_run_documented (events : List Event) :
    Always step (fun s ↦ s.pc = .exited → ¬ Documented s.trace) boot events := by
  have hboot : Ending boot ∧ Placed boot := ⟨ending_of_open rfl, boot_placed⟩
  have hrun := always_of_step (P := fun s ↦ Ending s ∧ Placed s)
    (fun s e hs ↦ ⟨step_ending hs.1 hs.2 e, step_placed s e hs.2⟩) hboot events
  refine hrun.mono fun s h hx ↦ ?_
  obtain ⟨t, r, ht⟩ := h.1.exited hx
  rw [ht]
  exact not_documented

/-- A start and a stop while the task waits for the connection. -/
def stopped : List Event :=
  .start ⟨true, false, 90⟩ :: List.replicate 7 (.task true) ++ List.replicate 4 (.stop 0) ++
    List.replicate 7 (.task true)

theorem stopped_not_documented :
    ¬ Always step (fun s ↦ s.pc = .exited → Documented s.trace) boot stopped := by
  intro h
  have hmem := (h.last rfl).reconnecting [.report .connecting, .attempt] [.report .stopped] rfl
  simp at hmem

end Xfrpc.Lifecycle.Reports
