import Mathlib.Data.List.Infix

namespace Xfrpc.Foundations.Runs

variable {σ ε : Type}

/-- Every step of a run meets `C`, which sees the state before the step. -/
def Along (step : σ → ε → σ) (C : σ → ε → Prop) : σ → List ε → Prop
  | _, [] => True
  | s, e :: es => C s e ∧ Along step C (step s e) es

/-- `P` holds in every state of a run, the first and the last included. -/
def Always (step : σ → ε → σ) (P : σ → Prop) : σ → List ε → Prop
  | s, [] => P s
  | s, e :: es => P s ∧ Always step P (step s e) es

variable {step : σ → ε → σ} {C : σ → ε → Prop} {P : σ → Prop}

instance [∀ s e, Decidable (C s e)] : ∀ (s : σ) (es : List ε), Decidable (Along step C s es)
  | _, [] => .isTrue trivial
  | s, e :: es =>
    have := instDecidableAlong (step s e) es
    inferInstanceAs (Decidable (C s e ∧ Along step C (step s e) es))

instance [∀ s, Decidable (P s)] : ∀ (s : σ) (es : List ε), Decidable (Always step P s es)
  | s, [] => inferInstanceAs (Decidable (P s))
  | s, e :: es =>
    have := instDecidableAlways (step s e) es
    inferInstanceAs (Decidable (P s ∧ Always step P (step s e) es))

theorem Always.first {s : σ} {es : List ε} (h : Always step P s es) : P s := by
  cases es with
  | nil => exact h
  | cons e es => exact h.1

theorem Always.last {s : σ} {es : List ε} (h : Always step P s es) : P (es.foldl step s) := by
  induction es generalizing s with
  | nil => exact h
  | cons e es ih => exact ih h.2

theorem Always.along {s : σ} {es : List ε} (h : Always step P s es) :
    Along step (fun s e ↦ P (step s e)) s es := by
  induction es generalizing s with
  | nil => trivial
  | cons e es ih => exact ⟨h.2.first, ih h.2⟩

theorem Always.mono {Q : σ → Prop} {s : σ} {es : List ε} (h : Always step P s es)
    (hpq : ∀ s, P s → Q s) : Always step Q s es := by
  induction es generalizing s with
  | nil => exact hpq s h
  | cons e es ih => exact ⟨hpq s h.1, ih h.2⟩

theorem Always.each {s : σ} {es : List ε} (h : Always step P s es)
    (hpc : ∀ s e, P s → C s e) : Along step C s es := by
  induction es generalizing s with
  | nil => trivial
  | cons e es ih => exact ⟨hpc s e h.1, ih h.2⟩

theorem Always.and {Q : σ → Prop} {s : σ} {es : List ε} (h : Always step P s es)
    (hstep : ∀ s e, P s → P (step s e) → Q s → Q (step s e)) (hs : Q s) :
    Always step (fun s ↦ P s ∧ Q s) s es := by
  induction es generalizing s with
  | nil => exact ⟨h, hs⟩
  | cons e es ih => exact ⟨⟨h.1, hs⟩, ih h.2 (hstep s e h.1 h.2.first hs)⟩

theorem always_of_along (hstep : ∀ s e, P s → C s e → P (step s e)) {s : σ} (hs : P s)
    {es : List ε} (h : Along step C s es) : Always step P s es := by
  induction es generalizing s with
  | nil => exact hs
  | cons e es ih => exact ⟨hs, ih (hstep s e hs h.1) h.2⟩

theorem always_of_step (hstep : ∀ s e, P s → P (step s e)) {s : σ} (hs : P s) (es : List ε) :
    Always step P s es := by
  induction es generalizing s with
  | nil => exact hs
  | cons e es ih => exact ⟨hs, ih (hstep s e hs)⟩

theorem always_iff_along (hstep : ∀ s e, P s → (P (step s e) ↔ C s e)) {s : σ} (hs : P s)
    {es : List ε} : Always step P s es ↔ Along step C s es := by
  refine ⟨fun h ↦ ?_, always_of_along (fun s e hp ↦ (hstep s e hp).mpr) hs⟩
  induction es generalizing s with
  | nil => trivial
  | cons e es ih => exact ⟨(hstep s e hs).mp h.2.first, ih h.2.first h.2⟩

theorem always_iff_along_of {Q : σ → Prop} (hinv : ∀ s e, P s → P (step s e) → Q s → Q (step s e))
    (hstep : ∀ s e, P s → Q s → (P (step s e) ↔ C s e)) {s : σ} (hs : P s) (hq : Q s)
    {es : List ε} : Always step P s es ↔ Along step C s es := by
  have hiff : Always step (fun s ↦ P s ∧ Q s) s es ↔ Along step C s es :=
    always_iff_along (fun s e h ↦ ⟨fun hp ↦ (hstep s e h.1 h.2).mp hp.1, fun hc ↦
      have hp := (hstep s e h.1 h.2).mpr hc
      ⟨hp, hinv s e h.1 hp h.2⟩⟩) ⟨hs, hq⟩
  exact ⟨fun h ↦ hiff.mp (h.and hinv hq), fun h ↦ (hiff.mpr h).mono fun _ hp ↦ hp.1⟩

theorem always_iff_along_on {Q : σ → Prop} {A : ε → Prop} (hinv : ∀ s e, Q s → Q (step s e))
    (hstep : ∀ s e, A e → P s → Q s → (P (step s e) ↔ C s e)) {s : σ} (hs : P s) (hq : Q s)
    {es : List ε} (ha : ∀ e ∈ es, A e) : Always step P s es ↔ Along step C s es := by
  induction es generalizing s with
  | nil => exact ⟨fun _ ↦ trivial, fun _ ↦ hs⟩
  | cons e es ih =>
    have hiff := hstep s e (ha e List.mem_cons_self) hs hq
    have htail := fun e' he' ↦ ha e' (List.mem_cons_of_mem e he')
    constructor
    · intro h
      exact ⟨hiff.mp h.2.first, (ih h.2.first (hinv s e hq) htail).mp h.2⟩
    · intro h
      exact ⟨hs, (ih (hiff.mpr h.1) (hinv s e hq) htail).mpr h.2⟩

theorem along_append {s : σ} {es es' : List ε} :
    Along step C s (es ++ es') ↔ Along step C s es ∧ Along step C (es.foldl step s) es' := by
  induction es generalizing s with
  | nil => exact (and_iff_right trivial).symm
  | cons e es ih => exact (and_congr_right fun _ ↦ ih).trans and_assoc.symm

theorem along_map {ι : Type} (f : ι → ε) {s : σ} {is : List ι} :
    Along step C s (is.map f) ↔ Along (fun s i ↦ step s (f i)) (fun s i ↦ C s (f i)) s is := by
  induction is generalizing s with
  | nil => exact Iff.rfl
  | cons i is ih => exact and_congr_right fun _ ↦ ih

theorem along_of_splits {s : σ} {es : List ε}
    (h : ∀ pre e post, es = pre ++ e :: post → C (pre.foldl step s) e) : Along step C s es := by
  induction es generalizing s with
  | nil => trivial
  | cons e es ih =>
    refine ⟨h [] e es rfl, ih fun pre e' post hes ↦ ?_⟩
    exact h (e :: pre) e' post (by rw [hes]; rfl)

end Xfrpc.Foundations.Runs
