import Mathlib.Data.Nat.Notation

namespace Xfrpc.Foundations.Fallible

variable {ε α β : Type}

/-- A computation ends in a value that `P` holds of, or in an error that `Q` holds of. -/
def Outcome (P : α → Prop) (Q : ε → Prop) : Except ε α → Prop
  | .ok a => P a
  | .error e => Q e

namespace Outcome

variable {P P' : α → Prop} {Q Q' : ε → Prop}

@[simp] theorem ok_iff {a : α} : Outcome P Q (.ok a) ↔ P a := Iff.rfl

@[simp] theorem error_iff {e : ε} : Outcome P Q (.error e : Except ε α) ↔ Q e := Iff.rfl

theorem mono (hP : ∀ a, P a → P' a) (hQ : ∀ e, Q e → Q' e) {x : Except ε α}
    (h : Outcome P Q x) : Outcome P' Q' x := by
  cases x with
  | ok a => exact hP a h
  | error e => exact hQ e h

theorem imp (hP : ∀ a, P a → P' a) {x : Except ε α} (h : Outcome P Q x) : Outcome P' Q x :=
  h.mono hP fun _ hq ↦ hq

/-- The value of a sequence may rest on the value of its first part. -/
theorem bind {R : β → Prop} {x : Except ε α} {f : α → Except ε β} (h : Outcome P Q x)
    (hf : ∀ a, x = .ok a → P a → Outcome R Q (f a)) : Outcome R Q (x >>= f) := by
  cases x with
  | ok a => exact hf a rfl h
  | error e => exact h

theorem value {x : Except ε α} {a : α} (h : Outcome P Q x) (ha : x = .ok a) : P a := by
  rwa [ha] at h

theorem map {R : β → Prop} {x : Except ε α} {g : α → β} (h : Outcome P Q x)
    (hg : ∀ a, P a → R (g a)) : Outcome R Q (x.map g) := by
  cases x with
  | ok a => exact hg a h
  | error e => exact h

end Outcome

theorem bind_eq_ok {x : Except ε α} {f : α → Except ε β} {b : β} :
    x >>= f = .ok b ↔ ∃ a, x = .ok a ∧ f a = .ok b := by
  cases x with
  | ok a =>
    constructor
    · intro h
      exact ⟨a, rfl, h⟩
    · rintro ⟨a', ha, h⟩
      cases ha
      exact h
  | error e =>
    constructor
    · intro h
      cases h
    · rintro ⟨a, ha, -⟩
      cases ha

@[simp] theorem ok_bind (a : α) (f : α → Except ε β) : (Except.ok a >>= f) = f a := rfl

@[simp] theorem error_bind (e : ε) (f : α → Except ε β) : (Except.error e >>= f) = .error e := rfl

end Xfrpc.Foundations.Fallible
