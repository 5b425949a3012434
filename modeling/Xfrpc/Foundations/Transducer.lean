import Mathlib.Data.List.Infix

namespace Xfrpc.Foundations.Transducer

variable {σ α β : Type}

def final (step : σ → α → σ × β) : σ → List α → σ
  | s, [] => s
  | s, a :: w => final step (step s a).1 w

def output (step : σ → α → σ × β) : σ → List α → List β
  | _, [] => []
  | s, a :: w => (step s a).2 :: output step (step s a).1 w

variable (step : σ → α → σ × β)

@[simp] theorem final_nil (s : σ) : final step s [] = s := rfl

@[simp] theorem output_nil (s : σ) : output step s [] = [] := rfl

theorem final_append (s : σ) (u w : List α) :
    final step s (u ++ w) = final step (final step s u) w := by
  induction u generalizing s with
  | nil => rfl
  | cons a u ih => exact ih (step s a).1

theorem output_append (s : σ) (u w : List α) :
    output step s (u ++ w) = output step s u ++ output step (final step s u) w := by
  induction u generalizing s with
  | nil => rfl
  | cons a u ih => simp only [List.cons_append, output, final, ih]

@[simp] theorem output_length (s : σ) (w : List α) : (output step s w).length = w.length := by
  induction w generalizing s with
  | nil => rfl
  | cons a w ih => simp only [output, List.length_cons, ih]

def outputs (step : σ → α → σ × β) : σ → List (List α) → List (List β)
  | _, [] => []
  | s, w :: ws => output step s w :: outputs step (final step s w) ws

theorem outputs_flatten (s : σ) (ws : List (List α)) :
    (outputs step s ws).flatten = output step s ws.flatten := by
  induction ws generalizing s with
  | nil => rfl
  | cons w ws ih => rw [outputs, List.flatten_cons, List.flatten_cons, output_append, ih]

theorem outputs_length (s : σ) (ws : List (List α)) :
    (outputs step s ws).map List.length = ws.map List.length := by
  induction ws generalizing s with
  | nil => rfl
  | cons w ws ih => simp only [outputs, List.map_cons, output_length, ih]

/-- A machine that reads what `step` writes, from the same state, and gives
back what `step` read. -/
def Inverts (inv : σ → β → σ × α) (step : σ → α → σ × β) : Prop :=
  ∀ s a, inv s (step s a).2 = ((step s a).1, a)

variable {step} {inv : σ → β → σ × α}

theorem Inverts.output_eq (h : Inverts inv step) (s : σ) (w : List α) :
    output inv s (output step s w) = w := by
  induction w generalizing s with
  | nil => rfl
  | cons a w ih => simp only [output, h s a, ih]

theorem Inverts.final_eq (h : Inverts inv step) (s : σ) (w : List α) :
    final inv s (output step s w) = final step s w := by
  induction w generalizing s with
  | nil => rfl
  | cons a w ih => simp only [output, final, h s a, ih]

end Xfrpc.Foundations.Transducer
