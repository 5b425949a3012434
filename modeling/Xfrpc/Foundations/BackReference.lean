import Mathlib.Data.List.Basic

namespace Xfrpc.Foundations.BackReference

variable {α : Type}

/-- `n` cells more, each the one `offset` cells before it. A copy that is longer than its
offset reads cells it has written itself. -/
def selfCopy (offset : ℕ) : ℕ → List α → List α
  | 0, out => out
  | n + 1, out => selfCopy offset n (out ++ (out[out.length - offset]?).toList)

theorem selfCopy_add (offset m n : ℕ) (out : List α) :
    selfCopy offset (m + n) out = selfCopy offset n (selfCopy offset m out) := by
  induction m generalizing out with
  | zero => rw [Nat.zero_add, selfCopy]
  | succ m ih => rw [Nat.add_right_comm, selfCopy, ih, selfCopy]

theorem length_snoc_back {offset : ℕ} {out : List α} (hpos : 0 < offset)
    (hle : offset ≤ out.length) :
    (out ++ (out[out.length - offset]?).toList).length = out.length + 1 := by
  rw [List.getElem?_eq_getElem (by omega), List.length_append]
  rfl

theorem selfCopy_length {offset : ℕ} (hpos : 0 < offset) (n : ℕ) {out : List α}
    (hle : offset ≤ out.length) : (selfCopy offset n out).length = out.length + n := by
  induction n generalizing out with
  | zero => rfl
  | succ n ih =>
    have hlen := length_snoc_back hpos hle
    rw [selfCopy, ih (by omega), hlen]
    omega

/-- A list that goes on from `out` and repeats at the offset is the copy. -/
theorem eq_selfCopy {offset n : ℕ} (hpos : 0 < offset) {out l : List α}
    (hle : offset ≤ out.length) (hlen : l.length = out.length + n)
    (hout : l.take out.length = out)
    (hback : ∀ j, out.length ≤ j → j < out.length + n → l[j]? = l[j - offset]?) :
    l = selfCopy offset n out := by
  induction n generalizing out with
  | zero => rwa [List.take_of_length_le (by omega)] at hout
  | succ n ih =>
    have hsnoc := length_snoc_back hpos hle
    have hcell : out[out.length - offset]? = l[out.length]? := by
      have hread : (l.take out.length)[out.length - offset]? = l[out.length - offset]? :=
        List.getElem?_take_of_lt (by omega)
      rw [hout] at hread
      rw [hback out.length (Nat.le_refl _) (by omega), hread]
    rw [selfCopy]
    apply ih
    · omega
    · omega
    · rw [hsnoc, hcell, List.take_add_one, hout]
    · intro j hj hlt
      exact hback j (by omega) (by omega)

/-- From `b` to `e` the cells repeat at the distance `d`. -/
def Periodic (l : List α) (b d e : ℕ) : Prop := ∀ j, b + d ≤ j → j < e → l[j]? = l[j - d]?

theorem Periodic.multiple {l : List α} {b d e : ℕ} (h : Periodic l b d e) (m : ℕ) {j : ℕ}
    (hb : b + m * d ≤ j) (hj : j < e) : l[j]? = l[j - m * d]? := by
  induction m generalizing j with
  | zero => rw [Nat.zero_mul, Nat.sub_zero]
  | succ m ih =>
    rw [Nat.succ_mul] at hb
    rw [h j (by omega) hj, ih (by omega) (by omega), Nat.succ_mul]
    congr 1
    omega

theorem Periodic.mono {l : List α} {b d e e' : ℕ} (h : Periodic l b d e) (he : e' ≤ e) :
    Periodic l b d e' := fun j hb hj ↦ h j hb (by omega)

/-- A copy from a multiple of the period away goes on with the period. -/
theorem Periodic.extend {l l' : List α} {b d e e' m : ℕ} (h : Periodic l b d e) (hm : 0 < m)
    (hb : b + m * d ≤ e) (hsame : ∀ j < e, l'[j]? = l[j]?)
    (hcopy : ∀ j, e ≤ j → j < e' → l'[j]? = l'[j - m * d]?) (hd : 0 < d) :
    Periodic l' b d e' := by
  have hfront : Periodic l' b d e := by
    intro j hbj hj
    rw [hsame j hj, hsame (j - d) (by omega), h j hbj hj]
  have hdm : d ≤ m * d := Nat.le_mul_of_pos_left d hm
  intro j
  induction j using Nat.strongRecOn with
  | _ j ih =>
    intro hbj hj
    by_cases hfar : j < e
    · exact hfront j hbj hfar
    rw [hcopy j (by omega) hj]
    by_cases hnear : j - d < e
    · obtain ⟨k, rfl⟩ : ∃ k, m = k + 1 := ⟨m - 1, by omega⟩
      rw [Nat.succ_mul] at hb hdm ⊢
      rw [hfront.multiple k (by omega) hnear]
      congr 1
      omega
    · have hback := ih (j - m * d) (by omega) (by omega) (by omega)
      rw [hback, hcopy (j - d) (by omega) (by omega)]
      congr 1
      omega

end Xfrpc.Foundations.BackReference
