import Mathlib.Data.List.TakeWhile
import Xfrpc.Foundations.BigEndian

namespace Xfrpc.Foundations.CString

/-- What a C function reads as a string. -/
def cString (b : Bytes) : Bytes := b.takeWhile (· ≠ 0)

theorem cString_append {name t : Bytes} (h : 0 ∉ name) : cString (name ++ t) = name ++ cString t := by
  unfold cString
  induction name with
  | nil => rfl
  | cons x name ih =>
    obtain ⟨hx, hrest⟩ := not_or.mp (fun hm ↦ h (List.mem_cons.mpr hm))
    rw [List.cons_append, List.takeWhile_cons_of_pos (by simpa using Ne.symm hx), ih hrest,
      List.cons_append]

theorem zero_notMem_cString (b : Bytes) : 0 ∉ cString b := by
  intro h
  have hp := List.mem_takeWhile_imp h
  simp at hp

theorem cString_eq_nil_iff (x : UInt8) (t : Bytes) : cString (x :: t) = [] ↔ x = 0 := by
  unfold cString
  by_cases hx : x = 0
  · simp [hx]
  · simp [hx]

end Xfrpc.Foundations.CString
