import Mathlib.Algebra.Ring.Nat
import Mathlib.Data.List.Induction

abbrev Xfrpc.Bytes := List UInt8

namespace Xfrpc.Foundations.BigEndian

/-- The low `k` bytes of a number, most significant first. -/
def toBe : ℕ → ℕ → Bytes
  | 0, _ => []
  | k + 1, n => toBe k (n / 256) ++ [UInt8.ofNat (n % 256)]

/-- The number a byte string spells, most significant byte first. -/
def ofBe (l : Bytes) : ℕ := l.foldl (fun n b ↦ n * 256 + b.toNat) 0

@[simp] theorem toBe_length (k n : ℕ) : (toBe k n).length = k := by
  induction k generalizing n with
  | zero => rfl
  | succ k ih => simp only [toBe, List.length_append, ih, List.length_singleton]

theorem ofBe_concat (l : Bytes) (b : UInt8) : ofBe (l ++ [b]) = ofBe l * 256 + b.toNat := by
  simp only [ofBe, List.foldl_append, List.foldl_cons, List.foldl_nil]

theorem ofBe_toBe {k n : ℕ} (h : n < 256 ^ k) : ofBe (toBe k n) = n := by
  induction k generalizing n with
  | zero =>
    have hn : n = 0 := by simpa using h
    simp [toBe, ofBe, hn]
  | succ k ih =>
    have hq : n / 256 < 256 ^ k := Nat.div_lt_of_lt_mul (by rw [← Nat.pow_succ']; exact h)
    have hb : (UInt8.ofNat (n % 256)).toNat = n % 256 :=
      UInt8.toNat_ofNat_of_lt (Nat.mod_lt n (by decide))
    rw [toBe, ofBe_concat, ih hq, hb]
    omega

theorem toBe_inj {k m n : ℕ} (hm : m < 256 ^ k) (hn : n < 256 ^ k)
    (h : toBe k m = toBe k n) : m = n := by
  rw [← ofBe_toBe hm, ← ofBe_toBe hn, h]

/-- A payload behind its own length is recovered from the front of any longer string. -/
theorem lengthThenPayload_append_inj {k : ℕ} {p q r s : Bytes} (hp : p.length < 256 ^ k)
    (hq : q.length < 256 ^ k)
    (h : toBe k p.length ++ (p ++ r) = toBe k q.length ++ (q ++ s)) : p = q ∧ r = s := by
  obtain ⟨hlen, hrest⟩ := List.append_inj h (by rw [toBe_length, toBe_length])
  exact List.append_inj hrest (toBe_inj hp hq hlen)

end Xfrpc.Foundations.BigEndian
