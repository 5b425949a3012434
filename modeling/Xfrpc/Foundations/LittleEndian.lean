import Xfrpc.Foundations.BigEndian

namespace Xfrpc.Foundations.LittleEndian

/-- The `k` low bytes of `n`, the least significant one first. -/
def toLe : ℕ → ℕ → Bytes
  | 0, _ => []
  | k + 1, n => .ofNat n :: toLe k (n / 256)

def ofLe : Bytes → ℕ
  | [] => 0
  | b :: l => b.toNat + 256 * ofLe l

@[simp] theorem toLe_length (k n : ℕ) : (toLe k n).length = k := by
  induction k generalizing n with
  | zero => rfl
  | succ k ih => rw [toLe, List.length_cons, ih]

theorem ofLe_toLe {k n : ℕ} (h : n < 256 ^ k) : ofLe (toLe k n) = n := by
  induction k generalizing n with
  | zero =>
    rw [Nat.pow_zero] at h
    rw [toLe, ofLe]
    omega
  | succ k ih =>
    rw [Nat.pow_succ] at h
    rw [toLe, ofLe, ih (by omega), UInt8.toNat_ofNat']
    omega

theorem ofLe_lt (l : Bytes) : ofLe l < 256 ^ l.length := by
  induction l with
  | nil => exact Nat.one_pos
  | cons b l ih =>
    have hb := b.toNat_lt
    rw [ofLe, List.length_cons, Nat.pow_succ]
    omega

/-- The low `k` bytes of a word are its first `k` bytes in memory. -/
theorem ofLe_mod (l : Bytes) (k : ℕ) : ofLe l % 256 ^ k = ofLe (l.take k) := by
  induction k generalizing l with
  | zero => rw [Nat.pow_zero, Nat.mod_one, List.take_zero, ofLe]
  | succ k ih =>
    cases l with
    | nil => rw [List.take_nil, ofLe, Nat.zero_mod]
    | cons b l =>
      have hb := b.toNat_lt
      have hlow : b.toNat % 256 = b.toNat := Nat.mod_eq_of_lt hb
      have hhigh : (b.toNat + 256 * ofLe l) / 256 = ofLe l := by omega
      rw [List.take_succ_cons, ofLe, ofLe, ← ih, Nat.pow_succ', Nat.mod_mul, hhigh]
      omega

theorem ofLe_inj {l m : Bytes} (hlen : l.length = m.length) (h : ofLe l = ofLe m) : l = m := by
  induction l generalizing m with
  | nil => exact (List.length_eq_zero_iff.mp hlen.symm).symm
  | cons b l ih =>
    cases m with
    | nil => cases hlen
    | cons c m =>
      have hb := b.toNat_lt
      have hc := c.toNat_lt
      rw [ofLe, ofLe] at h
      have htail := ih (Nat.succ.inj hlen) (by omega)
      have hhead : b = c := UInt8.toNat.inj (by omega)
      rw [hhead, htail]

end Xfrpc.Foundations.LittleEndian
