import Xfrpc.Foundations.BigEndian

namespace Xfrpc.Snappy.Varint

/-- The bytes `varint_encode32` writes. -/
def varintEncode32 (v : ℕ) : Bytes :=
  if v < 2 ^ 7 then [.ofNat v]
  else if v < 2 ^ 14 then [.ofNat (v ||| 128), .ofNat (v >>> 7)]
  else if v < 2 ^ 21 then [.ofNat (v ||| 128), .ofNat (v >>> 7 ||| 128), .ofNat (v >>> 14)]
  else if v < 2 ^ 28 then
    [.ofNat (v ||| 128), .ofNat (v >>> 7 ||| 128), .ofNat (v >>> 14 ||| 128), .ofNat (v >>> 21)]
  else
    [.ofNat (v ||| 128), .ofNat (v >>> 7 ||| 128), .ofNat (v >>> 14 ||| 128),
      .ofNat (v >>> 21 ||| 128), .ofNat (v >>> 28)]

/-- `result | (b & 127) << shift` on 32-bit words. -/
def addDigit (shift result : ℕ) (b : UInt8) : ℕ := result ||| (b.toNat % 128) <<< shift % 2 ^ 32

/-- One of the first four bytes of `varint_parse32_with_limit`. -/
def parseDigit (shift result : ℕ) (next : ℕ → Bytes → Option (ℕ × Bytes)) :
    Bytes → Option (ℕ × Bytes)
  | [] => none
  | b :: p =>
    if b.toNat < 128 then some (addDigit shift result b, p) else next (addDigit shift result b) p

/-- Its fifth byte, which must not carry more than four bits. -/
def parseLast (result : ℕ) : Bytes → Option (ℕ × Bytes)
  | [] => none
  | b :: p => if b.toNat < 16 then some (addDigit 28 result b, p) else none

def varintParse32WithLimit (p : Bytes) : Option (ℕ × Bytes) :=
  parseDigit 0 0 (fun r p ↦ parseDigit 7 r (fun r p ↦ parseDigit 14 r (fun r p ↦
    parseDigit 21 r parseLast p) p) p) p

/-- `snappy_uncompressed_length`. -/
def snappyUncompressedLength (p : Bytes) : Option ℕ := (varintParse32WithLimit p).map Prod.fst

/-- The loop of `read_uncompressed_length`. -/
def readLoop : ℕ → ℕ → ℕ → Bytes → Option (ℕ × Bytes)
  | 0, _, _, _ => none
  | _ + 1, _, _, [] => none
  | fuel + 1, shift, result, c :: p =>
    if 32 ≤ shift then none
    else if c.toNat < 128 then some (addDigit shift result c, p)
    else readLoop fuel (shift + 7) (addDigit shift result c) p

/-- `read_uncompressed_length`; after five bytes the shift is past 32. -/
def readUncompressedLength (p : Bytes) : Option (ℕ × Bytes) := readLoop 6 0 0 p

theorem addDigit_eq {shift result : ℕ} (b : UInt8) (hr : result < 2 ^ shift)
    (hb : b.toNat % 128 * 2 ^ shift < 2 ^ 32) :
    addDigit shift result b = result + b.toNat % 128 * 2 ^ shift := by
  rw [addDigit, Nat.shiftLeft_eq, Nat.mod_eq_of_lt hb, Nat.or_comm, Nat.mul_comm,
    ← Nat.two_pow_add_eq_or_of_lt hr, Nat.add_comm]

/-- A byte with the high bit set carries seven bits. -/
theorem toNat_ofNat_or (v : ℕ) : (UInt8.ofNat (v ||| 128)).toNat = 128 + v % 128 := by
  have htable : ∀ b : Fin 256, b.val ||| 128 = 128 + b.val % 128 := by decide +kernel
  have hlow : v % 256 ||| 128 = 128 + v % 256 % 128 :=
    htable ⟨v % 256, Nat.mod_lt v (by decide)⟩
  have hmod : (v ||| 128) % 2 ^ 8 = v % 256 ||| 128 := Nat.or_mod_two_pow
  rw [UInt8.toNat_ofNat', hmod, hlow]
  omega

theorem mod_digits (v shift : ℕ) :
    v % 2 ^ shift + v >>> shift % 128 * 2 ^ shift = v % 2 ^ (shift + 7) := by
  rw [Nat.shiftRight_eq_div_pow, Nat.pow_add, Nat.mod_mul, Nat.mul_comm (2 ^ shift)]

/-- A digit of a number, read where the number lets it be: all lower digits are in. -/
theorem addDigit_of_digit {v shift : ℕ} {b : UInt8} (hs : shift ≤ 21 ∨ v < 2 ^ 32 ∧ shift = 28)
    (hb : b.toNat % 128 = v >>> shift % 128) :
    addDigit shift (v % 2 ^ shift) b = v % 2 ^ (shift + 7) := by
  have hlt : b.toNat % 128 * 2 ^ shift < 2 ^ 32 := by
    obtain hs | ⟨hv, rfl⟩ := hs
    · have hpow : 2 ^ shift ≤ 2 ^ 21 := Nat.pow_le_pow_right (by decide) hs
      have hmul := Nat.mul_le_mul (Nat.le_of_lt_succ (Nat.mod_lt b.toNat (by decide : 0 < 128))) hpow
      exact Nat.lt_of_le_of_lt hmul (by decide)
    · rw [hb, Nat.shiftRight_eq_div_pow]
      omega
  rw [addDigit_eq b (Nat.mod_lt v (Nat.two_pow_pos shift)) hlt, hb, mod_digits]

theorem parseDigit_more {v shift : ℕ} (hs : shift ≤ 21)
    (next : ℕ → Bytes → Option (ℕ × Bytes)) (p : Bytes) :
    parseDigit shift (v % 2 ^ shift) next (.ofNat (v >>> shift ||| 128) :: p) =
      next (v % 2 ^ (shift + 7)) p := by
  have hb := toNat_ofNat_or (v >>> shift)
  rw [parseDigit, if_neg (by omega), addDigit_of_digit (.inl hs) (by omega)]

theorem parseDigit_end {v shift : ℕ} (hs : shift ≤ 21) (hv : v < 2 ^ (shift + 7))
    (next : ℕ → Bytes → Option (ℕ × Bytes)) (p : Bytes) :
    parseDigit shift (v % 2 ^ shift) next (.ofNat (v >>> shift) :: p) = some (v, p) := by
  have hlt : v >>> shift < 128 := by
    rw [Nat.shiftRight_eq_div_pow]
    exact Nat.div_lt_of_lt_mul (by rwa [Nat.pow_add] at hv)
  have hb : (UInt8.ofNat (v >>> shift)).toNat = v >>> shift :=
    UInt8.toNat_ofNat_of_lt (Nat.lt_trans hlt (by decide))
  rw [parseDigit, if_pos (by omega), addDigit_of_digit (.inl hs) (by rw [hb]), Nat.mod_eq_of_lt hv]

theorem parseLast_end {v : ℕ} (hv : v < 2 ^ 32) (p : Bytes) :
    parseLast (v % 2 ^ 28) (.ofNat (v >>> 28) :: p) = some (v, p) := by
  have hlt : v >>> 28 < 16 := by
    rw [Nat.shiftRight_eq_div_pow]
    omega
  have hb : (UInt8.ofNat (v >>> 28)).toNat = v >>> 28 :=
    UInt8.toNat_ofNat_of_lt (Nat.lt_trans hlt (by decide))
  rw [parseLast, if_pos (by omega), addDigit_of_digit (.inr ⟨hv, rfl⟩) (by rw [hb]),
    Nat.mod_eq_of_lt (by omega)]

theorem varintParse32WithLimit_encode {v : ℕ} (hv : v < 2 ^ 32) (p : Bytes) :
    varintParse32WithLimit (varintEncode32 v ++ p) = some (v, p) := by
  have h0 := Nat.mod_one v
  have hs := Nat.shiftRight_zero (n := v)
  unfold varintParse32WithLimit varintEncode32
  have hmore := @parseDigit_more v 0 (by decide)
  have hend := @parseDigit_end v 0 (by decide)
  rw [Nat.pow_zero, h0, hs] at hmore hend
  split_ifs with h₁ h₂ h₃ h₄
  · exact hend h₁ _ p
  · rw [List.cons_append, hmore]
    exact parseDigit_end (by decide) h₂ _ p
  · rw [List.cons_append, hmore, List.cons_append, parseDigit_more (by decide)]
    exact parseDigit_end (by decide) h₃ _ p
  · rw [List.cons_append, hmore, List.cons_append, parseDigit_more (by decide), List.cons_append,
      parseDigit_more (by decide)]
    exact parseDigit_end (by decide) h₄ _ p
  · rw [List.cons_append, hmore, List.cons_append, parseDigit_more (by decide), List.cons_append,
      parseDigit_more (by decide), List.cons_append, parseDigit_more (by decide)]
    exact parseLast_end hv p

theorem varintEncode32_length (v : ℕ) :
    0 < (varintEncode32 v).length ∧ (varintEncode32 v).length ≤ 5 := by
  unfold varintEncode32
  split_ifs <;> simp

/-- The two readers agree on every length the strict one takes. The other one also takes a
fifth byte with more than four bits, and drops what does not fit into a word. -/
theorem readUncompressedLength_of_parse {p rest : Bytes} {n : ℕ}
    (h : varintParse32WithLimit p = some (n, rest)) : readUncompressedLength p = some (n, rest) := by
  have hdigit : ∀ {shift fuel r : ℕ} {p : Bytes} {next : ℕ → Bytes → Option (ℕ × Bytes)},
      shift < 32 → (∀ r p, next r p = some (n, rest) →
        readLoop fuel (shift + 7) r p = some (n, rest)) →
      parseDigit shift r next p = some (n, rest) →
        readLoop (fuel + 1) shift r p = some (n, rest) := by
    intro shift fuel r p next hs hnext hp
    cases p with
    | nil => cases hp
    | cons b p =>
      rw [parseDigit] at hp
      rw [readLoop, if_neg (by omega)]
      split_ifs at hp ⊢ with hb
      · exact hp
      · exact hnext _ p hp
  refine hdigit (by decide) (fun r p ↦ hdigit (by decide) fun r p ↦ hdigit (by decide) fun r p ↦
    hdigit (by decide) fun r p hp ↦ ?_) h
  cases p with
  | nil => cases hp
  | cons b p =>
    rw [parseLast] at hp
    split_ifs at hp with hb
    rw [readLoop, if_neg (by decide), if_pos (by omega)]
    exact hp

end Xfrpc.Snappy.Varint
