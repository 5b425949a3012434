import Xfrpc.Foundations.BigEndian

namespace Xfrpc.Foundations.Gcm

open BigEndian

abbrev Block := BitVec 128

/-- Multiplication by `x`: the most significant bit holds the constant term. -/
def double (v : Block) : Block :=
  if v.getLsbD 0 then (v >>> 1) ^^^ (0xe1#128 <<< 120) else v >>> 1

/-- The product of the leading `n` bits of `x` with `v`. -/
def mulLoop : ℕ → Block → Block → Block
  | 0, _, _ => 0
  | n + 1, x, v => (if x.getLsbD n then v else 0) ^^^ mulLoop n x (double v)

def mul (x h : Block) : Block := mulLoop 128 x h

theorem mulLoop_xor (n : ℕ) (x y v : Block) :
    mulLoop n (x ^^^ y) v = mulLoop n x v ^^^ mulLoop n y v := by
  induction n generalizing v with
  | zero => simp [mulLoop]
  | succ n ih =>
    simp only [mulLoop, ih, BitVec.getLsbD_xor]
    have hswap : ∀ a b c d : Block, a ^^^ b ^^^ (c ^^^ d) = a ^^^ c ^^^ (b ^^^ d) := by
      intro a b c d
      ac_rfl
    rw [hswap (if x.getLsbD n then v else 0)]
    congr 1
    cases x.getLsbD n <;> cases y.getLsbD n <;> simp

theorem mul_xor (x y h : Block) : mul (x ^^^ y) h = mul x h ^^^ mul y h := mulLoop_xor 128 x y h

/-- GHASH from the block `y` on. -/
def ghash (h y : Block) (blocks : List Block) : Block :=
  blocks.foldl (fun y b ↦ mul (y ^^^ b) h) y

theorem ghash_append (h y : Block) (u v : List Block) :
    ghash h y (u ++ v) = ghash h (ghash h y u) v := List.foldl_append

theorem ghash_xor (h : Block) {y z : Block} {u v : List Block} (hl : u.length = v.length) :
    ghash h (y ^^^ z) (List.zipWith (· ^^^ ·) u v) = ghash h y u ^^^ ghash h z v := by
  induction u generalizing y z v with
  | nil =>
    obtain rfl : v = [] := List.length_eq_zero_iff.mp hl.symm
    rfl
  | cons a u ih =>
    cases v with
    | nil => simp at hl
    | cons b v =>
      have hstep : mul (y ^^^ z ^^^ (a ^^^ b)) h = mul (y ^^^ a) h ^^^ mul (z ^^^ b) h := by
        rw [← mul_xor]
        congr 1
        ac_rfl
      simp only [ghash, List.zipWith_cons_cons, List.foldl_cons] at ih ⊢
      rw [hstep]
      exact ih (by simpa using hl)

def pushByte (v : Block) (x : UInt8) : Block := (v <<< 8) ^^^ x.toBitVec.setWidth 128

theorem pushByte_xor (y z : Block) (a b : UInt8) :
    pushByte (y ^^^ z) (a ^^^ b) = pushByte y a ^^^ pushByte z b := by
  rw [pushByte, pushByte, pushByte, BitVec.shiftLeft_xor_distrib, UInt8.toBitVec_xor,
    BitVec.setWidth_xor]
  ac_rfl

def toBlock (b : Bytes) : Block := b.foldl pushByte 0

theorem foldl_pushByte_xor {u v : Bytes} (hl : u.length = v.length) (y z : Block) :
    (List.zipWith (· ^^^ ·) u v).foldl pushByte (y ^^^ z) =
      u.foldl pushByte y ^^^ v.foldl pushByte z := by
  induction u generalizing y z v with
  | nil =>
    obtain rfl : v = [] := List.length_eq_zero_iff.mp hl.symm
    rfl
  | cons a u ih =>
    cases v with
    | nil => simp at hl
    | cons b v =>
      simp only [List.zipWith_cons_cons, List.foldl_cons, pushByte_xor]
      exact ih (by simpa using hl) _ _

theorem toBlock_xor {u v : Bytes} (hl : u.length = v.length) :
    toBlock (List.zipWith (· ^^^ ·) u v) = toBlock u ^^^ toBlock v := by
  have h := foldl_pushByte_xor hl 0 0
  rw [BitVec.xor_self] at h
  exact h

def blocksOf : ℕ → Bytes → List Block
  | 0, _ => []
  | n + 1, b =>
    toBlock (b.take 16 ++ List.replicate (16 - b.length) 0) :: blocksOf n (b.drop 16)

def blocks (b : Bytes) : List Block := blocksOf ((b.length + 15) / 16) b

@[simp] theorem blocksOf_length (n : ℕ) (b : Bytes) : (blocksOf n b).length = n := by
  induction n generalizing b with
  | zero => rfl
  | succ n ih => simp [blocksOf, ih]

theorem blocksOf_xor (n : ℕ) {u v : Bytes} (hl : u.length = v.length) :
    blocksOf n (List.zipWith (· ^^^ ·) u v) =
      List.zipWith (· ^^^ ·) (blocksOf n u) (blocksOf n v) := by
  induction n generalizing u v with
  | zero => rfl
  | succ n ih =>
    have hlen : (List.zipWith (· ^^^ ·) u v).length = u.length := by
      rw [List.length_zipWith, hl, Nat.min_self]
    have hzero : List.replicate (16 - u.length) (0 : UInt8) =
        List.zipWith (· ^^^ ·) (List.replicate (16 - u.length) 0)
          (List.replicate (16 - u.length) 0) := by
      simp
    have hpad : (List.zipWith (· ^^^ ·) u v).take 16 ++ List.replicate (16 - u.length) 0 =
        List.zipWith (· ^^^ ·) (u.take 16 ++ List.replicate (16 - u.length) 0)
          (v.take 16 ++ List.replicate (16 - v.length) 0) := by
      rw [List.zipWith_append (by simp [hl]), ← hl, ← hzero, List.take_zipWith]
    have hdrop : (List.zipWith (· ^^^ ·) u v).drop 16 =
        List.zipWith (· ^^^ ·) (u.drop 16) (v.drop 16) := List.drop_zipWith
    simp only [blocksOf, hlen, hpad, hdrop, List.zipWith_cons_cons]
    rw [toBlock_xor (by simp [hl]), ih (by simp [hl])]

theorem blocks_xor {u v : Bytes} (hl : u.length = v.length) :
    blocks (List.zipWith (· ^^^ ·) u v) = List.zipWith (· ^^^ ·) (blocks u) (blocks v) := by
  have hlen : (List.zipWith (· ^^^ ·) u v).length = u.length := by
    rw [List.length_zipWith, hl, Nat.min_self]
  rw [blocks, blocks, blocks, hlen, blocksOf_xor _ hl, hl]

structure BlockCipher where
  run : Bytes → Bytes → Bytes
  run_length : ∀ key block, (run key block).length = 16

variable (E : BlockCipher)

/-- The `i`-th byte of the counter mode keystream of a message. -/
def keyByte (key nonce : Bytes) (i : ℕ) : UInt8 :=
  (E.run key (nonce ++ toBe 4 (i / 16 + 2))).getD (i % 16) 0

/-- Counter mode from the `i`-th byte of the message on. -/
def ctr (key nonce : Bytes) : ℕ → Bytes → Bytes
  | _, [] => []
  | i, b :: bs => (b ^^^ keyByte E key nonce i) :: ctr key nonce (i + 1) bs

def keystream (key nonce : Bytes) (n : ℕ) : Bytes := ctr E key nonce 0 (List.replicate n 0)

def hashKey (key : Bytes) : Block := toBlock (E.run key (List.replicate 16 0))

def lengthBlock (aad text : Bytes) : Block :=
  toBlock (toBe 8 (8 * aad.length) ++ toBe 8 (8 * text.length))

def tagOf (key nonce aad text : Bytes) : Block :=
  ghash (hashKey E key) 0 (blocks aad ++ blocks text ++ [lengthBlock aad text]) ^^^
    toBlock (E.run key (nonce ++ toBe 4 1))

def tagBytes (t : Block) : Bytes := toBe 16 t.toNat

/-- The authenticated encryption function of SP 800-38D with a 96-bit nonce. -/
def encrypt (key nonce aad pt : Bytes) : Bytes :=
  let ct := ctr E key nonce 0 pt
  ct ++ tagBytes (tagOf E key nonce aad ct)

variable {E}

@[simp] theorem ctr_length (key nonce : Bytes) (i : ℕ) (b : Bytes) :
    (ctr E key nonce i b).length = b.length := by
  induction b generalizing i with
  | nil => rfl
  | cons b bs ih => simp [ctr, ih]

@[simp] theorem keystream_length (key nonce : Bytes) (n : ℕ) :
    (keystream E key nonce n).length = n := by simp [keystream]

theorem ctr_ctr (key nonce : Bytes) (i : ℕ) (b : Bytes) :
    ctr E key nonce i (ctr E key nonce i b) = b := by
  induction b generalizing i with
  | nil => rfl
  | cons b bs ih =>
    rw [ctr, ctr, ih, UInt8.xor_assoc, UInt8.xor_self, UInt8.xor_zero]

theorem zipWith_ctr (key nonce : Bytes) (i : ℕ) (b : Bytes) :
    List.zipWith (· ^^^ ·) b (ctr E key nonce i b) =
      ctr E key nonce i (List.replicate b.length 0) := by
  induction b generalizing i with
  | nil => rfl
  | cons b bs ih =>
    rw [ctr, List.zipWith_cons_cons, ih, List.length_cons, List.replicate_succ, ctr,
      ← UInt8.xor_assoc, UInt8.xor_self]

@[simp] theorem tagBytes_length (t : Block) : (tagBytes t).length = 16 := toBe_length _ _

theorem tagBytes_injective {s t : Block} (h : tagBytes s = tagBytes t) : s = t := by
  have hs : s.toNat < 256 ^ 16 := s.isLt
  have ht : t.toNat < 256 ^ 16 := t.isLt
  have hof := congrArg ofBe h
  rw [tagBytes, tagBytes, ofBe_toBe hs, ofBe_toBe ht] at hof
  exact BitVec.eq_of_toNat_eq hof

variable (E) in
/-- The keystream of `n` bytes, as a GHASH polynomial, has the hash key as a root. -/
def Vanishes (key nonce : Bytes) (n : ℕ) : Prop :=
  ghash (hashKey E key) 0 (blocks (keystream E key nonce n) ++ [0]) = 0

instance (key nonce : Bytes) (n : ℕ) : Decidable (Vanishes E key nonce n) :=
  inferInstanceAs (Decidable (_ = _))

theorem tagOf_ctr_iff (key nonce aad pt : Bytes) :
    tagOf E key nonce aad pt = tagOf E key nonce aad (ctr E key nonce 0 pt) ↔
      Vanishes E key nonce pt.length := by
  have hlen : lengthBlock aad (ctr E key nonce 0 pt) = lengthBlock aad pt := by
    rw [lengthBlock, lengthBlock, ctr_length]
  let h := hashKey E key
  let y := ghash h 0 (blocks aad)
  let l := lengthBlock aad pt
  have hsplit : ∀ text, ghash h 0 (blocks aad ++ blocks text ++ [l]) =
      ghash h y (blocks text ++ [l]) := fun text ↦ by
    rw [List.append_assoc, ghash_append]
  have hdiff : ghash h y (blocks pt ++ [l]) ^^^ ghash h y (blocks (ctr E key nonce 0 pt) ++ [l]) =
      ghash h 0 (blocks (keystream E key nonce pt.length) ++ [0]) := by
    have hbl : (blocks pt).length = (blocks (ctr E key nonce 0 pt)).length := by
      simp [blocks]
    rw [← ghash_xor h (by simp [hbl]), BitVec.xor_self, List.zipWith_append hbl,
      ← blocks_xor (by simp), zipWith_ctr]
    simp [keystream]
  have hzero : ∀ a b : Block, a ^^^ b = 0 ↔ a = b := fun _ _ ↦ BitVec.xor_eq_zero_iff
  rw [tagOf, tagOf, hlen, hsplit, hsplit, Vanishes, ← hdiff, hzero]
  constructor
  · intro heq
    have hx := congrArg (· ^^^ toBlock (E.run key (nonce ++ toBe 4 1))) heq
    simpa [BitVec.xor_assoc] using hx
  · intro heq
    rw [heq]

end Xfrpc.Foundations.Gcm
