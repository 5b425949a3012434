import Xfrpc.Foundations.BigEndian
import Xfrpc.Foundations.Transducer

namespace Xfrpc.Crypto.Cfb

open Foundations.Transducer

/-- The CFB state of an `EVP_CIPHER_CTX`: the shift register, and how much of
the current keystream block is used up. The code does not keep `count`, the
number of bytes that have gone through. -/
structure CfbCtx where
  key : Bytes
  iv : Bytes
  ivOff : ℕ
  count : ℕ
  deriving DecidableEq, Repr

def CfbCtx.init (key iv : Bytes) : CfbCtx := ⟨key, iv, 0, 0⟩

variable (aes : Bytes → Bytes → Bytes)

def CfbCtx.refresh (c : CfbCtx) : CfbCtx :=
  if c.ivOff = 0 then { c with iv := aes c.key c.iv } else c

/-- The ciphertext byte `b` goes into the register in either direction. -/
def CfbCtx.shift (c : CfbCtx) (b : UInt8) : CfbCtx :=
  { c with iv := c.iv.set c.ivOff b, ivOff := (c.ivOff + 1) % 16, count := c.count + 1 }

def encByte (c : CfbCtx) (p : UInt8) : CfbCtx × UInt8 :=
  let r := c.refresh aes
  let b := r.iv.getD r.ivOff 0 ^^^ p
  (r.shift b, b)

def decByte (c : CfbCtx) (b : UInt8) : CfbCtx × UInt8 :=
  let r := c.refresh aes
  (r.shift b, r.iv.getD r.ivOff 0 ^^^ b)

def encrypt (c : CfbCtx) (w : Bytes) : Bytes := output (encByte aes) c w

def encryptCtx (c : CfbCtx) (w : Bytes) : CfbCtx := final (encByte aes) c w

def decrypt (c : CfbCtx) (w : Bytes) : Bytes := output (decByte aes) c w

def decryptCtx (c : CfbCtx) (w : Bytes) : CfbCtx := final (decByte aes) c w

variable {aes}

@[simp] theorem encrypt_length (c : CfbCtx) (w : Bytes) : (encrypt aes c w).length = w.length :=
  output_length _ c w

@[simp] theorem decrypt_length (c : CfbCtx) (w : Bytes) : (decrypt aes c w).length = w.length :=
  output_length _ c w

@[simp] theorem encryptCtx_nil (c : CfbCtx) : encryptCtx aes c [] = c := rfl

@[simp] theorem decryptCtx_nil (c : CfbCtx) : decryptCtx aes c [] = c := rfl

@[simp] theorem decrypt_nil (c : CfbCtx) : decrypt aes c [] = [] := rfl

theorem encrypt_append (c : CfbCtx) (u w : Bytes) :
    encrypt aes c (u ++ w) = encrypt aes c u ++ encrypt aes (encryptCtx aes c u) w :=
  output_append _ c u w

theorem encryptCtx_append (c : CfbCtx) (u w : Bytes) :
    encryptCtx aes c (u ++ w) = encryptCtx aes (encryptCtx aes c u) w :=
  final_append _ c u w

theorem decrypt_append (c : CfbCtx) (u w : Bytes) :
    decrypt aes c (u ++ w) = decrypt aes c u ++ decrypt aes (decryptCtx aes c u) w :=
  output_append _ c u w

theorem decryptCtx_append (c : CfbCtx) (u w : Bytes) :
    decryptCtx aes c (u ++ w) = decryptCtx aes (decryptCtx aes c u) w :=
  final_append _ c u w

theorem encByte_count (c : CfbCtx) (p : UInt8) : (encByte aes c p).1.count = c.count + 1 := by
  unfold encByte CfbCtx.refresh CfbCtx.shift
  split_ifs <;> rfl

theorem encryptCtx_count (c : CfbCtx) (w : Bytes) :
    (encryptCtx aes c w).count = c.count + w.length := by
  induction w generalizing c with
  | nil => rfl
  | cons p w ih =>
    have h := ih (encByte aes c p).1
    rw [encByte_count] at h
    rw [List.length_cons, ← Nat.add_assoc, Nat.add_right_comm]
    exact h

theorem decByte_inverts : Inverts (decByte aes) (encByte aes) := by
  intro c p
  simp only [decByte, encByte]
  have hx : ∀ k : UInt8, k ^^^ (k ^^^ p) = p := fun k ↦ by
    rw [← UInt8.xor_assoc, UInt8.xor_self, UInt8.zero_xor]
  rw [hx]

theorem decrypt_encrypt (c : CfbCtx) (w : Bytes) : decrypt aes c (encrypt aes c w) = w :=
  decByte_inverts.output_eq c w

theorem decryptCtx_encrypt (c : CfbCtx) (w : Bytes) :
    decryptCtx aes c (encrypt aes c w) = encryptCtx aes c w :=
  decByte_inverts.final_eq c w

end Xfrpc.Crypto.Cfb
