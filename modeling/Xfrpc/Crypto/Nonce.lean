import Mathlib.Data.List.Pairwise
import Mathlib.Data.Nat.ModEq
import Xfrpc.Crypto.Aead

namespace Xfrpc.Crypto.Nonce

open Foundations.BigEndian Coder Aead

/-- What can fail inside `aead_writer_seal` before the nonce moves. -/
structure SealEnv where
  ctAlloc : Bool
  cipher : Bool
  bufAlloc : Bool
  deriving DecidableEq, Repr

variable (P : Primitives)

/-- `aead_writer_seal` with its failures. -/
def aeadWriterSealIn (w : AeadWriter) (env : SealEnv) (pt : Bytes) : AeadWriter × Option Bytes :=
  if pt.length = 0 ∨ pt.length > maxPayload then (w, none)
  else if env.ctAlloc = false then (w, none)
  else if env.cipher = false then (w, none)
  else if env.bufAlloc = false then (w, none)
  else if (incrementNonce w.nonce).2 then
    ({ w.advance with frameCount := w.frameCount + 1 }, some (w.sealed P pt))
  else (w.advance, none)

theorem aeadWriterSealIn_ok (w : AeadWriter) (pt : Bytes) :
    aeadWriterSealIn P w ⟨true, true, true⟩ pt = aeadWriterSeal P w pt := by
  simp [aeadWriterSealIn, aeadWriterSeal]

/-- One call on a writer: how its surroundings answer, and the plaintext. -/
abbrev Call := SealEnv × Bytes

variable {P}

end Xfrpc.Crypto.Nonce
