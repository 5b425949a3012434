import Xfrpc.Crypto.Cfb

namespace Xfrpc.Crypto.Coder

open Cfb

/-- What the client takes from mbedtls and from the random number generator:
the block cipher, PBKDF2-HMAC-SHA1 with 64 rounds, AES-256-GCM, and the answer
to the `n`-th request for a block of random bytes. -/
structure Primitives where
  aes : Bytes → Bytes → Bytes
  pbkdf2 : Bytes → Bytes → Bytes
  gcmSeal : Bytes → Bytes → Bytes → Bytes → Bytes
  gcmOpen : Bytes → Bytes → Bytes → Bytes → Option Bytes
  randBytes : ℕ → Bytes
  randBytes_length : ∀ n, (randBytes n).length = 16
  gcmSeal_length : ∀ key nonce aad pt, (gcmSeal key nonce aad pt).length = pt.length + 16
  gcmOpen_seal : ∀ key nonce aad pt, gcmOpen key nonce aad (gcmSeal key nonce aad pt) = some pt

/-- Primitives small enough to compute with. -/
def toyPrimitives : Primitives where
  aes key block := List.zipWith (· + ·) key block
  pbkdf2 _ _ := List.replicate 16 7
  gcmSeal _ _ _ pt := pt ++ List.replicate 16 0
  gcmOpen _ _ _ ct := some (ct.take (ct.length - 16))
  randBytes n := List.replicate 16 (.ofNat n)
  randBytes_length _ := List.length_replicate
  gcmSeal_length _ _ _ _ := by simp
  gcmOpen_seal _ _ _ _ := by simp

structure FrpCoder where
  key : Bytes
  iv : Bytes
  ivSent : Bool
  deriving DecidableEq, Repr

structure CryptoState where
  mainEncoder : Option FrpCoder
  mainDecoder : Option FrpCoder
  encCtx : Option CfbCtx
  decCtx : Option CfbCtx
  draws : ℕ
  deriving DecidableEq, Repr

def CryptoState.start : CryptoState := ⟨none, none, none, none, 0⟩

def defaultSalt : Bytes := [0x66, 0x72, 0x70]

variable (P : Primitives) (authToken : Option Bytes)

def sessionKey : Bytes := P.pbkdf2 (authToken.getD []) defaultSalt

def newCoder (draw : ℕ) : FrpCoder :=
  { key := sessionKey P authToken, iv := P.randBytes draw, ivSent := false }

def initMainEncoder (s : CryptoState) : CryptoState :=
  let coder := match s.mainDecoder with
    | some d => { d with iv := P.randBytes s.draws, ivSent := false }
    | none => newCoder P authToken s.draws
  { s with mainEncoder := some coder, encCtx := none, draws := s.draws + 1 }

def initMainDecoder (s : CryptoState) (iv : Bytes) : CryptoState :=
  { s with
    mainDecoder := some { newCoder P authToken s.draws with iv := iv.take 16 }
    decCtx := none
    draws := s.draws + 1 }

def encryptData (s : CryptoState) (src : Bytes) : CryptoState × Bytes :=
  match s.mainEncoder with
  | none => (s, [])
  | some e =>
    let ctx := s.encCtx.getD (.init e.key e.iv)
    ({ s with encCtx := some (encryptCtx P.aes ctx src) }, encrypt P.aes ctx src)

def decryptData (s : CryptoState) (src : Bytes) : CryptoState × Bytes :=
  match s.mainDecoder with
  | none => (s, [])
  | some d =>
    let ctx := s.decCtx.getD (.init d.key d.iv)
    ({ s with decCtx := some (decryptCtx P.aes ctx src) }, decrypt P.aes ctx src)

/-- Both coders work with the session key, which `init_main_encoder` relies on
when it clones the decoder. -/
structure Keyed (s : CryptoState) : Prop where
  encoder : ∀ e, s.mainEncoder = some e → e.key = sessionKey P authToken
  decoder : ∀ d, s.mainDecoder = some d → d.key = sessionKey P authToken

variable {P authToken}

theorem start_keyed : Keyed P authToken .start := ⟨nofun, nofun⟩

theorem initMainEncoder_spec {s : CryptoState} (h : Keyed P authToken s) :
    (initMainEncoder P authToken s).mainEncoder =
      some ⟨sessionKey P authToken, P.randBytes s.draws, false⟩ ∧
      (initMainEncoder P authToken s).encCtx = none ∧
      (initMainEncoder P authToken s).mainDecoder = s.mainDecoder := by
  unfold initMainEncoder
  cases hd : s.mainDecoder with
  | none => exact ⟨rfl, rfl, rfl⟩
  | some d => exact ⟨by simp [h.decoder d hd], rfl, rfl⟩

theorem initMainEncoder_keyed {s : CryptoState} (h : Keyed P authToken s) :
    Keyed P authToken (initMainEncoder P authToken s) := by
  obtain ⟨he, -, hd⟩ := initMainEncoder_spec h
  refine ⟨fun e h' ↦ ?_, fun d h' ↦ h.decoder d (hd ▸ h')⟩
  rw [he, Option.some.injEq] at h'
  rw [← h']

theorem encryptData_keyed {s : CryptoState} (h : Keyed P authToken s) (src : Bytes) :
    Keyed P authToken (encryptData P s src).1 := by
  unfold encryptData
  split
  · exact h
  · exact ⟨h.encoder, h.decoder⟩

theorem encryptData_length {s : CryptoState} {e : FrpCoder} (h : s.mainEncoder = some e)
    (src : Bytes) : (encryptData P s src).2.length = src.length := by
  simp only [encryptData, h, encrypt_length]

end Xfrpc.Crypto.Coder
