import Xfrpc.Crypto.Coder
import Xfrpc.Foundations.Gcm

namespace Xfrpc.Crypto.Evp

open Foundations.BigEndian Foundations.Gcm Coder
open Cfb hiding encrypt

inductive MbedtlsMode
  | encrypt
  | decrypt
  deriving DecidableEq, Repr

/-- An mbedtls GCM context: the additional data so far, how far the keystream
has been used, and the bytes the tag is going to authenticate. -/
structure GcmContext where
  key : Bytes
  mode : MbedtlsMode
  iv : Bytes
  ad : Bytes
  used : ℕ
  auth : Bytes
  deriving DecidableEq, Repr

def GcmContext.init : GcmContext := ⟨[], .encrypt, [], [], 0, []⟩

variable (E : BlockCipher)

def gcmSetkey (g : GcmContext) (key : Bytes) : GcmContext := { g with key }

def gcmStarts (g : GcmContext) (mode : MbedtlsMode) (iv : Bytes) : GcmContext :=
  { g with mode, iv, ad := [], used := 0, auth := [] }

def gcmUpdateAd (g : GcmContext) (ad : Bytes) : GcmContext := { g with ad := g.ad ++ ad }

/-- `mbedtls_gcm_update`: the keystream is added in both modes, and the tag is
taken over the output when encrypting and over the input when decrypting. -/
def gcmUpdate (g : GcmContext) (input : Bytes) : GcmContext × Bytes :=
  let output := ctr E g.key g.iv g.used input
  ({ g with
      used := g.used + input.length
      auth := g.auth ++ match g.mode with
        | .encrypt => output
        | .decrypt => input }, output)

def gcmFinish (g : GcmContext) : Bytes := tagBytes (tagOf E g.key g.iv g.ad g.auth)

inductive CipherId
  | aes128Cfb
  | aes256Gcm
  deriving DecidableEq, Repr

/-- `EVP_CIPHER_CTX` of the port. -/
structure EvpCipherCtx where
  cipherId : Option CipherId
  direction : Bool
  finished : Bool
  cfb : CfbCtx
  gcm : GcmContext
  gcmTag : Bytes
  gcmTagSet : Bool
  gcmStarted : Bool
  deriving DecidableEq, Repr

def EvpCipherCtx.new : EvpCipherCtx :=
  { cipherId := none, direction := false, finished := false, cfb := .init [] []
    gcm := .init, gcmTag := [], gcmTagSet := false, gcmStarted := false }

def gcmTagLen : ℕ := 16
def gcmIvLen : ℕ := 12

def evpCfbInit (c : EvpCipherCtx) (direction : Bool) (key iv : Option Bytes) :
    Option EvpCipherCtx :=
  match key, iv with
  | some key, some iv => some { c with cfb := .init key iv, direction }
  | _, _ => none

/-- `evp_gcm_init`, with the mode it asks mbedtls for. -/
def evpGcmInit (c : EvpCipherCtx) (direction : Bool) (key iv : Option Bytes) :
    Option EvpCipherCtx :=
  match key, iv with
  | some key, some iv =>
    let gcm := gcmStarts (gcmSetkey c.gcm key) (if direction then .decrypt else .encrypt)
      (iv.take gcmIvLen)
    some { c with gcm, gcmStarted := true, direction }
  | none, none => some c
  | _, _ => none

def evpInit (c₀ : EvpCipherCtx) (direction : Bool) (cipher : Option CipherId)
    (key iv : Option Bytes) : Option EvpCipherCtx :=
  if cipher.isSome ∧ c₀.cipherId.isSome ∧ c₀.cipherId ≠ cipher then none
  else
    let c := if cipher.isSome then
        { c₀ with cipherId := cipher, finished := false, gcmTagSet := false, gcmStarted := false }
      else c₀
    if key.isNone ∧ iv.isNone then some c
    else
      match c.cipherId with
      | some .aes128Cfb => evpCfbInit c direction key iv
      | some .aes256Gcm => evpGcmInit c direction key iv
      | none => none

def evpEncryptInit (c : EvpCipherCtx) := evpInit c true

def evpDecryptInit (c : EvpCipherCtx) := evpInit c false

/-- The GCM branch of `EVP_EncryptUpdate`; without an output buffer the input
is additional data. -/
def evpGcmUpdate (c : EvpCipherCtx) (out : Bool) (input : Bytes) : EvpCipherCtx × Bytes :=
  if out = false then
    if input.length = 0 then (c, []) else ({ c with gcm := gcmUpdateAd c.gcm input }, [])
  else if input.length = 0 then (c, [])
  else
    let (gcm, output) := gcmUpdate E c.gcm input
    ({ c with gcm }, output)

/-- `EVP_EncryptUpdate`; `inl` is the length as an `int`. -/
def evpEncryptUpdate (c : EvpCipherCtx) (out : Bool) (input : Bytes) (inl : ℤ) :
    Option (EvpCipherCtx × Bytes) :=
  if inl < 0 then none
  else
    let data := input.take inl.toNat
    match c.cipherId with
    | some .aes128Cfb =>
      if out then
        some ({ c with cfb := encryptCtx E.run c.cfb data }, Cfb.encrypt E.run c.cfb data)
      else none
    | some .aes256Gcm => some (evpGcmUpdate E c out data)
    | none => none

def evpDecryptUpdate (c : EvpCipherCtx) (out : Bool) (input : Bytes) (inl : ℤ) :
    Option (EvpCipherCtx × Bytes) :=
  if inl < 0 then none
  else
    let data := input.take inl.toNat
    match c.cipherId with
    | some .aes128Cfb =>
      if out then some ({ c with cfb := decryptCtx E.run c.cfb data }, decrypt E.run c.cfb data)
      else none
    | some .aes256Gcm => some (evpGcmUpdate E c out data)
    | none => none

def evpEncryptFinal (c : EvpCipherCtx) : Option EvpCipherCtx :=
  if c.cipherId = some .aes256Gcm ∧ c.finished = false then
    some { c with gcmTag := gcmFinish E c.gcm, finished := true }
  else some c

def evpDecryptFinal (c : EvpCipherCtx) : Option EvpCipherCtx :=
  if c.cipherId = some .aes256Gcm ∧ c.finished = false then
    if c.gcmTagSet = false ∨ gcmFinish E c.gcm ≠ c.gcmTag then none
    else some { c with finished := true }
  else some c

def evpSetIvlen (c : EvpCipherCtx) (arg : ℕ) : Option EvpCipherCtx :=
  if arg = gcmIvLen then some c else none

def evpGetTag (c : EvpCipherCtx) : Option Bytes := if c.finished then some c.gcmTag else none

def evpSetTag (c : EvpCipherCtx) (tag : Bytes) : Option EvpCipherCtx :=
  some { c with gcmTag := tag.take gcmTagLen, gcmTagSet := true }

/-- `(int)` of a `size_t`. -/
def toInt (n : ℕ) : ℤ := Int.bmod n 4294967296

/-- The two optional steps of `gcm_seal`. -/
def sealAad (c : EvpCipherCtx) (aad : Bytes) : Option EvpCipherCtx :=
  if aad.length ≠ 0 then (evpEncryptUpdate E c false aad (toInt aad.length)).map Prod.fst
  else some c

def sealText (c : EvpCipherCtx) (pt : Bytes) : Option (EvpCipherCtx × Bytes) :=
  if pt.length ≠ 0 then evpEncryptUpdate E c true pt (toInt pt.length) else some (c, [])

def gcmSeal (key nonce aad pt : Bytes) : Option Bytes := do
  let c ← evpEncryptInit .new (some .aes256Gcm) none none
  let c ← evpSetIvlen c 12
  let c ← evpEncryptInit c none (some key) (some nonce)
  let c ← sealAad E c aad
  let r ← sealText E c pt
  let c ← evpEncryptFinal E r.1
  let tag ← evpGetTag c
  some (r.2 ++ tag)

def openAad (c : EvpCipherCtx) (aad : Bytes) : Option EvpCipherCtx :=
  if aad.length ≠ 0 then (evpDecryptUpdate E c false aad (toInt aad.length)).map Prod.fst
  else some c

def gcmOpen (key nonce aad ct : Bytes) : Option Bytes :=
  if ct.length < 16 then none
  else do
    let c ← evpDecryptInit .new (some .aes256Gcm) none none
    let c ← evpSetIvlen c 12
    let c ← evpDecryptInit c none (some key) (some nonce)
    let c ← openAad E c aad
    let r ← evpDecryptUpdate E c true ct (toInt (ct.length - 16))
    let c ← evpSetTag r.1 (ct.drop (ct.length - 16))
    let _ ← evpDecryptFinal E c
    some r.2

/-- The lengths an `int` can hold. -/
def IntSized (n : ℕ) : Prop := n < 2147483648

instance (n : ℕ) : Decidable (IntSized n) := inferInstanceAs (Decidable (_ < _))

theorem toInt_of_intSized {n : ℕ} (h : IntSized n) : toInt n = n := by
  unfold IntSized at h
  exact Int.bmod_eq_of_le (by omega) (by omega)

theorem toInt_neg {n : ℕ} (h : ¬ IntSized n) (hn : n < 4294967296) : toInt n < 0 := by
  unfold IntSized at h
  unfold toInt
  rw [Int.bmod_def]
  have hmod : (n : ℤ) % ((4294967296 : ℕ) : ℤ) = n := Int.emod_eq_of_lt (by omega) (by omega)
  rw [hmod, if_neg (by omega)]
  omega

variable {E}

def started (direction : Bool) (key nonce : Bytes) : EvpCipherCtx :=
  { EvpCipherCtx.new with
    cipherId := some .aes256Gcm
    direction
    gcm := gcmStarts (gcmSetkey .init key) (if direction then .decrypt else .encrypt)
      (nonce.take gcmIvLen)
    gcmStarted := true }

theorem evpSetIvlen_twelve (c : EvpCipherCtx) : evpSetIvlen c 12 = some c := rfl

def chosen : EvpCipherCtx := { EvpCipherCtx.new with cipherId := some .aes256Gcm }

theorem evpInit_new (direction : Bool) :
    evpInit .new direction (some .aes256Gcm) none none = some chosen := rfl

theorem evpInit_chosen (direction : Bool) (key nonce : Bytes) :
    evpInit chosen direction none (some key) (some nonce) = some (started direction key nonce) :=
  rfl

theorem gcmSeal_started (key nonce aad pt : Bytes) :
    gcmSeal E key nonce aad pt =
      (sealAad E (started true key nonce) aad).bind fun c ↦ (sealText E c pt).bind fun r ↦
        (evpEncryptFinal E r.1).bind fun c ↦ (evpGetTag c).bind fun tag ↦ some (r.2 ++ tag) := by
  simp only [gcmSeal, evpEncryptInit, evpInit_new, evpSetIvlen_twelve, evpInit_chosen,
    Option.bind_eq_bind, Option.bind_some]

theorem gcmOpen_started {key nonce aad ct : Bytes} (h : 16 ≤ ct.length) :
    gcmOpen E key nonce aad ct =
      (openAad E (started false key nonce) aad).bind fun c ↦
        (evpDecryptUpdate E c true ct (toInt (ct.length - 16))).bind fun r ↦
          (evpSetTag r.1 (ct.drop (ct.length - 16))).bind fun c ↦
            (evpDecryptFinal E c).bind fun _ ↦ some r.2 := by
  have hinit : ∀ f : EvpCipherCtx → Option Bytes, (do
      let c ← evpDecryptInit .new (some .aes256Gcm) none none
      let c ← evpSetIvlen c 12
      let c ← evpDecryptInit c none (some key) (some nonce)
      f c) = f (started false key nonce) := by
    intro f
    simp only [evpDecryptInit, evpInit_new, evpSetIvlen_twelve, evpInit_chosen,
      Option.bind_eq_bind, Option.bind_some]
  exact (if_neg (Nat.not_lt.mpr h)).trans (hinit _)

theorem gcmUpdateAd_nil (g : GcmContext) : gcmUpdateAd g [] = g := by
  simp [gcmUpdateAd]

theorem gcmUpdate_nil (g : GcmContext) : gcmUpdate E g [] = (g, []) := by
  obtain ⟨key, mode, iv, ad, used, auth⟩ := g
  cases mode <;> simp [gcmUpdate, ctr]

theorem evpGcmUpdate_ad (c : EvpCipherCtx) (aad : Bytes) :
    evpGcmUpdate E c false aad = ({ c with gcm := gcmUpdateAd c.gcm aad }, []) := by
  by_cases h : aad = []
  · simp [evpGcmUpdate, h, gcmUpdateAd_nil]
  · simp [evpGcmUpdate, h]

theorem evpGcmUpdate_text (c : EvpCipherCtx) (text : Bytes) :
    evpGcmUpdate E c true text =
      ({ c with gcm := (gcmUpdate E c.gcm text).1 }, (gcmUpdate E c.gcm text).2) := by
  by_cases h : text = []
  · simp [evpGcmUpdate, h, gcmUpdate_nil]
  · simp [evpGcmUpdate, h]

theorem evpEncryptUpdate_sized {c : EvpCipherCtx} (hc : c.cipherId = some .aes256Gcm) (out : Bool)
    {input : Bytes} {n : ℕ} (hn : IntSized n) :
    evpEncryptUpdate E c out input (toInt n) = some (evpGcmUpdate E c out (input.take n)) := by
  rw [evpEncryptUpdate, toInt_of_intSized hn, if_neg (by omega), hc, Int.toNat_natCast]

theorem evpDecryptUpdate_sized {c : EvpCipherCtx} (hc : c.cipherId = some .aes256Gcm) (out : Bool)
    {input : Bytes} {n : ℕ} (hn : IntSized n) :
    evpDecryptUpdate E c out input (toInt n) = some (evpGcmUpdate E c out (input.take n)) := by
  rw [evpDecryptUpdate, toInt_of_intSized hn, if_neg (by omega), hc, Int.toNat_natCast]

def withAad (direction : Bool) (key nonce aad : Bytes) : EvpCipherCtx :=
  { started direction key nonce with gcm := gcmUpdateAd (started direction key nonce).gcm aad }

theorem sealAad_eq {key nonce aad : Bytes} (ha : IntSized aad.length) :
    sealAad E (started true key nonce) aad = some (withAad true key nonce aad) := by
  by_cases h : aad = []
  · simp [h, sealAad, withAad, gcmUpdateAd_nil]
  · rw [sealAad, if_pos (by simpa using h), evpEncryptUpdate_sized rfl false ha, List.take_length,
      evpGcmUpdate_ad]
    rfl

theorem openAad_eq {key nonce aad : Bytes} (ha : IntSized aad.length) :
    openAad E (started false key nonce) aad = some (withAad false key nonce aad) := by
  by_cases h : aad = []
  · simp [h, openAad, withAad, gcmUpdateAd_nil]
  · rw [openAad, if_pos (by simpa using h), evpDecryptUpdate_sized rfl false ha, List.take_length,
      evpGcmUpdate_ad]
    rfl

theorem gcmSeal_eq {key nonce aad pt : Bytes} (hn : nonce.length = gcmIvLen)
    (ha : IntSized aad.length) (hp : IntSized pt.length) :
    gcmSeal E key nonce aad pt =
      some (ctr E key nonce 0 pt ++ tagBytes (tagOf E key nonce aad pt)) := by
  have htake : nonce.take gcmIvLen = nonce := List.take_of_length_le (by omega)
  have htext : sealText E (withAad true key nonce aad) pt =
      some (evpGcmUpdate E (withAad true key nonce aad) true pt) := by
    by_cases h : pt = []
    · simp [h, sealText, evpGcmUpdate]
    · rw [sealText, if_pos (by simpa using h), evpEncryptUpdate_sized rfl true hp, List.take_length]
  rw [gcmSeal_started, sealAad_eq ha, Option.bind_some, htext, Option.bind_some,
    evpGcmUpdate_text]
  simp only [withAad, started, gcmUpdateAd, gcmStarts, gcmSetkey, gcmUpdate, htake, if_true,
    List.nil_append, evpEncryptFinal, evpGetTag, gcmFinish, EvpCipherCtx.new, and_self,
    Option.bind_some]

theorem gcmOpen_eq {key nonce aad ct : Bytes} (h : 16 ≤ ct.length) (hn : nonce.length = gcmIvLen)
    (ha : IntSized aad.length) (hc : IntSized (ct.length - 16)) :
    gcmOpen E key nonce aad ct =
      if tagBytes (tagOf E key nonce aad (ctr E key nonce 0 (ct.take (ct.length - 16)))) =
        ct.drop (ct.length - 16) then some (ctr E key nonce 0 (ct.take (ct.length - 16)))
      else none := by
  have htake : nonce.take gcmIvLen = nonce := List.take_of_length_le (by omega)
  have htag : (ct.drop (ct.length - 16)).take gcmTagLen = ct.drop (ct.length - 16) :=
    List.take_of_length_le (by rw [List.length_drop, gcmTagLen]; omega)
  rw [gcmOpen_started h, openAad_eq ha, Option.bind_some,
    evpDecryptUpdate_sized rfl true hc, Option.bind_some, evpGcmUpdate_text]
  simp only [withAad, started, gcmUpdateAd, gcmStarts, gcmSetkey, gcmUpdate, htake,
    Bool.false_eq_true, if_false, List.nil_append, evpDecryptFinal, evpSetTag, gcmFinish,
    EvpCipherCtx.new, and_self, Option.bind_some, htag, if_true, Bool.true_eq_false, false_or]
  by_cases heq : tagBytes (tagOf E key nonce aad
      (ctr E key nonce 0 (ct.take (ct.length - 16)))) = ct.drop (ct.length - 16)
  · simp [heq]
  · simp [heq]

theorem sealAad_none (c : EvpCipherCtx) {aad : Bytes} (ha : ¬ IntSized aad.length)
    (hsize : aad.length < 4294967296) : sealAad E c aad = none := by
  have hne : aad.length ≠ 0 := by
    intro h
    exact ha (by rw [h]; decide)
  rw [sealAad, if_pos hne, evpEncryptUpdate, if_pos (toInt_neg ha hsize), Option.map_none]

theorem openAad_none (c : EvpCipherCtx) {aad : Bytes} (ha : ¬ IntSized aad.length)
    (hsize : aad.length < 4294967296) : openAad E c aad = none := by
  have hne : aad.length ≠ 0 := by
    intro h
    exact ha (by rw [h]; decide)
  rw [openAad, if_pos hne, evpDecryptUpdate, if_pos (toInt_neg ha hsize), Option.map_none]

theorem sealText_none (c : EvpCipherCtx) {pt : Bytes} (hp : ¬ IntSized pt.length)
    (hsize : pt.length < 4294967296) : sealText E c pt = none := by
  have hne : pt.length ≠ 0 := by
    intro h
    exact hp (by rw [h]; decide)
  rw [sealText, if_pos hne, evpEncryptUpdate, if_pos (toInt_neg hp hsize)]

theorem gcmSeal_none {key nonce aad pt : Bytes} (ha : aad.length < 4294967296)
    (hp : pt.length < 4294967296) (h : ¬ (IntSized aad.length ∧ IntSized pt.length)) :
    gcmSeal E key nonce aad pt = none := by
  rw [gcmSeal_started]
  by_cases hs : IntSized aad.length
  · have hpt : ¬ IntSized pt.length := fun hpt ↦ h ⟨hs, hpt⟩
    rw [sealAad_eq hs, Option.bind_some, sealText_none _ hpt hp, Option.bind_none]
  · rw [sealAad_none _ hs ha, Option.bind_none]

theorem gcmOpen_none {key nonce aad ct : Bytes} (hlen : 16 ≤ ct.length)
    (ha : aad.length < 4294967296) (hc : ct.length < 4294967296)
    (h : ¬ (IntSized aad.length ∧ IntSized (ct.length - 16))) :
    gcmOpen E key nonce aad ct = none := by
  rw [gcmOpen_started hlen]
  by_cases hs : IntSized aad.length
  · have hct : ¬ IntSized (ct.length - 16) := fun hct ↦ h ⟨hs, hct⟩
    rw [openAad_eq hs, Option.bind_some, evpDecryptUpdate, if_pos (toInt_neg hct (by omega)),
      Option.bind_none]
  · rw [openAad_none _ hs ha, Option.bind_none]

/-- The ciphertext and the tag in the bytes given to `gcm_open`. -/
def textOf (c : Bytes) : Bytes := c.take (c.length - 16)

def tagPart (c : Bytes) : Bytes := c.drop (c.length - 16)

theorem textOf_length (c : Bytes) : (textOf c).length = c.length - 16 := by
  rw [textOf, List.length_take]
  omega

theorem eq_encrypt_iff {key nonce aad c p : Bytes} :
    c = encrypt E key nonce aad p ↔
      p = ctr E key nonce 0 (textOf c) ∧
        tagBytes (tagOf E key nonce aad (textOf c)) = tagPart c := by
  constructor
  · intro hc
    have hlen : c.length - 16 = (ctr E key nonce 0 p).length := by
      rw [hc, encrypt, List.length_append, tagBytes_length, ctr_length]
      omega
    have htext : textOf c = ctr E key nonce 0 p := by
      rw [textOf, hlen, hc, encrypt, List.take_left]
    have htag : tagPart c = tagBytes (tagOf E key nonce aad (ctr E key nonce 0 p)) := by
      rw [tagPart, hlen, hc, encrypt, List.drop_left]
    rw [htext, htag, ctr_ctr]
    exact ⟨rfl, rfl⟩
  · rintro ⟨rfl, htag⟩
    rw [encrypt, ctr_ctr, htag, textOf, tagPart, List.take_append_drop]

/-- Both lengths fit an `int`, and sealing `n` bytes leaves no difference
between the tag of the plaintext and that of the ciphertext. -/
def Agrees (E : BlockCipher) (key nonce aad : Bytes) (n : ℕ) : Prop :=
  IntSized aad.length ∧ IntSized n ∧ Vanishes E key nonce n

instance (key nonce aad : Bytes) (n : ℕ) : Decidable (Agrees E key nonce aad n) :=
  inferInstanceAs (Decidable (_ ∧ _))

theorem gcmSeal_eq_encrypt_iff {key nonce aad pt : Bytes} (hn : nonce.length = gcmIvLen)
    (ha : aad.length < 4294967296) (hp : pt.length < 4294967296) :
    gcmSeal E key nonce aad pt = some (encrypt E key nonce aad pt) ↔
      Agrees E key nonce aad pt.length := by
  by_cases hs : IntSized aad.length ∧ IntSized pt.length
  · rw [gcmSeal_eq hn hs.1 hs.2, Option.some_inj, encrypt, List.append_cancel_left_eq, Agrees,
      ← tagOf_ctr_iff key nonce aad pt]
    constructor
    · intro h
      exact ⟨hs.1, hs.2, tagBytes_injective h⟩
    · intro h
      rw [h.2.2]
  · rw [gcmSeal_none ha hp hs]
    constructor
    · intro h
      cases h
    · intro h
      exact absurd ⟨h.1, h.2.1⟩ hs

/-- The tag of `c` is neither the one `gcm_open` accepts nor the standard one. -/
def Foreign (E : BlockCipher) (key nonce aad c : Bytes) : Prop :=
  tagPart c ≠ tagBytes (tagOf E key nonce aad (textOf c)) ∧
    (IntSized aad.length ∧ IntSized (c.length - 16) →
      tagPart c ≠ tagBytes (tagOf E key nonce aad (ctr E key nonce 0 (textOf c))))

theorem gcmOpen_eq_some_iff {key nonce aad c p : Bytes} (h : 16 ≤ c.length)
    (hn : nonce.length = gcmIvLen) (ha : aad.length < 4294967296) (hc : c.length < 4294967296) :
    gcmOpen E key nonce aad c = some p ↔
      (IntSized aad.length ∧ IntSized (c.length - 16)) ∧ p = ctr E key nonce 0 (textOf c) ∧
        tagBytes (tagOf E key nonce aad (ctr E key nonce 0 (textOf c))) = tagPart c := by
  by_cases hs : IntSized aad.length ∧ IntSized (c.length - 16)
  · rw [gcmOpen_eq h hn hs.1 hs.2, ← textOf, ← tagPart]
    by_cases htag : tagBytes (tagOf E key nonce aad (ctr E key nonce 0 (textOf c))) = tagPart c
    · rw [if_pos htag]
      constructor
      · intro hp
        exact ⟨hs, (Option.some_inj.mp hp).symm, htag⟩
      · intro hp
        rw [hp.2.1]
    · rw [if_neg htag]
      constructor
      · intro hp
        cases hp
      · intro hp
        exact absurd hp.2.2 htag
  · rw [gcmOpen_none h ha hc hs]
    constructor
    · intro hp
      cases hp
    · intro hp
      exact absurd hp.1 hs

theorem gcmOpen_standard_iff {key nonce aad c : Bytes} (h : 16 ≤ c.length)
    (hn : nonce.length = gcmIvLen) (ha : aad.length < 4294967296) (hc : c.length < 4294967296) :
    (∀ p, gcmOpen E key nonce aad c = some p ↔ c = encrypt E key nonce aad p) ↔
      Agrees E key nonce aad (c.length - 16) ∨ Foreign E key nonce aad c := by
  let p₀ := ctr E key nonce 0 (textOf c)
  have hback : ctr E key nonce 0 p₀ = textOf c := ctr_ctr key nonce 0 (textOf c)
  have hlen : p₀.length = c.length - 16 := by
    rw [ctr_length, textOf_length]
  have hvan : tagOf E key nonce aad p₀ = tagOf E key nonce aad (textOf c) ↔
      Vanishes E key nonce (c.length - 16) := by
    rw [← hlen, ← tagOf_ctr_iff key nonce aad p₀, hback]
  constructor
  · intro hall
    have h₀ := hall p₀
    rw [gcmOpen_eq_some_iff h hn ha hc, eq_encrypt_iff] at h₀
    by_cases hstd : tagBytes (tagOf E key nonce aad (textOf c)) = tagPart c
    · obtain ⟨hs, -, htag⟩ := h₀.mpr ⟨rfl, hstd⟩
      exact Or.inl ⟨hs.1, hs.2, hvan.mp (tagBytes_injective (htag.trans hstd.symm))⟩
    · refine Or.inr ⟨fun heq ↦ hstd heq.symm, fun hs htag ↦ ?_⟩
      exact hstd (h₀.mp ⟨hs, rfl, htag.symm⟩).2
  · intro hcond p
    rw [gcmOpen_eq_some_iff h hn ha hc, eq_encrypt_iff]
    rcases hcond with ⟨ha', hc', hv⟩ | ⟨hstd, hown⟩
    · rw [hvan.mpr hv]
      constructor
      · intro hp
        exact hp.2
      · intro hp
        exact ⟨⟨ha', hc'⟩, hp⟩
    · constructor
      · intro hp
        exact absurd hp.2.2.symm (hown hp.1)
      · intro hp
        exact absurd hp.2.symm hstd

/-- Exactly when the two functions compute the standard mode: `gcm_seal` when
the keystream is a root, and `gcm_open` then or on bytes whose tag fits neither. -/
theorem standard_iff_agrees (E : BlockCipher) (key nonce aad : Bytes)
    (hn : nonce.length = gcmIvLen) (ha : aad.length < 4294967296) :
    (∀ pt : Bytes, pt.length < 4294967296 →
      (gcmSeal E key nonce aad pt = some (encrypt E key nonce aad pt) ↔
        Agrees E key nonce aad pt.length)) ∧
    ∀ c : Bytes, 16 ≤ c.length → c.length < 4294967296 →
      ((∀ p, gcmOpen E key nonce aad c = some p ↔ c = encrypt E key nonce aad p) ↔
        Agrees E key nonce aad (c.length - 16) ∨ Foreign E key nonce aad c) := by
  constructor
  · intro pt hp
    exact gcmSeal_eq_encrypt_iff hn ha hp
  · intro c hlen hc
    exact gcmOpen_standard_iff hlen hn ha hc

def primitives (E : BlockCipher) (pbkdf2 : Bytes → Bytes → Bytes)
    (rand : ℕ → { b : Bytes // b.length = 16 }) : Primitives where
  aes := E.run
  pbkdf2 := pbkdf2
  gcmSeal key nonce aad pt := ctr E key nonce 0 pt ++ tagBytes (tagOf E key nonce aad pt)
  gcmOpen key nonce aad c :=
    let pt := ctr E key nonce 0 (textOf c)
    if tagBytes (tagOf E key nonce aad pt) = tagPart c then some pt else none
  randBytes n := rand n
  randBytes_length n := (rand n).property
  gcmSeal_length key nonce aad pt := by simp
  gcmOpen_seal key nonce aad pt := by
    have hlen : (ctr E key nonce 0 pt ++ tagBytes (tagOf E key nonce aad pt)).length - 16 =
        (ctr E key nonce 0 pt).length := by simp
    have htext : textOf (ctr E key nonce 0 pt ++ tagBytes (tagOf E key nonce aad pt)) =
        ctr E key nonce 0 pt := by rw [textOf, hlen, List.take_left]
    have htag : tagPart (ctr E key nonce 0 pt ++ tagBytes (tagOf E key nonce aad pt)) =
        tagBytes (tagOf E key nonce aad pt) := by rw [tagPart, hlen, List.drop_left]
    simp only [htext, htag, ctr_ctr, if_true]

theorem gcm_eq_primitives (pbkdf2 : Bytes → Bytes → Bytes)
    (rand : ℕ → { b : Bytes // b.length = 16 }) {key nonce aad : Bytes}
    (hn : nonce.length = gcmIvLen) (ha : IntSized aad.length) :
    (∀ pt, IntSized pt.length →
      gcmSeal E key nonce aad pt = some ((primitives E pbkdf2 rand).gcmSeal key nonce aad pt)) ∧
    ∀ c, 16 ≤ c.length → IntSized (c.length - 16) →
      gcmOpen E key nonce aad c = (primitives E pbkdf2 rand).gcmOpen key nonce aad c := by
  constructor
  · intro pt hp
    rw [gcmSeal_eq hn ha hp, primitives]
  · intro c hlen hc
    rw [gcmOpen_eq hlen hn ha hc, ← textOf, ← tagPart, primitives]

def zeros (n : ℕ) : Bytes := List.replicate n 0

/-- AES-256 under the zero key on the three blocks that a message of one block
under the zero nonce uses. -/
def nistBlock (block : Bytes) : Bytes :=
  if block = zeros 16 then toBe 16 0xdc95c078a2408989ad48a21492842087
  else if block = zeros 12 ++ toBe 4 1 then toBe 16 0x530f8afbc74536b9a963b4f1c4cb738b
  else if block = zeros 12 ++ toBe 4 2 then toBe 16 0xcea7403d4d606b6e074ec5d3baf39d18
  else zeros 16

theorem nistBlock_length (block : Bytes) : (nistBlock block).length = 16 := by
  unfold nistBlock
  split_ifs <;> simp [zeros]

def nistCipher : BlockCipher := ⟨fun _ ↦ nistBlock, fun _ ↦ nistBlock_length⟩

theorem nistCipher_not_vanishes : ¬ Vanishes nistCipher (zeros 32) (zeros 12) 16 := by
  decide +kernel

theorem encrypt_nist : encrypt nistCipher (zeros 32) (zeros 12) [] (zeros 16) =
    toBe 32 0xcea7403d4d606b6e074ec5d3baf39d18d0d1c8a799996bf0265b98b5d48ab919 := by
  decide +kernel

theorem standard_iff_agrees_nist :
    (gcmSeal nistCipher (zeros 32) (zeros 12) [] [] =
        some (encrypt nistCipher (zeros 32) (zeros 12) [] []) ↔
      Agrees nistCipher (zeros 32) (zeros 12) [] 0) ∧
    ((∀ p, gcmOpen nistCipher (zeros 32) (zeros 12) [] (zeros 32) = some p ↔
        zeros 32 = encrypt nistCipher (zeros 32) (zeros 12) [] p) ↔
      Agrees nistCipher (zeros 32) (zeros 12) [] 16 ∨
        Foreign nistCipher (zeros 32) (zeros 12) [] (zeros 32)) := by
  obtain ⟨hseal, hopen⟩ :=
    standard_iff_agrees nistCipher (zeros 32) (zeros 12) [] (by decide) (by decide)
  exact ⟨hseal [] (by decide), hopen (zeros 32) (by decide) (by decide)⟩

/-- One zero block under the zero key: `gcm_seal` returns another tag than the
standard, and `gcm_open` refuses the standard ciphertext. -/
theorem not_standard_nist :
    gcmSeal nistCipher (zeros 32) (zeros 12) [] (zeros 16) ≠
        some (encrypt nistCipher (zeros 32) (zeros 12) [] (zeros 16)) ∧
      gcmOpen nistCipher (zeros 32) (zeros 12) []
        (encrypt nistCipher (zeros 32) (zeros 12) [] (zeros 16)) ≠ some (zeros 16) := by
  constructor
  · intro h
    rw [gcmSeal_eq_encrypt_iff (by decide) (by decide) (by decide)] at h
    exact nistCipher_not_vanishes h.2.2
  · intro h
    rw [encrypt_nist] at h
    rw [gcmOpen_eq_some_iff (by decide) (by decide) (by decide) (by decide)] at h
    exact absurd h.2.2 (by decide +kernel)

end Xfrpc.Crypto.Evp
