import Xfrpc.Crypto.Coder

namespace Xfrpc.Crypto.Aead

open Foundations.BigEndian Coder

def gcmNonceSize : ℕ := 12
def gcmTagSize : ℕ := 16
def maxPayload : ℕ := 65536

/-- `increment_nonce` from the last byte on; false when every byte overflows. -/
def incrementLast : Bytes → Bytes × Bool
  | [] => ([], false)
  | b :: bs =>
    if b + 1 ≠ 0 then ((b + 1) :: bs, true)
    else (0 :: (incrementLast bs).1, (incrementLast bs).2)

def incrementNonce (nonce : Bytes) : Bytes × Bool :=
  ((incrementLast nonce.reverse).1.reverse, (incrementLast nonce.reverse).2)

theorem incrementLast_length (b : Bytes) : (incrementLast b).1.length = b.length := by
  induction b with
  | nil => rfl
  | cons b bs ih =>
    unfold incrementLast
    split_ifs
    · rfl
    · simp only [List.length_cons, ih]

@[simp] theorem incrementNonce_length (nonce : Bytes) :
    (incrementNonce nonce).1.length = nonce.length := by
  simp [incrementNonce, incrementLast_length]

theorem incrementLast_ne {b : Bytes} (hb : b ≠ []) : (incrementLast b).1 ≠ b := by
  cases b with
  | nil => exact absurd rfl hb
  | cons b bs =>
    unfold incrementLast
    split_ifs with hz
    · simp
    · simp only [ne_eq, Decidable.not_not] at hz
      simp only [ne_eq, List.cons.injEq, not_and]
      rintro rfl
      exact absurd hz (by decide)

theorem incrementNonce_ne {nonce : Bytes} (h : nonce ≠ []) : (incrementNonce nonce).1 ≠ nonce := by
  intro he
  have hr : nonce.reverse ≠ [] := by simpa using h
  refine incrementLast_ne hr ?_
  have hrev := congrArg List.reverse he
  simpa [incrementNonce] using hrev

structure AeadWriter where
  key : Bytes
  streamNonce : Bytes
  nonce : Bytes
  headerSent : Bool
  frameCount : ℕ
  nonce_length : nonce.length = gcmNonceSize
  deriving DecidableEq

def AeadWriter.advance (w : AeadWriter) : AeadWriter :=
  { w with
    headerSent := true
    nonce := (incrementNonce w.nonce).1
    nonce_length := by rw [incrementNonce_length]; exact w.nonce_length }

/-- `aead_writer_init` with the random nonce it draws. -/
def aeadWriterInit (key : Bytes) (nonce : { b : Bytes // b.length = gcmNonceSize }) : AeadWriter :=
  { key, streamNonce := nonce, nonce, headerSent := false, frameCount := 0
    nonce_length := nonce.property }

def sealHeader (pt : Bytes) : Bytes := toBe 4 (pt.length + gcmTagSize)

variable (P : Primitives)

def AeadWriter.sealed (w : AeadWriter) (pt : Bytes) : Bytes :=
  (if w.headerSent then [] else w.nonce) ++ sealHeader pt ++
    P.gcmSeal w.key w.nonce (w.streamNonce ++ sealHeader pt) pt

theorem sealed_length (w : AeadWriter) (pt : Bytes) : (w.sealed P pt).length =
    (if w.headerSent then 0 else gcmNonceSize) + 4 + (pt.length + gcmTagSize) := by
  have hn := w.nonce_length
  have hg := P.gcmSeal_length w.key w.nonce (w.streamNonce ++ sealHeader pt) pt
  have hh : (sealHeader pt).length = 4 := toBe_length _ _
  simp only [AeadWriter.sealed, List.length_append, hg, hh, gcmTagSize]
  split_ifs <;> simp [hn]

/-- `aead_writer_seal`. The state moves on even when the nonce is used up and
nothing is returned. -/
def aeadWriterSeal (w : AeadWriter) (pt : Bytes) : AeadWriter × Option Bytes :=
  if pt.length = 0 ∨ pt.length > maxPayload then (w, none)
  else
    if (incrementNonce w.nonce).2 then
      ({ w.advance with frameCount := w.frameCount + 1 }, some (w.sealed P pt))
    else (w.advance, none)

theorem aeadWriterSeal_cases (w : AeadWriter) {pt : Bytes} (hpos : pt ≠ []) :
    (maxPayload < pt.length ∧ aeadWriterSeal P w pt = (w, none)) ∨
    (pt.length ≤ maxPayload ∧ (incrementNonce w.nonce).2 = false ∧
      aeadWriterSeal P w pt = (w.advance, none)) ∨
    (pt.length ≤ maxPayload ∧ (incrementNonce w.nonce).2 = true ∧
      aeadWriterSeal P w pt =
        ({ w.advance with frameCount := w.frameCount + 1 }, some (w.sealed P pt))) := by
  have hne : pt.length ≠ 0 := fun h ↦ hpos (List.length_eq_zero_iff.mp h)
  unfold aeadWriterSeal
  by_cases hbig : maxPayload < pt.length
  · exact .inl ⟨hbig, by rw [if_pos (.inr hbig)]⟩
  · rw [if_neg (by omega)]
    cases hok : (incrementNonce w.nonce).2 with
    | false => exact .inr (.inl ⟨by omega, rfl, by simp⟩)
    | true => exact .inr (.inr ⟨by omega, rfl, by simp⟩)

structure AeadReader where
  key : Bytes
  streamNonce : Bytes
  nonce : Bytes
  headerRead : Bool
  frameCount : ℕ
  ctBuf : Bytes
  ptBuf : Bytes
  deriving DecidableEq, Repr

def aeadReaderInit (key : Bytes) : AeadReader :=
  { key, streamNonce := List.replicate gcmNonceSize 0, nonce := List.replicate gcmNonceSize 0
    headerRead := false, frameCount := 0, ctBuf := [], ptBuf := [] }

def AeadReader.readHeader (r : AeadReader) : Option AeadReader :=
  if r.headerRead then some r
  else if r.ctBuf.length < gcmNonceSize then none
  else some
    { r with
      nonce := r.ctBuf.take gcmNonceSize
      streamNonce := r.ctBuf.take gcmNonceSize
      ctBuf := r.ctBuf.drop gcmNonceSize
      headerRead := true }

inductive ReaderTurn
  | wait (r : AeadReader)
  | error (r : AeadReader)
  | frame (r : AeadReader)
  deriving DecidableEq, Repr

/-- One turn of the loop of `aead_reader_feed`. -/
def aeadReaderTurn (r₀ : AeadReader) : ReaderTurn :=
  match r₀.readHeader with
  | none => .wait r₀
  | some r =>
    if r.ctBuf.length < 4 then .wait r
    else
      let clen := ofBe (r.ctBuf.take 4)
      if clen < gcmTagSize ∨ clen > maxPayload + gcmTagSize then .error r
      else if r.ctBuf.length < 4 + clen then .wait r
      else
        match P.gcmOpen r.key r.nonce (r.streamNonce ++ r.ctBuf.take 4)
            ((r.ctBuf.drop 4).take clen) with
        | none => .error r
        | some pt =>
          let r' := { r with
            ctBuf := r.ctBuf.drop (4 + clen)
            ptBuf := r.ptBuf ++ pt
            nonce := (incrementNonce r.nonce).1 }
          if (incrementNonce r.nonce).2 then .frame { r' with frameCount := r.frameCount + 1 }
          else .error r'

structure Mirrors (w : AeadWriter) (r : AeadReader) : Prop where
  key : r.key = w.key
  headerRead : r.headerRead = w.headerSent
  nonce : w.headerSent = true → r.nonce = w.nonce
  streamNonce : w.headerSent = true → r.streamNonce = w.streamNonce
  fresh : w.headerSent = false → w.streamNonce = w.nonce

theorem readHeader_sealed {w : AeadWriter} {r : AeadReader} (h : Mirrors w r) (body : Bytes)
    (hbuf : r.ctBuf = (if w.headerSent then [] else w.nonce) ++ body) :
    r.readHeader = some { r with
      nonce := w.nonce
      streamNonce := w.streamNonce
      ctBuf := body
      headerRead := true } := by
  obtain ⟨key, sn, nonce, hr, fc, ct, pt⟩ := r
  have hhr : hr = w.headerSent := h.headerRead
  unfold AeadReader.readHeader
  cases hs : w.headerSent with
  | true =>
    have hn : nonce = w.nonce := h.nonce hs
    have hsn : sn = w.streamNonce := h.streamNonce hs
    rw [hs] at hhr hbuf
    simp only [if_true, List.nil_append] at hbuf
    simp [hhr, hn, hsn, hbuf]
  | false =>
    have hl := w.nonce_length
    rw [hs] at hhr hbuf
    simp only [Bool.false_eq_true, if_false] at hbuf
    subst hhr hbuf
    have hlen : ¬ (w.nonce ++ body).length < gcmNonceSize := by
      rw [List.length_append, hl]
      omega
    simp only [Bool.false_eq_true, if_false, hlen]
    rw [List.take_left' hl, List.drop_left' hl, h.fresh hs]

theorem aeadReaderTurn_sealed {w : AeadWriter} {r : AeadReader} (h : Mirrors w r) {pt : Bytes}
    (hpt : pt.length ≤ maxPayload) (hok : (incrementNonce w.nonce).2 = true) (rest : Bytes)
    (hbuf : r.ctBuf = w.sealed P pt ++ rest) :
    ∃ r', aeadReaderTurn P r = .frame r' ∧ r'.ctBuf = rest ∧ r'.ptBuf = r.ptBuf ++ pt ∧
      r'.frameCount = r.frameCount + 1 ∧
      Mirrors { w.advance with frameCount := w.frameCount + 1 } r' := by
  have hkey := h.key
  have hm : maxPayload = 65536 := rfl
  have hg : gcmTagSize = 16 := rfl
  have hh : (sealHeader pt).length = 4 := toBe_length _ _
  have hc : ∀ aad, (P.gcmSeal w.key w.nonce aad pt).length = pt.length + gcmTagSize :=
    fun aad ↦ P.gcmSeal_length w.key w.nonce aad pt
  have hof : ofBe (sealHeader pt) = pt.length + gcmTagSize := ofBe_toBe (by omega)
  let ct := P.gcmSeal w.key w.nonce (w.streamNonce ++ sealHeader pt) pt
  have hbuf' : r.ctBuf = (if w.headerSent then [] else w.nonce) ++ (sealHeader pt ++ (ct ++ rest)) :=
    by rw [hbuf, AeadWriter.sealed]; simp only [List.append_assoc]; rfl
  have hctl : ct.length = pt.length + gcmTagSize := hc _
  refine ⟨⟨r.key, w.streamNonce, (incrementNonce w.nonce).1, true, r.frameCount + 1, rest,
    r.ptBuf ++ pt⟩, ?_, rfl, rfl, rfl, ⟨hkey, rfl, fun _ ↦ rfl, fun _ ↦ rfl, nofun⟩⟩
  have hdrop : (sealHeader pt ++ (ct ++ rest)).drop (4 + (pt.length + gcmTagSize)) = rest := by
    rw [← List.append_assoc, List.drop_left' (by rw [List.length_append, hh, hctl])]
  unfold aeadReaderTurn
  rw [readHeader_sealed h _ hbuf']
  dsimp only
  rw [if_neg (by rw [List.length_append, hh]; omega), List.take_left' hh, hof,
    if_neg (by omega), if_neg (by simp only [List.length_append, hh, hctl]; omega),
    List.drop_left' hh, List.take_left' hctl, hkey, P.gcmOpen_seal, hdrop]
  simp [hok]

end Xfrpc.Crypto.Aead
