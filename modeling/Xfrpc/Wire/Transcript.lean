import Xfrpc.Wire.V2

namespace Xfrpc.Wire.Transcript

open Foundations.BigEndian Wire.V2

/-- The eight bytes of `lenbe`, each a shift of the 64-bit length cut to its low byte. -/
def lenBe (plen : ℕ) : Bytes :=
  let plen64 := UInt64.ofNat plen
  [(plen64 >>> 56).toUInt8, (plen64 >>> 48).toUInt8, (plen64 >>> 40).toUInt8,
    (plen64 >>> 32).toUInt8, (plen64 >>> 24).toUInt8, (plen64 >>> 16).toUInt8,
    (plen64 >>> 8).toUInt8, plen64.toUInt8]

/-- The arguments of the calls of `EVP_DigestUpdate` in `transcript_part`. -/
def partUpdates (label : String) (payload : Bytes) : List Bytes :=
  [[0], ascii label, [0], lenBe payload.length] ++
    if payload.length ≠ 0 then [payload] else []

/-- The calls of `EVP_DigestUpdate` that `wire_v2_hash_transcript` makes. -/
def hashTranscriptUpdates (ch sh : Bytes) : List Bytes :=
  [ascii "frp wire v2 crypto transcript"] ++ partUpdates "client hello" ch ++
    partUpdates "server hello" sh

/-- The message whose SHA-256 the updates compute. -/
def hashTranscript (ch sh : Bytes) : Bytes := (hashTranscriptUpdates ch sh).flatten

theorem lenBe_eq_toBe (plen : ℕ) : lenBe plen = toBe 8 plen := by
  simp only [lenBe, toBe, List.nil_append, List.cons_append, List.cons.injEq, and_true,
    ← UInt8.toNat_inj, UInt64.toNat_toUInt8, UInt64.toNat_shiftRight, UInt64.toNat_ofNat',
    UInt8.toNat_ofNat', Nat.shiftRight_eq_div_pow, UInt64.reduceToNat, Nat.reducePow, Nat.reduceMod]
  refine ⟨?_, ?_, ?_, ?_, ?_, ?_, ?_, ?_⟩ <;> omega

theorem partUpdates_flatten (label : String) (payload : Bytes) :
    (partUpdates label payload).flatten = transcriptPart label payload := by
  unfold partUpdates transcriptPart
  by_cases hp : payload.length = 0
  · have hnil : payload = [] := List.length_eq_zero_iff.mp hp
    simp [hnil, lenBe_eq_toBe]
  · simp [hp, lenBe_eq_toBe]

theorem hashTranscript_eq (ch sh : Bytes) : hashTranscript ch sh = transcript ch sh := by
  unfold hashTranscript hashTranscriptUpdates transcript
  rw [List.flatten_append, List.flatten_append, partUpdates_flatten, partUpdates_flatten,
    List.flatten_singleton]

theorem transcriptPart_append_inj {label : String} {p q r s : Bytes} (hp : p.length < 2 ^ 64)
    (hq : q.length < 2 ^ 64)
    (h : transcriptPart label p ++ r = transcriptPart label q ++ s) : p = q ∧ r = s := by
  simp only [transcriptPart, List.append_assoc] at h
  have hcut := List.append_cancel_left (List.append_cancel_left h)
  exact lengthThenPayload_append_inj hp hq hcut

theorem hashTranscript_injective {ch sh ch' sh' : Bytes}
    (hch : ch.length < 2 ^ 64) (hsh : sh.length < 2 ^ 64)
    (hch' : ch'.length < 2 ^ 64) (hsh' : sh'.length < 2 ^ 64)
    (h : hashTranscript ch sh = hashTranscript ch' sh') : ch = ch' ∧ sh = sh' := by
  rw [hashTranscript_eq, hashTranscript_eq] at h
  simp only [transcript, List.append_assoc] at h
  have hparts := List.append_cancel_left h
  obtain ⟨hc, hrest⟩ := transcriptPart_append_inj hch hch' hparts
  rw [← List.append_nil (transcriptPart "server hello" sh),
    ← List.append_nil (transcriptPart "server hello" sh')] at hrest
  exact ⟨hc, (transcriptPart_append_inj hsh hsh' hrest).1⟩

/-- The server hello holds a whole part of its own here. -/
theorem hashTranscript_injective_nested :
    let ch : Bytes := [0x7b, 0x7d]
    let sh := transcriptPart "server hello" [0]
    hashTranscript ch sh = hashTranscript ch sh ∧ ch = ch ∧ sh = sh :=
  ⟨rfl, hashTranscript_injective (by decide) (by decide) (by decide) (by decide) rfl⟩

end Xfrpc.Wire.Transcript
