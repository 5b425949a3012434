import Xfrpc.Foundations.BigEndian

namespace Xfrpc.Crypto.Compression

/-- The calls of the snappy library. An error is `none`. -/
structure Snappy where
  compress : Bytes → Option Bytes
  uncompressedLength : Bytes → Option ℕ
  uncompress : Bytes → Option Bytes

structure Snappy.Sound (S : Snappy) : Prop where
  inverse : ∀ {d z : Bytes}, S.compress d = some z → S.uncompress z = some d
  exact : ∀ {z d : Bytes}, S.uncompress z = some d → S.uncompressedLength z = some d.length

/-- The library of a build; `none` without `CONFIG_XFRPC_ENABLE_COMPRESSION`. -/
abbrev Library := Option Snappy

def Library.Sound (L : Library) : Prop := ∀ S ∈ L, Snappy.Sound S

variable (L : Library)

def xfrpcCompress (d : Bytes) : Option Bytes := if d = [] then none else L.bind (·.compress d)

/-- `xfrpc_decompress` into a buffer of `outBufSize` bytes. -/
def xfrpcDecompress (z : Bytes) (outBufSize : ℕ) : Option Bytes :=
  if z = [] then none
  else
    L.bind fun S ↦ (S.uncompressedLength z).bind fun uncompLen ↦
      if uncompLen > outBufSize then none else S.uncompress z

/-- The output buffer `proxy_crypto_decode_evbuffer` allocates for `len` bytes. -/
def bufSize (len : ℕ) : ℕ := len * 4

def unpack (z : Bytes) : Option Bytes := xfrpcDecompress L z (bufSize z.length)

def packed (d : Bytes) : Bytes := (xfrpcCompress L d).getD d

def unpacked (z : Bytes) : Bytes := (unpack L z).getD z

/-- A chunk snappy takes is at most four times as long as its compression; one it
does not take must not unpack to something else. -/
def survives (d : Bytes) : Bool :=
  match xfrpcCompress L d with
  | some z => decide (d.length ≤ bufSize z.length)
  | none => (unpack L d).all (· == d)

variable {L}

theorem xfrpcDecompress_eq {S : Snappy} (hS : S.Sound) {z d : Bytes} (hz : z ≠ [])
    (h : S.uncompress z = some d) (n : ℕ) :
    xfrpcDecompress (some S) z n = if d.length > n then none else some d := by
  rw [xfrpcDecompress, if_neg hz, Option.bind_some, hS.exact h, Option.bind_some, h]

theorem unpack_compressed (hL : L.Sound) {d z : Bytes} (h : xfrpcCompress L d = some z) :
    unpack L z = if z ≠ [] ∧ d.length ≤ bufSize z.length then some d else none := by
  unfold xfrpcCompress at h
  split_ifs at h with hd
  obtain ⟨S, rfl, hS⟩ := Option.bind_eq_some_iff.mp h
  have hinv := (hL S rfl).inverse hS
  unfold unpack
  by_cases hz : z = []
  · rw [xfrpcDecompress, if_pos hz, if_neg (by simp [hz])]
  · rw [xfrpcDecompress_eq (hL S rfl) hz hinv]
    by_cases hfit : d.length ≤ bufSize z.length
    · rw [if_neg (by omega), if_pos ⟨hz, hfit⟩]
    · rw [if_pos (by omega), if_neg (fun h ↦ hfit h.2)]

theorem unpacked_packed_iff (hL : L.Sound) {d : Bytes} (hd : d ≠ []) :
    unpacked L (packed L d) = d ↔ survives L d = true := by
  unfold survives unpacked packed
  cases hc : xfrpcCompress L d with
  | none =>
    cases hu : unpack L d with
    | none => simp [hu]
    | some d' => simp [hu]
  | some z =>
    rw [Option.getD_some, unpack_compressed hL hc, decide_eq_true_iff]
    have hpos := List.length_pos_iff.mpr hd
    by_cases hz : z = []
    · subst hz
      rw [if_neg (by simp)]
      simp only [bufSize, Option.getD_none, List.length_nil]
      constructor
      · intro h
        exact absurd h.symm hd
      · intro h
        omega
    · by_cases hfit : d.length ≤ bufSize z.length
      · simp [hz, hfit]
      · rw [if_neg (fun h ↦ hfit h.2), Option.getD_none]
        refine ⟨fun h ↦ absurd ?_ hfit, fun h ↦ absurd h hfit⟩
        rw [h, bufSize]
        omega

theorem unpacked_nil : unpacked L [] = [] := rfl

/-- Thirty-two zero bytes, and what snappy makes of them: the length, a literal of
one byte, and a copy of thirty-one at distance one. -/
def zeros : Bytes := List.replicate 32 0

def packedZeros : Bytes := [0x20, 0x00, 0x00, 0x7a, 0x01, 0x00]

/-- Snappy on `zeros` and on at most fourteen bytes, which make up one literal. -/
def sampleSnappy : Snappy where
  compress d :=
    if d = zeros then some packedZeros
    else if d ≠ [] ∧ d.length ≤ 14 then
      some (.ofNat d.length :: .ofNat ((d.length - 1) * 4) :: d)
    else none
  uncompressedLength z := z.head?.map UInt8.toNat
  uncompress z :=
    if z = packedZeros then some zeros
    else
      match z with
      | n :: tag :: d =>
        if d ≠ [] ∧ d.length ≤ 14 ∧ n = .ofNat d.length ∧ tag = .ofNat ((d.length - 1) * 4) then
          some d
        else none
      | _ => none

theorem sampleSnappy_inverse {d z : Bytes} (h : sampleSnappy.compress d = some z) :
    sampleSnappy.uncompress z = some d := by
  simp only [sampleSnappy] at h ⊢
  split_ifs at h with h₁ h₂
  · obtain rfl := Option.some.inj h
    rw [if_pos rfl, h₁]
  · obtain rfl := Option.some.inj h
    have hne : (UInt8.ofNat d.length :: UInt8.ofNat ((d.length - 1) * 4) :: d) ≠ packedZeros := by
      intro heq
      have hlen := congrArg List.length heq
      have hhead := congrArg (fun z ↦ z.headD 0) heq
      have h4 : d.length = 4 := by simpa [packedZeros] using hlen
      rw [h4] at hhead
      exact absurd hhead (by decide : (UInt8.ofNat 4 : UInt8) ≠ 0x20)
    rw [if_neg hne]
    simp [h₂.1, h₂.2]

theorem sampleSnappy_exact {z d : Bytes} (h : sampleSnappy.uncompress z = some d) :
    sampleSnappy.uncompressedLength z = some d.length := by
  simp only [sampleSnappy] at h ⊢
  split_ifs at h with h₁
  · obtain rfl := Option.some.inj h
    rw [h₁]
    rfl
  · match z, h with
    | n :: tag :: d', h =>
      dsimp only at h
      split_ifs at h with h₂
      obtain rfl := Option.some.inj h
      have hlt : d'.length % 256 = d'.length := Nat.mod_eq_of_lt (by omega)
      simp [h₂.2.2.1, hlt]

theorem sampleSnappy_sound : sampleSnappy.Sound := ⟨sampleSnappy_inverse, sampleSnappy_exact⟩

end Xfrpc.Crypto.Compression
