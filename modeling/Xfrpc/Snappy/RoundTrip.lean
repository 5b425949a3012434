import Xfrpc.Snappy.Decompress
import Xfrpc.Snappy.Fragment

namespace Xfrpc.Snappy.RoundTrip

open Foundations.Block
open Compress Decompress Emission Format Fragment Varint

/-- The length in front of the elements is read back by both readers. -/
theorem read_encode {n : ℕ} (hn : n < 2 ^ 32) (rest : Bytes) :
    readUncompressedLength (varintEncode32 n ++ rest) = some (n, rest) ∧
      snappyUncompressedLength (varintEncode32 n ++ rest) = some n := by
  have hparse := varintParse32WithLimit_encode hn rest
  exact ⟨readUncompressedLength_of_parse hparse, by rw [snappyUncompressedLength, hparse]; rfl⟩

/-- The compressor in a buffer as long as its bound. -/
theorem snappyCompress_run {input dest : Bytes} (hlen : input.length < 2 ^ 31)
    (hdest : snappyMaxCompressedLength input.length ≤ dest.length) :
    ∃ dest' n, snappyCompress input dest = some (dest', n) ∧ dest'.length = dest.length ∧
      n ≤ snappyMaxCompressedLength input.length ∧ decode (dest'.take n) = some input ∧
      snappyUncompressedLength (dest'.take n) = some input.length := by
  rw [snappyMaxCompressedLength] at hdest ⊢
  have hmod : input.length % 2 ^ 32 = input.length := Nat.mod_eq_of_lt (by omega)
  obtain ⟨-, hfive⟩ := varintEncode32_length input.length
  obtain ⟨s, hput, hs⟩ := put_spec ⟨dest, 0⟩ (varintEncode32 input.length)
    (by dsimp only; omega)
  have hop : s.op = (varintEncode32 input.length).length := by
    rw [hs.op]
    exact Nat.zero_add _
  have hcode : code s = varintEncode32 input.length := by
    have hall := hs.code
    rwa [show code ⟨dest, 0⟩ = [] from rfl, List.nil_append] at hall
  obtain ⟨s', hloop, ⟨elements, hall, hpacks⟩, hroom, hle⟩ :=
    blockLoop_spec (Nat.lt_succ_self input.length)
      (show s.op + input.length + input.length / 6 + 20 ≤ dest.length by omega) hs.room
      ⟨[], (List.append_nil (code s)).symm, .refl []⟩
  obtain ⟨hread, hlength⟩ := read_encode (show input.length < 2 ^ 32 by omega) elements
  rw [hcode] at hall
  have hfront : s'.dest.take s'.op = varintEncode32 input.length ++ elements := hall
  refine ⟨s'.dest, s'.op, ?_, hroom, by omega, ?_, by rw [hfront, hlength]⟩
  · rw [snappyCompress, hmod, hput, Option.bind_some, if_pos hlen, hloop, Option.map_some]
  · rw [hfront]
    exact decode_eq_some.mpr ⟨elements, hread, hpacks.unpack⟩

/-- Whatever it is given, the compressor stays in a buffer of the size its bound says, fails
none of its checks, and leaves a stream that stands for its input. -/
theorem snappyCompress_decodes {input dest : Bytes} (hlen : input.length < 2 ^ 31)
    (hdest : snappyMaxCompressedLength input.length ≤ dest.length) :
    ∃ dest' n, snappyCompress input dest = some (dest', n) ∧ dest'.length = dest.length ∧
      n ≤ snappyMaxCompressedLength input.length ∧ decode (dest'.take n) = some input := by
  obtain ⟨dest', n, hrun, hroom, hn, hdecode, -⟩ := snappyCompress_run hlen hdest
  exact ⟨dest', n, hrun, hroom, hn, hdecode⟩

/-- Thirty-two zeros make a literal of one byte and a copy at distance one. -/
theorem snappyCompress_decodes_zeros :
    snappyMaxCompressedLength 32 = 69 ∧
    ∃ dest' n, snappyCompress (.replicate 32 0) (.replicate 69 7) = some (dest', n) ∧
      dest'.length = 69 ∧ n ≤ 69 ∧ decode (dest'.take n) = some (.replicate 32 0) :=
  ⟨rfl, @snappyCompress_decodes (.replicate 32 0) (.replicate 69 7) (by decide) (by decide)⟩

/-- Uncompressing what has been compressed gives it back, in any two buffers that are large
enough and on machines of either word size. -/
theorem snappy_round_trip (wide : Bool) {input dest scratch mem : Bytes}
    (hlen : input.length < 2 ^ 31)
    (hdest : snappyMaxCompressedLength input.length ≤ dest.length)
    (hscratch : scratch.length = 5) (hmem : input.length ≤ mem.length) :
    ∃ dest' n mem', snappyCompress input dest = some (dest', n) ∧
      snappyUncompressedLength (dest'.take n) = some input.length ∧
      snappyUncompress (dest'.take n) wide scratch mem = some (0, mem') ∧
      mem' = input ++ mem.drop input.length := by
  obtain ⟨dest', n, hrun, -, -, hdecode, hlength⟩ := snappyCompress_run hlen hdest
  obtain ⟨rest, hread, -⟩ := decode_eq_some.mp hdecode
  obtain ⟨mem', hback, htake, hcontained⟩ :=
    snappyUncompress_of_decode wide hscratch hdecode hmem
  refine ⟨dest', n, mem', hrun, hlength, hback, ?_⟩
  calc mem' = mem'.take input.length ++ mem'.drop input.length := (List.take_append_drop ..).symm
    _ = input ++ mem.drop input.length := by rw [htake, hcontained.behind _ rest hread]

/-- Two words of four letters each, far enough apart for a copy, in buffers with old bytes. -/
theorem snappy_round_trip_words :
    snappyMaxCompressedLength 24 = 60 ∧
    ∃ dest' n mem',
      snappyCompress ((List.replicate 6 [0x61, 0x62, 0x63, 0x64]).flatten) (.replicate 60 7) =
        some (dest', n) ∧
      snappyUncompressedLength (dest'.take n) = some 24 ∧
      snappyUncompress (dest'.take n) true [1, 2, 3, 4, 5] (.replicate 26 9) = some (0, mem') ∧
      mem' = (List.replicate 6 [0x61, 0x62, 0x63, 0x64]).flatten ++ [9, 9] :=
  ⟨rfl, snappy_round_trip true (by decide) (by decide) rfl (by decide)⟩

end Xfrpc.Snappy.RoundTrip
