import Xfrpc.Crypto.Compression
import Xfrpc.Snappy.RoundTrip

namespace Xfrpc.Crypto.Vendored

open Snappy.Compress Snappy.Decompress Snappy.RoundTrip Snappy.Varint

/-- `xfrpc_compress` into the block `out`: the length it reports, unless it returns −1, and the
block after it. The outer option is an access outside of a block or a failed check; `initEnv`
is whether `snappy_init_env` got its memory. -/
def xfrpcCompress (initEnv : Bool) (d out : Bytes) : Option (Option ℕ × Bytes) :=
  if d = [] then some (none, out)
  else if initEnv = false then some (none, out)
  else (snappyCompress d out).map fun (out, compLen) ↦ (some compLen, out)

/-- `xfrpc_decompress` into the block `out`, in the same way. -/
def xfrpcDecompress (wide : Bool) (z scratch out : Bytes) : Option (Option ℕ × Bytes) :=
  if z = [] then some (none, out)
  else
    match snappyUncompressedLength z with
    | none => some (none, out)
    | some uncompLen =>
      if uncompLen > out.length then some (none, out)
      else
        (snappyUncompress z wide scratch out).map fun (ret, out) ↦
          (if ret ≠ 0 then none else some uncompLen, out)

section Codec

-- the word size, what a fresh block of a length holds, and what the stack held
variable (wide : Bool) (fill : ℕ → Bytes) (scratch : Bytes)

/-- The calls of the library in `vendor/snappy`, on chunks whose length is an `int`. -/
def vendored : Compression.Snappy where
  compress d :=
    if d.length < 2 ^ 31 then
      (snappyCompress d (fill (snappyMaxCompressedLength d.length))).map fun (dest, n) ↦ dest.take n
    else none
  uncompressedLength := snappyUncompressedLength
  uncompress z :=
    (snappyUncompressedLength z).bind fun n ↦
      (snappyUncompress z wide scratch (fill n)).bind fun (ret, mem) ↦
        if ret = 0 then some (mem.take n) else none

end Codec

/-- A length the strict reader takes is the one the decompressor goes by. -/
theorem length_of_decode {z d : Bytes} {n : ℕ} (hlen : snappyUncompressedLength z = some n)
    (hdecode : decode z = some d) : d.length = n := by
  obtain ⟨⟨n', rest⟩, hparse, rfl⟩ := Option.map_eq_some_iff.mp hlen
  obtain ⟨rest', hread, -⟩ := decode_eq_some.mp hdecode
  rw [readUncompressedLength_of_parse hparse] at hread
  exact (Prod.mk.inj (Option.some.inj hread)).1.symm

theorem fits_of_length {z : Bytes} {n m : ℕ} (hlen : snappyUncompressedLength z = some n)
    (hfit : n ≤ m) : ∀ n' rest, readUncompressedLength z = some (n', rest) → n' ≤ m := by
  obtain ⟨⟨n, rest⟩, hparse, rfl⟩ := Option.map_eq_some_iff.mp hlen
  intro n' rest' hread
  rw [readUncompressedLength_of_parse hparse] at hread
  obtain ⟨rfl, -⟩ := Prod.mk.inj (Option.some.inj hread)
  exact hfit

variable {wide : Bool} {fill : ℕ → Bytes} {scratch : Bytes}

/-- Whatever the blocks held, what is uncompressed is what the buffer stands for. -/
theorem vendored_uncompress (hfill : ∀ n, (fill n).length = n) (hscratch : scratch.length = 5)
    (z : Bytes) :
    (vendored wide fill scratch).uncompress z =
      if (snappyUncompressedLength z).isSome = true then decode z else none := by
  cases hlen : snappyUncompressedLength z with
  | none =>
    simp only [vendored, hlen]
    rfl
  | some n =>
    simp only [vendored, hlen, Option.bind_some, Option.isSome_some, if_true]
    cases hdecode : decode z with
    | none =>
      obtain ⟨mem', hrun, -⟩ := snappyUncompress_of_refused wide hscratch hdecode
        (fits_of_length hlen (Nat.le_of_eq (hfill n).symm))
      rw [hrun, Option.bind_some]
      exact if_neg (show eio ≠ 0 by decide)
    | some d =>
      have hd := length_of_decode hlen hdecode
      obtain ⟨mem', hrun, htake, -⟩ := snappyUncompress_of_decode wide hscratch hdecode
        (show d.length ≤ (fill n).length by rw [hfill, hd])
      rw [hd] at htake
      rw [hrun, Option.bind_some, ← htake]
      exact if_pos rfl

/-- `xfrpc_decompress` on any bytes and in a block of any size: it stays in the block, and
reports what the interface does; what it reports is at the front of the block, and nothing
behind it is touched. -/
theorem xfrpcDecompress_run (hfill : ∀ n, (fill n).length = n) (hscratch : scratch.length = 5)
    (z out : Bytes) :
    ∃ r out', xfrpcDecompress wide z scratch out = some (r, out') ∧ out'.length = out.length ∧
      r.map out'.take =
        Compression.xfrpcDecompress (some (vendored wide fill scratch)) z out.length ∧
      ∀ n ∈ r, out'.drop n = out.drop n := by
  unfold xfrpcDecompress Compression.xfrpcDecompress
  by_cases hz : z = []
  · rw [if_pos hz, if_pos hz]
    exact ⟨none, out, rfl, rfl, rfl, fun n hn ↦ by cases hn⟩
  rw [if_neg hz, if_neg hz, Option.bind_some, vendored_uncompress hfill hscratch]
  simp only [vendored]
  cases hlen : snappyUncompressedLength z with
  | none => exact ⟨none, out, rfl, rfl, rfl, fun n hn ↦ by cases hn⟩
  | some n =>
    simp only [Option.bind_some]
    by_cases hbig : n > out.length
    · rw [if_pos hbig, if_pos hbig]
      exact ⟨none, out, rfl, rfl, rfl, fun n hn ↦ by cases hn⟩
    rw [if_neg hbig, if_neg hbig, if_pos (by rfl)]
    have hfits := fits_of_length hlen (Nat.le_of_not_lt hbig)
    cases hdecode : decode z with
    | none =>
      obtain ⟨mem', hrun, hcontained⟩ := snappyUncompress_of_refused wide hscratch hdecode hfits
      refine ⟨none, mem', ?_, hcontained.length, rfl, fun n hn ↦ by cases hn⟩
      rw [hrun]
      rfl
    | some d =>
      have hd := length_of_decode hlen hdecode
      obtain ⟨mem', hrun, htake, hcontained⟩ :=
        snappyUncompress_of_decode wide hscratch hdecode (by omega : d.length ≤ out.length)
      refine ⟨some n, mem', ?_, hcontained.length, ?_, fun n' hn ↦ ?_⟩
      · rw [hrun]
        rfl
      · rw [← hd]
        exact congrArg some htake
      · obtain rfl := Option.some.inj hn
        obtain ⟨rest, hread, -⟩ := decode_eq_some.mp hdecode
        rw [← hd]
        exact hcontained.behind _ _ hread

theorem vendored_sound (hfill : ∀ n, (fill n).length = n) (hscratch : scratch.length = 5) :
    (vendored wide fill scratch).Sound := by
  refine ⟨fun {d z} hz ↦ ?_, fun {z d} hd ↦ ?_⟩
  · obtain ⟨hlt, hz⟩ : d.length < 2 ^ 31 ∧ (snappyCompress d
        (fill (snappyMaxCompressedLength d.length))).map (fun (dest, n) ↦ dest.take n) = some z := by
      simp only [vendored] at hz
      split_ifs at hz with hlt
      exact ⟨hlt, hz⟩
    obtain ⟨dest', n, hrun, -, -, hdecode, hlen⟩ :=
      snappyCompress_run hlt (Nat.le_of_eq (hfill _).symm)
    rw [hrun] at hz
    obtain rfl := Option.some.inj hz
    rw [vendored_uncompress hfill hscratch, hlen]
    exact hdecode
  · rw [vendored_uncompress hfill hscratch] at hd
    split_ifs at hd with hsome
    obtain ⟨n, hn⟩ := Option.isSome_iff_exists.mp hsome
    have hlen := length_of_decode hn hd
    simp only [vendored]
    rw [hn, hlen]

/-- The vendored library is what the tunnel takes it for: uncompressing inverts compressing,
and `xfrpc_decompress` refines the call of the interface on whatever bytes come in, without an
access outside of its block. -/
theorem vendored_refines (wide : Bool) {fill : ℕ → Bytes} {scratch : Bytes}
    (hfill : ∀ n, (fill n).length = n) (hscratch : scratch.length = 5) :
    Compression.Library.Sound (some (vendored wide fill scratch)) ∧
    ∀ z out : Bytes, ∃ r out', xfrpcDecompress wide z scratch out = some (r, out') ∧
      out'.length = out.length ∧
      r.map out'.take =
        Compression.xfrpcDecompress (some (vendored wide fill scratch)) z out.length ∧
      ∀ n ∈ r, out'.drop n = out.drop n := by
  refine ⟨fun S hS ↦ ?_, xfrpcDecompress_run hfill hscratch⟩
  obtain rfl := Option.some.inj hS
  exact vendored_sound hfill hscratch

/-- Blocks that hold sevens. -/
theorem vendored_refines_sevens :
    Compression.Library.Sound (some (vendored false (.replicate · 7) [1, 2, 3, 4, 5])) ∧
    ∀ z out : Bytes, ∃ r out', xfrpcDecompress false z [1, 2, 3, 4, 5] out = some (r, out') ∧
      out'.length = out.length ∧
      r.map out'.take = Compression.xfrpcDecompress
        (some (vendored false (.replicate · 7) [1, 2, 3, 4, 5])) z out.length ∧
      ∀ n ∈ r, out'.drop n = out.drop n :=
  vendored_refines false (fun _ ↦ List.length_replicate) rfl

/-- A chunk on its way through the tunnel. Both buffers that `proxy_tcp.c` allocates suffice
for the calls to stay in them, and the chunk comes back exactly when its compression is a
quarter of it or more; otherwise the block is left alone. -/
theorem chunk_comes_back (wide : Bool) {d comp scratch : Bytes} (hd : d ≠ [])
    (hlen : d.length < 2 ^ 31) (hcomp : comp.length = snappyMaxCompressedLength d.length)
    (hscratch : scratch.length = 5) :
    ∃ n comp', xfrpcCompress true d comp = some (some n, comp') ∧ n ≤ comp.length ∧
      ∀ out : Bytes, out.length = Compression.bufSize n →
        ∃ r out', xfrpcDecompress wide (comp'.take n) scratch out = some (r, out') ∧
          (r = some d.length ∧ out' = d ++ out.drop d.length ∨ r = none ∧ out' = out) ∧
          (r = some d.length ↔ d.length ≤ 4 * n) := by
  obtain ⟨comp', n, hrun, hroom, hn, hdecode, hstrict⟩ :=
    snappyCompress_run hlen (Nat.le_of_eq hcomp.symm)
  refine ⟨n, comp', ?_, by rw [hcomp]; exact hn, fun out hout ↦ ?_⟩
  · rw [xfrpcCompress, if_neg hd, if_neg (by decide), hrun, Option.map_some]
  rw [Compression.bufSize] at hout
  have hz : comp'.take n ≠ [] := by
    intro hnil
    rw [hnil] at hstrict
    cases hstrict
  rw [xfrpcDecompress, if_neg hz, hstrict]
  dsimp only
  by_cases hfit : d.length ≤ out.length
  · obtain ⟨rest, hread, -⟩ := decode_eq_some.mp hdecode
    obtain ⟨out', hback, htake, hcontained⟩ :=
      snappyUncompress_of_decode wide hscratch hdecode hfit
    have hwhole : out' = d ++ out.drop d.length := by
      rw [← List.take_append_drop d.length out', htake, hcontained.behind _ rest hread]
    rw [if_neg (by omega), hback]
    exact ⟨some d.length, out', rfl, .inl ⟨rfl, hwhole⟩, fun _ ↦ by omega, fun _ ↦ rfl⟩
  · rw [if_pos (by omega)]
    refine ⟨none, out, rfl, .inr ⟨rfl, rfl⟩, ?_⟩
    constructor
    · intro h
      cases h
    · intro h
      omega

theorem chunk_comes_back_letters :
    ∃ n comp', xfrpcCompress true [0x61, 0x62] (.replicate 34 7) = some (some n, comp') ∧
      n ≤ 34 ∧
      ∀ out : Bytes, out.length = Compression.bufSize n →
        ∃ r out', xfrpcDecompress true (comp'.take n) [1, 2, 3, 4, 5] out = some (r, out') ∧
          (r = some 2 ∧ out' = 0x61 :: 0x62 :: out.drop 2 ∨ r = none ∧ out' = out) ∧
          (r = some 2 ↔ 2 ≤ 4 * n) :=
  chunk_comes_back true (d := [0x61, 0x62]) (by decide) (by decide) rfl rfl

end Xfrpc.Crypto.Vendored
