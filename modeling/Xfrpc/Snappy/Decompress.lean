import Xfrpc.Snappy.Format
import Xfrpc.Snappy.Output
import Xfrpc.Snappy.Varint

namespace Xfrpc.Snappy.Decompress

open Foundations.BackReference Foundations.Block Foundations.LittleEndian
open Format Output Varint

/-- `char_table`: a length in the bits 0 to 7, the high part of an offset in 8 to 10, and the
number of bytes behind the tag from 11 on. -/
def charTable : List ℕ :=
  [0x0001, 0x0804, 0x1001, 0x2001, 0x0002, 0x0805, 0x1002, 0x2002,
   0x0003, 0x0806, 0x1003, 0x2003, 0x0004, 0x0807, 0x1004, 0x2004,
   0x0005, 0x0808, 0x1005, 0x2005, 0x0006, 0x0809, 0x1006, 0x2006,
   0x0007, 0x080a, 0x1007, 0x2007, 0x0008, 0x080b, 0x1008, 0x2008,
   0x0009, 0x0904, 0x1009, 0x2009, 0x000a, 0x0905, 0x100a, 0x200a,
   0x000b, 0x0906, 0x100b, 0x200b, 0x000c, 0x0907, 0x100c, 0x200c,
   0x000d, 0x0908, 0x100d, 0x200d, 0x000e, 0x0909, 0x100e, 0x200e,
   0x000f, 0x090a, 0x100f, 0x200f, 0x0010, 0x090b, 0x1010, 0x2010,
   0x0011, 0x0a04, 0x1011, 0x2011, 0x0012, 0x0a05, 0x1012, 0x2012,
   0x0013, 0x0a06, 0x1013, 0x2013, 0x0014, 0x0a07, 0x1014, 0x2014,
   0x0015, 0x0a08, 0x1015, 0x2015, 0x0016, 0x0a09, 0x1016, 0x2016,
   0x0017, 0x0a0a, 0x1017, 0x2017, 0x0018, 0x0a0b, 0x1018, 0x2018,
   0x0019, 0x0b04, 0x1019, 0x2019, 0x001a, 0x0b05, 0x101a, 0x201a,
   0x001b, 0x0b06, 0x101b, 0x201b, 0x001c, 0x0b07, 0x101c, 0x201c,
   0x001d, 0x0b08, 0x101d, 0x201d, 0x001e, 0x0b09, 0x101e, 0x201e,
   0x001f, 0x0b0a, 0x101f, 0x201f, 0x0020, 0x0b0b, 0x1020, 0x2020,
   0x0021, 0x0c04, 0x1021, 0x2021, 0x0022, 0x0c05, 0x1022, 0x2022,
   0x0023, 0x0c06, 0x1023, 0x2023, 0x0024, 0x0c07, 0x1024, 0x2024,
   0x0025, 0x0c08, 0x1025, 0x2025, 0x0026, 0x0c09, 0x1026, 0x2026,
   0x0027, 0x0c0a, 0x1027, 0x2027, 0x0028, 0x0c0b, 0x1028, 0x2028,
   0x0029, 0x0d04, 0x1029, 0x2029, 0x002a, 0x0d05, 0x102a, 0x202a,
   0x002b, 0x0d06, 0x102b, 0x202b, 0x002c, 0x0d07, 0x102c, 0x202c,
   0x002d, 0x0d08, 0x102d, 0x202d, 0x002e, 0x0d09, 0x102e, 0x202e,
   0x002f, 0x0d0a, 0x102f, 0x202f, 0x0030, 0x0d0b, 0x1030, 0x2030,
   0x0031, 0x0e04, 0x1031, 0x2031, 0x0032, 0x0e05, 0x1032, 0x2032,
   0x0033, 0x0e06, 0x1033, 0x2033, 0x0034, 0x0e07, 0x1034, 0x2034,
   0x0035, 0x0e08, 0x1035, 0x2035, 0x0036, 0x0e09, 0x1036, 0x2036,
   0x0037, 0x0e0a, 0x1037, 0x2037, 0x0038, 0x0e0b, 0x1038, 0x2038,
   0x0039, 0x0f04, 0x1039, 0x2039, 0x003a, 0x0f05, 0x103a, 0x203a,
   0x003b, 0x0f06, 0x103b, 0x203b, 0x003c, 0x0f07, 0x103c, 0x203c,
   0x0801, 0x0f08, 0x103d, 0x203d, 0x1001, 0x0f09, 0x103e, 0x203e,
   0x1801, 0x0f0a, 0x103f, 0x203f, 0x2001, 0x0f0b, 0x1040, 0x2040]

def wordmask : List ℕ := [0, 0xff, 0xffff, 0xffffff, 0xffffffff]

/-- `struct snappy_decompressor` with its reader, which is a flat buffer. `ip` and `ip_limit`
are offsets in the scratch buffer or in the source; before the first fragment, where both are
NULL, they are zero. -/
structure Decompressor where
  ptr : ℕ
  left : ℕ
  inScratch : Bool
  ip : ℕ
  ipLimit : ℕ
  peeked : ℕ
  eof : Bool
  scratch : Bytes
  deriving DecidableEq, Repr

/-- `skip(d->reader, d->peeked)`. -/
def Decompressor.skipPeeked (d : Decompressor) : Decompressor :=
  { d with ptr := d.ptr + d.peeked, left := d.left - d.peeked }

/-- `ip = peek(d->reader, &n)`, with the limit behind the fragment. -/
def Decompressor.peekAll (d : Decompressor) : Decompressor :=
  { d with inScratch := false, ip := d.ptr, ipLimit := d.ptr + d.left, peeked := d.left }

section Source

variable (src : Bytes)

/-- The block `ip` points into. -/
def Decompressor.buffer (d : Decompressor) : Bytes := if d.inScratch then d.scratch else src

/-- The bytes of the source that a tag lacks are added to the scratch buffer. -/
def stitchLoop : ℕ → ℕ → ℕ → Decompressor → Option (Bool × Decompressor)
  | 0, _, _, _ => none
  | fuel + 1, nbuf, needed, d =>
    if nbuf < needed then
      if d.left = 0 then some (false, d)
      else
        let toAdd := min (needed - nbuf) d.left
        ((load? src d.ptr toAdd).bind (store? d.scratch nbuf)).bind fun scratch ↦
          stitchLoop fuel (nbuf + toAdd) needed
            { d with scratch := scratch, ptr := d.ptr + toAdd, left := d.left - toAdd }
    else some (true, { d with inScratch := true, ip := 0, ipLimit := needed })

/-- `refill_tag` once a fragment is there. -/
def refillFrom (d : Decompressor) : Option (Bool × Decompressor) :=
  if d.ipLimit ≤ d.ip then none
  else
    (d.buffer src)[d.ip]?.bind fun c ↦ charTable[c.toNat]?.bind fun entry ↦
      let needed := entry >>> 11 + 1
      let nbuf := d.ipLimit - d.ip
      if 5 < needed then none
      else if nbuf < 5 then
        ((load? (d.buffer src) d.ip nbuf).bind (store? d.scratch 0)).bind fun scratch ↦
          let d := { d.skipPeeked with scratch := scratch, peeked := 0 }
          if nbuf < needed then stitchLoop src 6 nbuf needed d
          else some (true, { d with inScratch := true, ip := 0, ipLimit := nbuf })
      else some (true, d)

def refillTag (d : Decompressor) : Option (Bool × Decompressor) :=
  if d.ip = d.ipLimit then
    if d.skipPeeked.left = 0 then some (false, { d.skipPeeked with peeked := 0, eof := true })
    else refillFrom src d.skipPeeked.peekAll
  else refillFrom src d

/-- `MAYBE_REFILL`. -/
def maybeRefill (d : Decompressor) : Option (Bool × Decompressor) :=
  if d.ipLimit - d.ip < 5 then refillTag src d else some (true, d)

/-- How a piece of the loop of `decompress_all_tags` ends: it goes on, or it returns. -/
inductive Flow
  | next (d : Decompressor) (w : Writer)
  | done (d : Decompressor) (w : Writer)
  deriving DecidableEq, Repr

/-- The rest of a literal, of which the buffer may hold only a part. -/
def literalLoop : ℕ → ℕ → Decompressor → Writer → Option Flow
  | 0, _, _, _ => none
  | fuel + 1, literalLength, d, w =>
    let avail := d.ipLimit - d.ip
    if avail < literalLength then
      ((load? (d.buffer src) d.ip avail).bind (writerAppend w)).bind fun (ok, w) ↦
        if ok then
          if d.skipPeeked.left = 0 then some (.done { d.skipPeeked with peeked := 0 } w)
          else literalLoop fuel (literalLength - avail) d.skipPeeked.peekAll w
        else some (.done d w)
    else
      ((load? (d.buffer src) d.ip literalLength).bind (writerAppend w)).bind fun (ok, w) ↦
        if ok then some (.next { d with ip := d.ip + literalLength } w) else some (.done d w)

/-- A literal whose tag has been read. -/
def literalTag (c : UInt8) (d : Decompressor) (w : Writer) : Option Flow :=
  let literalLength := c.toNat >>> 2 + 1
  (writerTryFastAppend w (d.buffer src) d.ip (d.ipLimit - d.ip) literalLength).bind fun (ok, w) ↦
    if ok then some (.next { d with ip := d.ip + literalLength } w)
    else if 61 ≤ literalLength then
      let literalLl := literalLength - 60
      (load? (d.buffer src) d.ip 4).bind fun word ↦ wordmask[literalLl]?.bind fun mask ↦
        literalLoop src (d.left + 2) (((ofLe word &&& mask) + 1) % 2 ^ 32)
          { d with ip := d.ip + literalLl } w
    else literalLoop src (d.left + 2) literalLength d w

variable (wide : Bool)

/-- A copy whose tag has been read. -/
def copyTag (c : UInt8) (d : Decompressor) (w : Writer) : Option Flow :=
  charTable[c.toNat]?.bind fun entry ↦
    (load? (d.buffer src) d.ip 4).bind fun word ↦ wordmask[entry >>> 11]?.bind fun mask ↦
      (writerAppendFromSelf wide w (((entry &&& 0x700) + (ofLe word &&& mask)) % 2 ^ 32)
        (entry &&& 0xff)).bind fun (ok, w) ↦
          let d := { d with ip := d.ip + entry >>> 11 }
          if ok then some (.next d w) else some (.done d w)

/-- The tag at `ip` and what belongs to it. -/
def tagBody (d : Decompressor) (w : Writer) : Option Flow :=
  (d.buffer src)[d.ip]?.bind fun c ↦
    let d := { d with ip := d.ip + 1 }
    if c.toNat &&& 3 = 0 then literalTag src c d w else copyTag src wide c d w

/-- One turn of the loop, with the refill at its beginning and the one at its end. -/
def turn (d : Decompressor) (w : Writer) : Option Flow :=
  (maybeRefill src d).bind fun (ok, d) ↦
    if ok then
      (tagBody src wide d w).bind fun flow ↦
        match flow with
        | .done d w => some (.done d w)
        | .next d w => (maybeRefill src d).map fun (ok, d) ↦ if ok then .next d w else .done d w
    else some (.done d w)

def tagLoop : ℕ → Decompressor → Writer → Option (Decompressor × Writer)
  | 0, _, _ => none
  | fuel + 1, d, w =>
    (turn src wide d w).bind fun flow ↦
      match flow with
      | .done d w => some (d, w)
      | .next d w => tagLoop fuel d w

def decompressAllTags (d : Decompressor) (w : Writer) : Option (Decompressor × Writer) :=
  (maybeRefill src d).bind fun (ok, d) ↦
    if ok then tagLoop src wide (src.length + 1) d w else some (d, w)

/-- `-EIO`. -/
def eio : ℤ := -5

/-- `snappy_uncompress` of the source into the block `mem`; none is an access outside of a
block or a failed check. The scratch buffer is on the stack, with whatever was there. -/
def snappyUncompress (scratch mem : Bytes) : Option (ℤ × Bytes) :=
  match readUncompressedLength src with
  | none => some (eio, mem)
  | some (uncompressedLen, rest) =>
    if 0xffffffff < uncompressedLen then some (eio, mem)
    else
      (decompressAllTags src wide
        ⟨src.length - rest.length, rest.length, false, 0, 0, 0, false, scratch⟩
        ⟨mem, 0, uncompressedLen⟩).map fun (d, w) ↦
          (if d.eof = true ∧ w.op = w.opLimit then 0 else eio, w.mem)

end Source

/-- The table is the arithmetic of the format. -/
theorem charTable_spec (c : UInt8) :
    ∃ entry, charTable[c.toNat]? = some entry ∧ entry >>> 11 = trailerLength c ∧
      (c.toNat % 4 ≠ 0 → entry &&& 0xff = copyLength c ∧
        ∀ trailer, copyOffset c trailer = (entry &&& 0x700) + trailer) := by
  have htable : ∀ n : Fin 256, ∃ entry ∈ charTable[n.val]?,
      entry >>> 11 = trailerLength (.ofNat n.val) ∧
        (n.val % 4 ≠ 0 → entry &&& 0xff = copyLength (.ofNat n.val) ∧
          (entry &&& 0x700) = if n.val % 4 = 1 then n.val / 32 * 256 else 0) := by
    decide +kernel
  obtain ⟨entry, hentry, htrailer, hcopy⟩ := htable ⟨c.toNat, c.toNat_lt⟩
  rw [UInt8.ofNat_toNat] at htrailer hcopy
  refine ⟨entry, hentry, htrailer, fun hc ↦ ⟨(hcopy hc).1, fun trailer ↦ ?_⟩⟩
  rw [(hcopy hc).2, copyOffset]
  dsimp only
  split_ifs
  · rfl
  · rw [Nat.zero_add]

theorem trailerLength_le (c : UInt8) : trailerLength c ≤ 4 := by
  have hc := c.toNat_lt
  unfold trailerLength
  split <;> omega

/-- The mask leaves the low bytes of a word. -/
theorem and_wordmask (word : Bytes) {k : ℕ} (hk : k ≤ 4) :
    ∃ mask, wordmask[k]? = some mask ∧ ofLe word &&& mask = ofLe (word.take k) := by
  have hmask : wordmask[k]? = some (2 ^ (8 * k) - 1) := by
    obtain rfl | rfl | rfl | rfl | rfl : k = 0 ∨ k = 1 ∨ k = 2 ∨ k = 3 ∨ k = 4 := by omega
    all_goals rfl
  refine ⟨_, hmask, ?_⟩
  rw [Nat.and_two_pow_sub_one_eq_mod, Nat.pow_mul, ← ofLe_mod]

section Reading

variable (src : Bytes)

/-- The bytes from `ip` to `ip_limit`. -/
def Decompressor.window (d : Decompressor) : Bytes :=
  ((d.buffer src).drop d.ip).take (d.ipLimit - d.ip)

/-- What is still to be read. -/
def Decompressor.rest (d : Decompressor) : Bytes := d.window src ++ src.drop (d.ptr + d.peeked)

/-- A flat source is peeked as a whole, so that the scratch buffer only ever holds its last
bytes. -/
structure Valid (d : Decompressor) : Prop where
  room : d.scratch.length = 5
  ip_le : d.ip ≤ d.ipLimit
  limit_le : d.ipLimit ≤ (d.buffer src).length
  whole : d.ptr + d.left = src.length
  place : d.inScratch = false ∧ d.peeked = d.left ∨
    d.inScratch = true ∧ d.ipLimit < 5 ∧ d.peeked = 0 ∧ d.left = 0 ∨
    d.ip = d.ipLimit ∧ d.peeked = 0

/-- The next tag is buffered with all that belongs to it, and five bytes can be read. -/
structure Ready (d : Decompressor) : Prop extends Valid src d where
  front : d.ip + 5 ≤ (d.buffer src).length
  peeked_all : d.ptr + d.peeked = src.length
  complete : ∃ c code, d.window src = c :: code ∧ trailerLength c ≤ code.length

variable {src} {d : Decompressor}

theorem Valid.window_length (h : Valid src d) : (d.window src).length = d.ipLimit - d.ip :=
  length_drop_take (by have hip := h.ip_le; have hlimit := h.limit_le; omega)

/-- Once something is buffered, it is all there is. -/
theorem Valid.rest_eq (h : Valid src d) (hip : d.ip ≠ d.ipLimit) :
    d.ptr + d.peeked = src.length ∧ d.rest src = d.window src := by
  have hwhole := h.whole
  have hall : d.ptr + d.peeked = src.length := by
    obtain ⟨-, hp⟩ | ⟨-, -, hp, hl⟩ | ⟨hempty, -⟩ := h.place
    · omega
    · omega
    · exact absurd hempty hip
  rw [Decompressor.rest, List.drop_of_length_le (by omega), List.append_nil]
  exact ⟨hall, rfl⟩

theorem Valid.peekAll (h : Valid src d) : Valid src d.skipPeeked.peekAll ∧
    d.skipPeeked.peekAll.window src = src.drop (d.ptr + d.peeked) := by
  have hwhole := h.whole
  have hpeeked : d.peeked ≤ d.left := by
    obtain ⟨-, hp⟩ | ⟨-, -, hp, -⟩ | ⟨-, hp⟩ := h.place <;> omega
  have hsum : d.ptr + d.peeked + (d.left - d.peeked) = src.length := by omega
  refine ⟨⟨h.room, Nat.le_add_right _ _, Nat.le_of_eq hsum, hsum, .inl ⟨rfl, rfl⟩⟩, ?_⟩
  change (src.drop (d.ptr + d.peeked)).take
    (d.ptr + d.peeked + (d.left - d.peeked) - (d.ptr + d.peeked)) = _
  apply List.take_of_length_le
  rw [List.length_drop]
  omega

theorem getElem?_window {j : ℕ} (hj : j < d.ipLimit - d.ip) :
    (d.window src)[j]? = (d.buffer src)[d.ip + j]? := getElem?_drop_take hj

theorem stitchLoop_end {fuel nbuf needed : ℕ} (hlack : nbuf < needed) (hleft : d.left = 0) :
    stitchLoop src (fuel + 1) nbuf needed d = some (false, d) := by
  rw [stitchLoop, if_pos hlack, if_pos hleft]

/-- Short of the source's end the scratch buffer takes over; without all bytes of the tag the
refill fails, and not for want of input. -/
theorem refillFrom_spec (h : Valid src d) (hip : d.ip < d.ipLimit) {c : UInt8} {code : Bytes}
    (hwin : d.window src = c :: code) :
    (trailerLength c ≤ code.length ∧ ∃ d', refillFrom src d = some (true, d') ∧ Ready src d' ∧
      d'.window src = c :: code ∧ d'.eof = d.eof) ∨
    (code.length < trailerLength c ∧ ∃ d', refillFrom src d = some (false, d') ∧
      d'.eof = d.eof) := by
  have hlimit := h.limit_le
  have hroom := h.room
  have hsmall := trailerLength_le c
  obtain ⟨hall, -⟩ := h.rest_eq (Nat.ne_of_lt hip)
  have hnbuf : d.ipLimit - d.ip = code.length + 1 := by
    rw [← h.window_length, hwin, List.length_cons]
  have hbyte : (d.buffer src)[d.ip]? = some c := by
    rw [← Nat.add_zero d.ip, ← getElem?_window (by omega), hwin]
    rfl
  obtain ⟨entry, hentry, hneeded, -⟩ := charTable_spec c
  have hunfold : refillFrom src d =
      if d.ipLimit - d.ip < 5 then
        ((load? (d.buffer src) d.ip (d.ipLimit - d.ip)).bind (store? d.scratch 0)).bind
          fun scratch ↦
            let d' := { d.skipPeeked with scratch := scratch, peeked := 0 }
            if d.ipLimit - d.ip < trailerLength c + 1 then
              stitchLoop src 6 (d.ipLimit - d.ip) (trailerLength c + 1) d'
            else some (true, { d' with inScratch := true, ip := 0, ipLimit := d.ipLimit - d.ip })
      else some (true, d) := by
    rw [refillFrom, if_neg (by omega), hbyte, Option.bind_some, hentry, Option.bind_some]
    dsimp only
    rw [hneeded, if_neg (by omega)]
  rw [hunfold]
  by_cases hfew : d.ipLimit - d.ip < 5
  · rw [if_pos hfew]
    have hwindow : ((d.buffer src).drop d.ip).take (d.ipLimit - d.ip) = c :: code := hwin
    have hcells : (c :: code).length = d.ipLimit - d.ip := by rw [List.length_cons, hnbuf]
    rw [load?_eq (by omega), Option.bind_some, hwindow, store?_eq (by omega), Option.bind_some]
    dsimp only
    have hscratch := store_length (show 0 + (c :: code).length ≤ d.scratch.length by omega)
    have htake := @store_take _ d.scratch (c :: code) 0 (Nat.zero_le _)
    rw [Nat.zero_add, List.take_zero, List.nil_append, hcells] at htake
    by_cases hlack : d.ipLimit - d.ip < trailerLength c + 1
    · refine .inr ⟨by omega,
        { d.skipPeeked with scratch := store d.scratch 0 (c :: code), peeked := 0 }, ?_, rfl⟩
      have hwhole := h.whole
      have hleft : d.left - d.peeked = 0 := by omega
      rw [if_pos hlack]
      exact stitchLoop_end hlack hleft
    · have hwhole := h.whole
      have hwin' : ((store d.scratch 0 (c :: code)).drop 0).take (d.ipLimit - d.ip - 0) =
          c :: code := by rw [List.drop_zero, Nat.sub_zero, htake]
      refine .inl ⟨by omega, _, if_neg hlack, ⟨⟨hscratch.trans hroom, Nat.zero_le _, ?_, ?_, ?_⟩,
        ?_, ?_, c, code, hwin', by omega⟩, hwin', rfl⟩
      · change d.ipLimit - d.ip ≤ (store d.scratch 0 (c :: code)).length
        omega
      · change d.ptr + d.peeked + (d.left - d.peeked) = src.length
        omega
      · refine .inr (.inl ⟨rfl, hfew, rfl, ?_⟩)
        change d.left - d.peeked = 0
        omega
      · change 0 + 5 ≤ (store d.scratch 0 (c :: code)).length
        omega
      · exact hall
  · rw [if_neg hfew]
    exact .inl ⟨by omega, d, rfl, ⟨h, by omega, hall, c, code, hwin, by omega⟩, hwin, rfl⟩

/-- The refill at the ends of a turn. -/
theorem maybeRefill_spec (h : Valid src d) :
    (d.rest src = [] ∧ ∃ d', maybeRefill src d = some (false, d') ∧ d'.eof = true) ∨
    ∃ c code, d.rest src = c :: code ∧
      ((trailerLength c ≤ code.length ∧ ∃ d', maybeRefill src d = some (true, d') ∧
        Ready src d' ∧ d'.window src = c :: code ∧ d'.eof = d.eof) ∨
      (code.length < trailerLength c ∧ ∃ d', maybeRefill src d = some (false, d') ∧
        d'.eof = d.eof)) := by
  have hwhole := h.whole
  have hle := h.ip_le
  have hwlen := h.window_length
  unfold maybeRefill
  by_cases hempty : d.ip = d.ipLimit
  · rw [if_pos (by omega), refillTag, if_pos hempty]
    have hrest : d.rest src = src.drop (d.ptr + d.peeked) := by
      rw [Decompressor.rest, List.eq_nil_of_length_eq_zero (show (d.window src).length = 0 by omega),
        List.nil_append]
    have hleft : (d.rest src).length = d.left - d.peeked := by
      rw [hrest, List.length_drop]
      omega
    by_cases hnone : d.skipPeeked.left = 0
    · rw [if_pos hnone]
      have hnil : d.left - d.peeked = 0 := hnone
      exact .inl ⟨List.eq_nil_of_length_eq_zero (by omega), _, rfl, rfl⟩
    · rw [if_neg hnone]
      have hsome : d.left - d.peeked ≠ 0 := hnone
      have hpeek := h.peekAll
      obtain ⟨c, code, hcode⟩ :=
        List.exists_cons_of_length_pos (show 0 < (d.rest src).length by omega)
      refine .inr ⟨c, code, hcode, refillFrom_spec hpeek.1 ?_ ?_⟩
      · change d.ptr + d.peeked < d.ptr + d.peeked + (d.left - d.peeked)
        omega
      · rw [hpeek.2, ← hrest, hcode]
  · obtain ⟨hall, hrest⟩ := h.rest_eq hempty
    obtain ⟨c, code, hcode⟩ := List.exists_cons_of_length_pos
      (show 0 < (d.window src).length by omega)
    refine .inr ⟨c, code, hrest.trans hcode, ?_⟩
    by_cases hfew : d.ipLimit - d.ip < 5
    · rw [if_pos hfew, refillTag, if_neg hempty]
      exact refillFrom_spec h (by omega) hcode
    · have hlimit := h.limit_le
      have hsmall := trailerLength_le c
      rw [hcode, List.length_cons] at hwlen
      rw [if_neg hfew]
      exact .inl ⟨by omega, d, rfl, ⟨h, by omega, hall, c, code, hcode, by omega⟩, hcode, rfl⟩

/-- Moving `ip` on within what is buffered. -/
theorem Valid.advance (h : Valid src d) (hip : d.ip < d.ipLimit) {n : ℕ}
    (hn : n ≤ d.ipLimit - d.ip) :
    Valid src { d with ip := d.ip + n } ∧
      Decompressor.window src { d with ip := d.ip + n } = (d.window src).drop n ∧
      Decompressor.rest src { d with ip := d.ip + n } = (d.window src).drop n := by
  obtain ⟨hall, -⟩ := h.rest_eq (Nat.ne_of_lt hip)
  have hwin : Decompressor.window src { d with ip := d.ip + n } = (d.window src).drop n := by
    change ((d.buffer src).drop (d.ip + n)).take (d.ipLimit - (d.ip + n)) = _
    rw [Decompressor.window, List.drop_take, List.drop_drop]
    congr 1
    omega
  refine ⟨⟨h.room, ?_, h.limit_le, h.whole, ?_⟩, hwin, ?_⟩
  · dsimp only
    omega
  · obtain hplace | hplace | ⟨hempty, -⟩ := h.place
    · exact .inl hplace
    · exact .inr (.inl hplace)
    · omega
  · rw [Decompressor.rest, hwin]
    change _ ++ src.drop (d.ptr + d.peeked) = _
    rw [hall, List.drop_length, List.append_nil]

theorem window_take {k : ℕ} (hk : k ≤ d.ipLimit - d.ip) :
    (d.window src).take k = ((d.buffer src).drop d.ip).take k := by
  rw [Decompressor.window, List.take_take, Nat.min_eq_left hk]

end Reading

section Tags

variable {src : Bytes} {d : Decompressor} {w : Writer}

/-- A literal is appended, or the loop ends: it does not fit, or the source ends in it. -/
theorem literalLoop_spec (h : Valid src d) (hall : d.ptr + d.peeked = src.length) (hw : Inside w)
    (fuel len : ℕ) :
    (len ≤ (d.window src).length ∧ ∃ w',
      literalLoop src (fuel + 1) len d w = some (.next { d with ip := d.ip + len } w') ∧
        Appended w w' (w.out ++ (d.window src).take len)) ∨
    (((d.window src).length < len ∨ w.opLimit < w.op + len) ∧ ∃ d' w',
      literalLoop src (fuel + 1) len d w = some (.done d' w') ∧ d'.eof = d.eof ∧
        ∃ out', Appended w w' out') := by
  have hip := h.ip_le
  have hlimit := h.limit_le
  have hwlen := h.window_length
  have hself : Appended w w w.out := ⟨hw, rfl, rfl, .refl _ _ _⟩
  rw [literalLoop]
  by_cases hlong : d.ipLimit - d.ip < len
  · rw [if_pos hlong, load?_eq (by omega), Option.bind_some]
    refine .inr ⟨.inl (by omega), ?_⟩
    obtain ⟨-, w', happ, hw'⟩ | ⟨-, happ⟩ := writerAppend_spec hw (d.window src)
    · have hleft : d.skipPeeked.left = 0 := by
        have hwhole := h.whole
        change d.left - d.peeked = 0
        omega
      refine ⟨{ d.skipPeeked with peeked := 0 }, w', ?_, rfl, _, hw'⟩
      rw [show ((d.buffer src).drop d.ip).take (d.ipLimit - d.ip) = d.window src from rfl, happ,
        Option.bind_some]
      dsimp only
      rw [if_pos rfl, if_pos hleft]
    · refine ⟨d, w, ?_, rfl, _, hself⟩
      rw [show ((d.buffer src).drop d.ip).take (d.ipLimit - d.ip) = d.window src from rfl, happ,
        Option.bind_some]
      rfl
  · have htake : ((d.window src).take len).length = len := by
      rw [List.length_take]
      omega
    rw [if_neg hlong, load?_eq (by omega), Option.bind_some, ← window_take (by omega)]
    obtain ⟨-, w', happ, hw'⟩ | ⟨hfull, happ⟩ := writerAppend_spec hw ((d.window src).take len)
    · exact .inl ⟨by omega, w', by rw [happ]; rfl, hw'⟩
    · exact .inr ⟨.inr (by omega), d, w, by rw [happ]; rfl, rfl, _, hself⟩

/-- What one element of the stream may do: the loop goes on behind it with its bytes
appended, or it ends without having reached the end of the source, and then the stream is no
good or too long. -/
def Consumes (src : Bytes) (d : Decompressor) (w : Writer) (code : Bytes) (flow : Option Flow) :
    Prop :=
  (∃ t rest out' d' w', parseTag code = some (t, rest) ∧ t.expand w.out = some out' ∧
    flow = some (.next d' w') ∧ Valid src d' ∧ d'.rest src = rest ∧ d'.eof = d.eof ∧
    Appended w w' out') ∨
  ((∀ out', unpack w.out code = some out' → w.opLimit < out'.length) ∧ ∃ d' w',
    flow = some (.done d' w') ∧ d'.eof = d.eof ∧ ∃ out', Appended w w' out')

/-- A literal whose length is known, from the place where its bytes begin. -/
theorem literalLoop_consumes {c : UInt8} {code : Bytes} (h : Valid src d)
    (hall : d.ptr + d.peeked = src.length) (hw : Inside w) (hc : c.toNat % 4 = 0)
    (htrailer : trailerLength c ≤ code.length)
    (hwin : d.window src = code.drop (trailerLength c)) (fuel : ℕ) :
    Consumes src d w (c :: code) (literalLoop src (fuel + 1)
      (literalLength c (ofLe (code.take (trailerLength c)))) d w) := by
  have hparse := parseTag_literal hc htrailer rfl
  have hwlen := h.window_length
  generalize literalLength c (ofLe (code.take (trailerLength c))) = len at hparse ⊢
  rw [← hwin] at hparse
  obtain ⟨hlen, w', hloop, happ⟩ | ⟨hbad, d', w', hloop, heof, hstay⟩ :=
    literalLoop_spec h hall hw fuel len
  · rw [if_neg (by omega)] at hparse
    have hvalid : Valid src { d with ip := d.ip + len } ∧
        Decompressor.rest src { d with ip := d.ip + len } = (d.window src).drop len := by
      by_cases hip : d.ip < d.ipLimit
      · obtain ⟨hv, -, hr⟩ := h.advance hip (n := len) (by omega)
        exact ⟨hv, hr⟩
      · have hzero : len = 0 := by omega
        subst hzero
        refine ⟨h, ?_⟩
        change d.window src ++ src.drop (d.ptr + d.peeked) = _
        rw [hall, List.drop_length, List.append_nil, List.drop_zero]
    exact .inl ⟨_, _, _, _, w', hparse, rfl, hloop, hvalid.1, hvalid.2, rfl, happ⟩
  · refine .inr ⟨?_, d', w', hloop, heof, hstay⟩
    by_cases hshort : (d.window src).length < len
    · rw [if_pos hshort] at hparse
      intro out' hout
      rw [unpack_of_parse_none (List.cons_ne_nil c code) hparse] at hout
      cases hout
    · rw [if_neg hshort] at hparse
      refine unpack_past hparse fun out' hout ↦ ?_
      obtain rfl := Option.some.inj hout
      have hout := hw.out_length
      rw [List.length_append, List.length_take, hout]
      omega

theorem Consumes.of_eof {d' : Decompressor} {code : Bytes} {flow : Option Flow}
    (h : Consumes src d' w code flow) (heof : d'.eof = d.eof) : Consumes src d w code flow := by
  rwa [Consumes, ← heof]

/-- The word behind the tag, cut to the trailer. -/
theorem load_trailer {c : UInt8} {code : Bytes} (hfront : d.ip + 4 ≤ (d.buffer src).length)
    (h : Valid src d) (hwin : d.window src = code) (htrailer : trailerLength c ≤ code.length) :
    ∃ word mask, load? (d.buffer src) d.ip 4 = some word ∧
      wordmask[trailerLength c]? = some mask ∧
      ofLe word &&& mask = ofLe (code.take (trailerLength c)) := by
  have hwlen := h.window_length
  have hsmall := trailerLength_le c
  obtain ⟨mask, hmask, hand⟩ :=
    and_wordmask (((d.buffer src).drop d.ip).take 4) (trailerLength_le c)
  refine ⟨_, mask, load?_eq hfront, hmask, ?_⟩
  rw [hand, List.take_take, Nat.min_eq_left hsmall, ← hwin,
    window_take (by rw [← hwlen, hwin]; exact htrailer)]

theorem literalTag_consumes {c : UInt8} {code : Bytes} (h : Valid src d)
    (hall : d.ptr + d.peeked = src.length) (hw : Inside w)
    (hfront : d.ip + 4 ≤ (d.buffer src).length) (hwin : d.window src = code)
    (hc : c.toNat % 4 = 0) (htrailer : trailerLength c ≤ code.length) :
    Consumes src d w (c :: code) (literalTag src c d w) := by
  have hip := h.ip_le
  have hlimit := h.limit_le
  have hwlen := h.window_length
  have hquot : c.toNat >>> 2 = c.toNat / 4 := Nat.shiftRight_eq_div_pow _ _
  have htl := trailerLength_literal hc
  have hcode : code.length = d.ipLimit - d.ip := by rw [← hwlen, hwin]
  unfold literalTag
  rw [hquot]
  dsimp only
  obtain ⟨⟨hshort, havail, -⟩, w', hfast, happ⟩ | hslow :=
    writerTryFastAppend_spec hw (show d.ip + (d.ipLimit - d.ip) ≤ (d.buffer src).length by omega)
      (c.toNat / 4 + 1)
  · have hparse := parseTag_literal hc htrailer (if_pos (by omega))
    have hzero : trailerLength c = 0 := by omega
    rw [hzero, List.drop_zero, if_neg (by omega)] at hparse
    obtain ⟨hvalid, -, hrest⟩ := h.advance (by omega) havail
    rw [hwin] at hrest
    rw [← window_take havail, hwin] at happ
    rw [hfast]
    exact .inl ⟨_, _, _, _, w', hparse, rfl, rfl, hvalid, hrest, rfl, happ⟩
  · rw [hslow, Option.bind_some]
    dsimp only
    rw [if_neg (by decide)]
    by_cases hlong : 61 ≤ c.toNat / 4 + 1
    · obtain ⟨word, mask, hword, hmask, hand⟩ := load_trailer hfront h hwin htrailer
      obtain ⟨hvalid, hwin', -⟩ := h.advance (by omega) (n := trailerLength c) (by omega)
      rw [hwin] at hwin'
      have hlen : literalLength c (ofLe (code.take (trailerLength c))) =
          ((ofLe word &&& mask) + 1) % 2 ^ 32 := by
        rw [literalLength, if_neg (by omega), hand]
      have hloop := literalLoop_consumes hvalid hall hw hc htrailer hwin' (d.left + 1)
      rw [hlen, htl] at hloop
      rw [if_pos hlong, hword, Option.bind_some,
        show c.toNat / 4 + 1 - 60 = trailerLength c by omega, hmask, Option.bind_some, htl]
      exact hloop
    · have hzero : trailerLength c = 0 := by omega
      have hlen : literalLength c (ofLe (code.take (trailerLength c))) = c.toNat / 4 + 1 :=
        if_pos (by omega)
      have hloop := literalLoop_consumes h hall hw hc htrailer (by rw [hzero]; exact hwin)
        (d.left + 1)
      rw [hlen] at hloop
      rw [if_neg hlong]
      exact hloop

theorem copyOffset_lt (c : UInt8) (code : Bytes) :
    copyOffset c (ofLe (code.take (trailerLength c))) < 2 ^ 32 := by
  have hc := c.toNat_lt
  have hlt := ofLe_lt (code.take (trailerLength c))
  have hpow : 256 ^ (code.take (trailerLength c)).length ≤ 256 ^ trailerLength c :=
    Nat.pow_le_pow_right (by decide) (List.length_take_le _ _)
  unfold copyOffset
  split_ifs with hone
  · have htl := trailerLength_nearCopy hone
    rw [htl] at hpow hlt ⊢
    omega
  · have hword : 256 ^ trailerLength c ≤ 256 ^ 4 :=
      Nat.pow_le_pow_right (by decide) (trailerLength_le c)
    omega

theorem copyTag_consumes (wide : Bool) {c : UInt8} {code : Bytes} (h : Valid src d)
    (hw : Inside w) (hip : d.ip < d.ipLimit) (hfront : d.ip + 4 ≤ (d.buffer src).length)
    (hwin : d.window src = code)
    (hc : c.toNat % 4 ≠ 0) (htrailer : trailerLength c ≤ code.length) :
    Consumes src d w (c :: code) (copyTag src wide c d w) := by
  have hwlen := h.window_length
  obtain ⟨entry, hentry, hshift, hcopy⟩ := charTable_spec c
  obtain ⟨hlen, hoffset⟩ := hcopy hc
  obtain ⟨word, mask, hword, hmask, hand⟩ := load_trailer hfront h hwin htrailer
  obtain ⟨hvalid, -, hrest⟩ :=
    h.advance hip (n := trailerLength c) (by rw [← hwlen, hwin]; exact htrailer)
  rw [hwin] at hrest
  have hparse := parseTag_copy hc htrailer
  have hsmall := copyOffset_lt c code
  have hpos : 0 < copyLength c := by
    unfold copyLength
    split_ifs <;> omega
  unfold copyTag
  rw [hentry, Option.bind_some, hword, Option.bind_some, hshift, hmask, Option.bind_some, hand,
    hlen, ← hoffset, Nat.mod_eq_of_lt hsmall]
  have hout := hw.out_length
  obtain ⟨⟨hback, hle, -⟩, w', happend, happ⟩ | ⟨hbad, happend⟩ :=
    writerAppendFromSelf_spec wide hw hsmall hpos
  · rw [happend]
    refine .inl ⟨_, _, _, _, w', hparse, ?_, rfl, hvalid, hrest, rfl, happ⟩
    rw [Token.expand, if_pos ⟨hback, by omega⟩]
  · rw [happend]
    refine .inr ⟨unpack_past hparse fun out' hexp ↦ ?_, _, w, rfl, rfl, w.out, hw, rfl, rfl,
      .refl _ _ _⟩
    rw [Token.expand] at hexp
    split_ifs at hexp with hthere
    obtain rfl := Option.some.inj hexp
    rw [selfCopy_length hthere.1 _ hthere.2]
    omega

/-- The body of a turn takes one element of the stream. -/
theorem tagBody_consumes (wide : Bool) (h : Ready src d) (hw : Inside w) {c : UInt8}
    {code : Bytes} (hwin : d.window src = c :: code) :
    Consumes src d w (c :: code) (tagBody src wide d w) := by
  obtain ⟨c', code', hwin', htrailer⟩ := h.complete
  rw [hwin] at hwin'
  obtain ⟨rfl, rfl⟩ := List.cons.inj hwin'
  have hwlen := h.window_length
  rw [hwin, List.length_cons] at hwlen
  have hfront := h.front
  have hbyte : (d.buffer src)[d.ip]? = some c := by
    rw [← Nat.add_zero d.ip, ← getElem?_window (by omega), hwin]
    rfl
  obtain ⟨hvalid, hcode, -⟩ := h.advance (by omega) (n := 1) (by omega)
  rw [hwin, List.drop_one, List.tail_cons] at hcode
  have hand : c.toNat &&& 3 = c.toNat % 4 := Nat.and_two_pow_sub_one_eq_mod _ 2
  rw [tagBody, hbyte, Option.bind_some]
  dsimp only
  rw [hand]
  by_cases hc : c.toNat % 4 = 0
  · rw [if_pos hc]
    exact (literalTag_consumes hvalid h.peeked_all hw (by change d.ip + 1 + 4 ≤ _; exact hfront)
      hcode hc htrailer).of_eof rfl
  · rw [if_neg hc]
    have hsome : 0 < trailerLength c := by
      unfold trailerLength
      split <;> omega
    exact (copyTag_consumes wide hvalid hw (by change d.ip + 1 < d.ipLimit; omega)
      (by change d.ip + 1 + 4 ≤ _; exact hfront) hcode hc htrailer).of_eof rfl

/-- How the loop ends: at the end of the source, with all of it unpacked, or before it, and
then the source is no good or unpacks to too much. -/
structure Finished (w w' : Writer) (d' : Decompressor) (code : Bytes) : Prop where
  inside : Inside w'
  limit : w'.opLimit = w.opLimit
  touches : Touches 0 w.opLimit w.mem w'.mem
  result : (d'.eof = true ∧ unpack w.out code = some w'.out) ∨
    (d'.eof = false ∧ ∀ out', unpack w.out code = some out' → w.opLimit < out'.length)

theorem Finished.of_appended {w' w'' : Writer} {d' : Decompressor} {code rest out' : Bytes}
    {t : Token} (happ : Appended w w' out') (hp : parseTag code = some (t, rest))
    (ht : t.expand w.out = some out') (h : Finished w' w'' d' rest) : Finished w w'' d' code := by
  have hcode : unpack w.out code = unpack w'.out rest := by
    rw [unpack_of_parse hp, ht, Option.bind_some, happ.out]
  refine ⟨h.inside, h.limit.trans happ.limit, ?_, ?_⟩
  · have htouch := h.touches
    rw [happ.limit] at htouch
    exact (happ.touches.mono (Nat.zero_le _) (Nat.le_refl _)).trans htouch (Nat.le_refl _)
      (Nat.le_refl _)
  · rw [hcode, ← happ.limit]
    exact h.result

/-- A refill that fails ends the loop. -/
theorem maybeRefill_finished (h : Valid src d) (hw : Inside w) (heof : d.eof = false) :
    (∃ d', maybeRefill src d = some (false, d') ∧ Finished w w d' (d.rest src)) ∨
    ∃ c code d', maybeRefill src d = some (true, d') ∧ Ready src d' ∧ d.rest src = c :: code ∧
      d'.window src = c :: code ∧ d'.eof = false := by
  obtain ⟨hnil, d', hrefill, hend⟩ | ⟨c, code, hcode, ⟨-, d', hrefill, hready, hwin, he⟩ |
    ⟨hlack, d', hrefill, he⟩⟩ := maybeRefill_spec h
  · refine .inl ⟨d', hrefill, hw, rfl, .refl _ _ _, .inl ⟨hend, ?_⟩⟩
    rw [hnil, unpack_nil]
  · exact .inr ⟨c, code, d', hrefill, hready, hcode, hwin, he.trans heof⟩
  · refine .inl ⟨d', hrefill, hw, rfl, .refl _ _ _, .inr ⟨he.trans heof, fun out' hout ↦ ?_⟩⟩
    have hparse : parseTag (c :: code) = none := by rw [parseTag, if_pos hlack]
    rw [hcode, unpack_of_parse_none (List.cons_ne_nil c code) hparse] at hout
    cases hout

/-- A turn takes one element, or it is the last one. -/
theorem turn_spec (wide : Bool) (h : Valid src d) (hw : Inside w) (heof : d.eof = false) :
    (∃ d' w', turn src wide d w = some (.done d' w') ∧ Finished w w' d' (d.rest src)) ∨
    ∃ t rest out' d' w', parseTag (d.rest src) = some (t, rest) ∧ t.expand w.out = some out' ∧
      turn src wide d w = some (.next d' w') ∧ Valid src d' ∧ d'.rest src = rest ∧
      d'.eof = false ∧ Appended w w' out' := by
  unfold turn
  obtain ⟨d₁, hrefill, hfin⟩ | ⟨c, code, d₁, hrefill, hready, hcode, hwin, he⟩ :=
    maybeRefill_finished h hw heof
  · exact .inl ⟨d₁, w, by rw [hrefill]; rfl, hfin⟩
  rw [hrefill, Option.bind_some, hcode]
  dsimp only
  rw [if_pos rfl]
  obtain ⟨t, rest, out', d₂, w', hparse, ht, hbody, hvalid, hrest, he₂, happ⟩ |
    ⟨hbad, d₂, w', hbody, he₂, out', happ⟩ := tagBody_consumes wide hready hw hwin
  · rw [hbody, Option.bind_some]
    dsimp only
    obtain ⟨d₃, hagain, hfin⟩ | ⟨c', code', d₃, hagain, hready', hcode', hwin', he₃⟩ :=
      maybeRefill_finished hvalid happ.inside (he₂.trans he)
    · rw [hrest] at hfin
      exact .inl ⟨d₃, w', by rw [hagain]; rfl, .of_appended happ hparse ht hfin⟩
    · refine .inr ⟨t, rest, out', d₃, w', hparse, ht, by rw [hagain]; rfl, hready'.toValid, ?_, he₃,
        happ⟩
      obtain ⟨-, hall⟩ := hready'.rest_eq (by
        have hlen := hready'.window_length
        rw [hwin', List.length_cons] at hlen
        omega)
      rw [hall, hwin', ← hcode', hrest]
  · rw [hbody, Option.bind_some]
    exact .inl ⟨d₂, w', rfl, happ.inside, happ.limit,
      happ.touches.mono (Nat.zero_le _) (Nat.le_refl _), .inr ⟨he₂.trans he, hbad⟩⟩

/-- The loop takes the source element by element, however it is buffered. -/
theorem tagLoop_spec (wide : Bool) {fuel : ℕ} (h : Valid src d) (hw : Inside w)
    (heof : d.eof = false) (hfuel : (d.rest src).length < fuel) :
    ∃ d' w', tagLoop src wide fuel d w = some (d', w') ∧ Finished w w' d' (d.rest src) := by
  induction fuel generalizing d w with
  | zero => omega
  | succ fuel ih =>
    rw [tagLoop]
    obtain ⟨d', w', hturn, hfin⟩ |
      ⟨t, rest, out', d₁, w₁, hparse, ht, hturn, hvalid, hrest, he, happ⟩ := turn_spec wide h hw heof
    · exact ⟨d', w', by rw [hturn]; rfl, hfin⟩
    · have hlen := parseTag_length hparse
      obtain ⟨d', w', hloop, hfin⟩ := ih hvalid happ.inside he (by rw [hrest]; omega)
      rw [hrest] at hfin
      exact ⟨d', w', by rw [hturn]; exact hloop, .of_appended happ hparse ht hfin⟩

theorem decompressAllTags_spec (wide : Bool) (h : Valid src d) (hw : Inside w)
    (heof : d.eof = false) (hrest : (d.rest src).length ≤ src.length) :
    ∃ d' w', decompressAllTags src wide d w = some (d', w') ∧ Finished w w' d' (d.rest src) := by
  unfold decompressAllTags
  obtain ⟨d', hrefill, hfin⟩ | ⟨c, code, d', hrefill, hready, hcode, hwin, he⟩ :=
    maybeRefill_finished h hw heof
  · exact ⟨d', w, by rw [hrefill]; rfl, hfin⟩
  · have hall : d'.rest src = d.rest src := by
      obtain ⟨-, hall⟩ := hready.rest_eq (by
        have hlen := hready.window_length
        rw [hwin, List.length_cons] at hlen
        omega)
      rw [hall, hwin, hcode]
    obtain ⟨d'', w', hloop, hfin⟩ := tagLoop_spec wide hready.toValid hw he
      (show (d'.rest src).length < src.length + 1 by rw [hall]; omega)
    rw [hall] at hfin
    exact ⟨d'', w', by rw [hrefill]; exact hloop, hfin⟩

end Tags

theorem addDigit_lt {shift result : ℕ} {b : UInt8} (h : result < 2 ^ 32) :
    addDigit shift result b < 2 ^ 32 :=
  Nat.or_lt_two_pow h (Nat.mod_lt _ (by decide))

theorem readLoop_spec {fuel shift result n : ℕ} {p rest : Bytes} (hr : result < 2 ^ 32)
    (h : readLoop fuel shift result p = some (n, rest)) : n < 2 ^ 32 ∧ rest <:+ p := by
  induction fuel generalizing shift result p with
  | zero => cases h
  | succ fuel ih =>
    cases p with
    | nil => cases h
    | cons c p =>
      rw [readLoop] at h
      split_ifs at h with hs hc
      · obtain ⟨rfl, rfl⟩ := Prod.mk.inj (Option.some.inj h)
        exact ⟨addDigit_lt hr, List.suffix_cons c p⟩
      · obtain ⟨hn, hsuffix⟩ := ih (addDigit_lt hr) h
        exact ⟨hn, hsuffix.trans (List.suffix_cons c p)⟩

/-- What a compressed buffer stands for. -/
def decode (src : Bytes) : Option Bytes :=
  (readUncompressedLength src).bind fun (n, rest) ↦ (unpack [] rest).filter (·.length = n)

theorem decode_eq_some {src out : Bytes} : decode src = some out ↔
    ∃ rest, readUncompressedLength src = some (out.length, rest) ∧ unpack [] rest = some out := by
  unfold decode
  cases hread : readUncompressedLength src with
  | none => simp
  | some p =>
    obtain ⟨n, rest⟩ := p
    rw [Option.bind_some, Option.filter_eq_some_iff, decide_eq_true_iff]
    constructor
    · rintro ⟨hunpack, rfl⟩
      exact ⟨rest, rfl, hunpack⟩
    · rintro ⟨rest', heq, hunpack⟩
      obtain ⟨rfl, rfl⟩ := Prod.mk.inj (Option.some.inj heq)
      exact ⟨hunpack, rfl⟩

/-- The block after a run: as long as before, and untouched behind the declared length. -/
structure Contained (src mem mem' : Bytes) : Prop where
  length : mem'.length = mem.length
  behind : ∀ n rest, readUncompressedLength src = some (n, rest) → mem'.drop n = mem.drop n

section Run

variable (wide : Bool) {src scratch mem : Bytes} (hscratch : scratch.length = 5)

include hscratch

/-- The loop, run from the place behind the length. -/
theorem snappyUncompress_run {n : ℕ} {rest : Bytes}
    (hread : readUncompressedLength src = some (n, rest)) (hfit : n ≤ mem.length) :
    ∃ d' w', snappyUncompress src wide scratch mem =
        some (if d'.eof = true ∧ w'.op = w'.opLimit then 0 else eio, w'.mem) ∧
      Finished ⟨mem, 0, n⟩ w' d' rest := by
  obtain ⟨hn, hsuffix⟩ := readLoop_spec (by decide) hread
  have hle := hsuffix.length_le
  have hvalid : Valid src
      ⟨src.length - rest.length, rest.length, false, 0, 0, 0, false, scratch⟩ := by
    refine ⟨hscratch, Nat.le_refl _, Nat.zero_le _, ?_, .inr (.inr ⟨rfl, rfl⟩)⟩
    dsimp only
    omega
  have hdrop : Decompressor.rest src
      ⟨src.length - rest.length, rest.length, false, 0, 0, 0, false, scratch⟩ = rest := by
    have hrest := List.suffix_iff_eq_drop.mp hsuffix
    change (src.drop 0).take 0 ++ src.drop (src.length - rest.length + 0) = rest
    rw [List.take_zero, List.nil_append, Nat.add_zero, ← hrest]
  obtain ⟨d', w', hall, hfin⟩ := decompressAllTags_spec wide hvalid
    (w := ⟨mem, 0, n⟩) ⟨Nat.zero_le _, hfit, hn⟩ rfl (by rw [hdrop]; exact hle)
  rw [hdrop] at hfin
  refine ⟨d', w', ?_, hfin⟩
  unfold snappyUncompress
  rw [hread]
  dsimp only
  rw [if_neg (by omega), hall, Option.map_some]

theorem snappyUncompress_of_decode {out : Bytes} (hdecode : decode src = some out)
    (hfit : out.length ≤ mem.length) :
    ∃ mem', snappyUncompress src wide scratch mem = some (0, mem') ∧
      mem'.take out.length = out ∧ Contained src mem mem' := by
  obtain ⟨rest, hread, hunpack⟩ := decode_eq_some.mp hdecode
  obtain ⟨d', w', hrun, hfin⟩ := snappyUncompress_run wide hscratch hread hfit
  have hout := hfin.inside.out_length
  have hlimit : w'.opLimit = out.length := hfin.limit
  have htouch : Touches 0 out.length mem w'.mem := hfin.touches
  obtain ⟨hend, hall⟩ | ⟨-, hbad⟩ := hfin.result
  · have hall : unpack [] rest = some w'.out := hall
    rw [hunpack] at hall
    obtain rfl := Option.some.inj hall
    rw [if_pos ⟨hend, by omega⟩] at hrun
    refine ⟨w'.mem, hrun, by rw [hout]; rfl, htouch.length, fun n rest' heq ↦ ?_⟩
    rw [hread] at heq
    obtain ⟨rfl, -⟩ := Prod.mk.inj (Option.some.inj heq)
    exact htouch.drop
  · have hpast : out.length < out.length := hbad out hunpack
    exact absurd hpast (Nat.lt_irrefl _)

theorem snappyUncompress_of_refused (hdecode : decode src = none)
    (hfit : ∀ n rest, readUncompressedLength src = some (n, rest) → n ≤ mem.length) :
    ∃ mem', snappyUncompress src wide scratch mem = some (eio, mem') ∧
      Contained src mem mem' := by
  cases hread : readUncompressedLength src with
  | none =>
    refine ⟨mem, by rw [snappyUncompress, hread], rfl, fun n rest heq ↦ ?_⟩
    exact absurd (hread.symm.trans heq) (by simp)
  | some p =>
    obtain ⟨n, rest⟩ := p
    obtain ⟨d', w', hrun, hfin⟩ := snappyUncompress_run wide hscratch hread (hfit n rest hread)
    have htouch : Touches 0 n mem w'.mem := hfin.touches
    have hlimit : w'.opLimit = n := hfin.limit
    have hno : ¬ (d'.eof = true ∧ w'.op = w'.opLimit) := by
      rintro ⟨hend, hexact⟩
      obtain ⟨-, hall⟩ | ⟨heof, -⟩ := hfin.result
      · have hlen : w'.out.length = n := by rw [hfin.inside.out_length, hexact, hlimit]
        have hsome := decode_eq_some.mpr ⟨rest, by rw [hlen]; exact hread, hall⟩
        rw [hdecode] at hsome
        cases hsome
      · rw [hend] at heof
        cases heof
    rw [if_neg hno] at hrun
    refine ⟨w'.mem, hrun, htouch.length, fun n' rest' heq ↦ ?_⟩
    rw [hread] at heq
    obtain ⟨rfl, -⟩ := Prod.mk.inj (Option.some.inj heq)
    exact htouch.drop

end Run

/-- The decompressor never leaves its buffers and fails no check, whatever bytes it is given
and however its copies are made. It returns zero exactly on the buffers that stand for
something, which then is at the front of the output; nothing behind the declared length is
touched. -/
theorem snappyUncompress_exact (wide : Bool) {src scratch mem : Bytes}
    (hscratch : scratch.length = 5)
    (hmem : ∀ n rest, readUncompressedLength src = some (n, rest) → n ≤ mem.length) :
    ∃ ret mem', snappyUncompress src wide scratch mem = some (ret, mem') ∧
      (ret = 0 ∨ ret = eio) ∧ (ret = 0 ↔ (decode src).isSome = true) ∧
      (∀ out, decode src = some out → mem'.take out.length = out) ∧ mem'.length = mem.length ∧
      ∀ n rest, readUncompressedLength src = some (n, rest) → mem'.drop n = mem.drop n := by
  cases hdecode : decode src with
  | none =>
    obtain ⟨mem', hrun, hmem'⟩ := snappyUncompress_of_refused wide hscratch hdecode hmem
    refine ⟨eio, mem', hrun, .inr rfl, by decide, fun out heq ↦ ?_, hmem'.length, hmem'.behind⟩
    cases heq
  | some out =>
    obtain ⟨rest, hread, -⟩ := decode_eq_some.mp hdecode
    obtain ⟨mem', hrun, htake, hmem'⟩ :=
      snappyUncompress_of_decode wide hscratch hdecode (hmem _ rest hread)
    refine ⟨0, mem', hrun, .inl rfl, by simp, fun out' heq ↦ ?_, hmem'.length, hmem'.behind⟩
    obtain rfl := Option.some.inj heq
    exact htake

/-- A literal of two bytes and a copy of eight at distance two, into a block of twelve. -/
theorem snappyUncompress_exact_overlap :
    snappyUncompress [0x0a, 0x04, 0x61, 0x62, 0x11, 0x02] false [1, 2, 3, 4, 5] (.replicate 12 9) =
      some (0, [0x61, 0x62, 0x61, 0x62, 0x61, 0x62, 0x61, 0x62, 0x61, 0x62, 9, 9]) ∧
    (decode [0x0a, 0x04, 0x61, 0x62, 0x11, 0x02]).isSome = true := by
  have hrun : snappyUncompress [0x0a, 0x04, 0x61, 0x62, 0x11, 0x02] false [1, 2, 3, 4, 5]
      (.replicate 12 9) =
        some (0, [0x61, 0x62, 0x61, 0x62, 0x61, 0x62, 0x61, 0x62, 0x61, 0x62, 9, 9]) := by
    decide +kernel
  obtain ⟨ret, mem', hret, -, hiff, -⟩ := @snappyUncompress_exact false
    [0x0a, 0x04, 0x61, 0x62, 0x11, 0x02] [1, 2, 3, 4, 5] (.replicate 12 9) rfl (by
      intro n rest hread
      have heval : readUncompressedLength [0x0a, 0x04, 0x61, 0x62, 0x11, 0x02] =
          some (10, [0x04, 0x61, 0x62, 0x11, 0x02]) := rfl
      rw [heval] at hread
      obtain ⟨rfl, -⟩ := Prod.mk.inj (Option.some.inj hread)
      decide)
  rw [hrun] at hret
  obtain ⟨rfl, -⟩ := Prod.mk.inj (Option.some.inj hret)
  exact ⟨hrun, hiff.mp rfl⟩

end Xfrpc.Snappy.Decompress
