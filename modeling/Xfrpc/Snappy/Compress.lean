import Xfrpc.Foundations.Block
import Xfrpc.Foundations.LittleEndian
import Xfrpc.Snappy.Varint

namespace Xfrpc.Snappy.Compress

open Foundations.Block Foundations.LittleEndian Varint

/-- The output buffer and the offset of `op` in it. -/
structure Sink where
  dest : Bytes
  op : ℕ
  deriving DecidableEq, Repr

/-- `*op++ = ..`, for as many bytes as there are; none is an access outside of the buffer. -/
def Sink.put (s : Sink) (bytes : Bytes) : Option Sink :=
  (store? s.dest s.op bytes).map fun dest ↦ ⟨dest, s.op + bytes.length⟩

/-- The bytes of a length behind its tag, with their number. -/
def lengthLoop : ℕ → ℕ → ℕ → Sink → Option (ℕ × Sink)
  | 0, _, _, _ => none
  | fuel + 1, n, count, s =>
    if 0 < n then (s.put [.ofNat (n &&& 0xff)]).bind (lengthLoop fuel (n >>> 8) (count + 1))
    else some (count, s)

section Fragment

variable (input : Bytes)

/-- `emit_literal` of `len` bytes from the offset `literal` on. The fast path copies two words
of eight bytes, of which `len` count. -/
def emitLiteral (literal len : ℕ) (allowFastPath : Bool) (s : Sink) : Option Sink :=
  if len = 0 then none
  else if len - 1 < 60 then
    (s.put [.ofNat ((len - 1) <<< 2)]).bind fun s ↦
      if allowFastPath ∧ len ≤ 16 then
        ((load? input literal 8).bind (store? s.dest s.op)).bind fun dest ↦
          ((load? input (literal + 8) 8).bind (store? dest (s.op + 8))).map fun dest ↦
            ⟨dest, s.op + len⟩
      else (load? input literal len).bind s.put
  else
    -- the tag is written last, once the number of length bytes is known
    (s.put [0]).bind fun t ↦ (lengthLoop 5 (len - 1) 0 t).bind fun (count, t) ↦
      if count < 1 ∨ 4 < count then none
      else
        (store? t.dest s.op [.ofNat ((59 + count) <<< 2)]).bind fun dest ↦
          (load? input literal len).bind (Sink.put ⟨dest, t.op⟩)

def emitCopyLessThan64 (offset len : ℕ) (s : Sink) : Option Sink :=
  if 64 < len ∨ len < 4 ∨ 65536 ≤ offset then none
  else if len < 12 ∧ offset < 2048 then
    s.put [.ofNat (1 + (len - 4) <<< 2 + (offset >>> 8) <<< 5), .ofNat (offset &&& 0xff)]
  else s.put (.ofNat (2 + (len - 1) <<< 2) :: toLe 2 offset)

/-- The copies of 64 bytes of `emit_copy`. -/
def copyLoop : ℕ → ℕ → ℕ → Sink → Option (ℕ × Sink)
  | 0, _, _, _ => none
  | fuel + 1, offset, len, s =>
    if 68 ≤ len then (emitCopyLessThan64 offset 64 s).bind (copyLoop fuel offset (len - 64))
    else some (len, s)

def emitCopy (offset len : ℕ) (s : Sink) : Option Sink :=
  (copyLoop (len + 1) offset len s).bind fun (len, s) ↦
    if 64 < len then
      (emitCopyLessThan64 offset 60 s).bind (emitCopyLessThan64 offset (len - 60))
    else emitCopyLessThan64 offset len s

/-- `UNALIGNED_LOAD32`. -/
def load32 (p : ℕ) : Option ℕ := (load? input p 4).map ofLe

def hashBytes (shift bytes : ℕ) : ℕ := (bytes * 0x1e35a7bd % 2 ^ 32) >>> shift

def hash (shift p : ℕ) : Option ℕ := (load32 input p).map (hashBytes shift)

/-- `find_lsb_set_non_zero`: the lowest bit of a word, none for the word zero. -/
def findLsbSetNonZero (x : ℕ) : Option ℕ := (List.range 32).find? x.testBit

/-- The words of `find_match_length` that agree. -/
def matchWords : ℕ → ℕ → ℕ → ℕ → ℕ → Option (ℕ × ℕ)
  | 0, _, _, _, _ => none
  | fuel + 1, s1, s2, s2Limit, matched =>
    if s2 + 4 ≤ s2Limit then
      (load32 input s2).bind fun a ↦ (load32 input (s1 + matched)).bind fun b ↦
        if a = b then matchWords fuel s1 (s2 + 4) s2Limit (matched + 4) else some (s2, matched)
    else some (s2, matched)

/-- Its last bytes. -/
def matchBytes : ℕ → ℕ → ℕ → ℕ → ℕ → Option ℕ
  | 0, _, _, _, _ => none
  | fuel + 1, s1, s2, s2Limit, matched =>
    if s2 < s2Limit then
      (load? input (s1 + matched) 1).bind fun a ↦ (load? input s2 1).bind fun b ↦
        if a = b then matchBytes fuel s1 (s2 + 1) s2Limit (matched + 1) else some matched
    else some matched

/-- `find_match_length` on a little-endian machine with 32-bit words. -/
def findMatchLength (s1 s2 s2Limit : ℕ) : Option ℕ :=
  (matchWords input (s2Limit + 1) s1 s2 s2Limit 0).bind fun (s2, matched) ↦
    if s2 + 4 ≤ s2Limit then
      (load32 input s2).bind fun a ↦ (load32 input (s1 + matched)).bind fun b ↦
        (findLsbSetNonZero (a ^^^ b)).map fun matchingBits ↦ matched + matchingBits >>> 3
    else matchBytes input (s2Limit + 1) s1 s2 s2Limit matched

/-- Where `compress_fragment` is: looking for a match, with `skip_bytes`, or at one, with its
`candidate`. -/
inductive Mode
  | scan (skipBytes : ℕ)
  | copy (candidate : ℕ)
  deriving DecidableEq, Repr

/-- The variables of `compress_fragment`; pointers into the input are offsets. -/
structure Cursor where
  mode : Mode
  ip : ℕ
  nextEmit : ℕ
  nextHash : ℕ
  table : List ℕ
  sink : Sink
  deriving DecidableEq, Repr

inductive Outcome
  | next (c : Cursor)
  | emitRemainder (nextEmit : ℕ) (sink : Sink)
  deriving DecidableEq, Repr

def kinputMarginBytes : ℕ := 15

/-- `table[h] = v` for a table of 16-bit words. -/
def setEntry (table : List ℕ) (h v : ℕ) : List ℕ := table.set h (v % 2 ^ 16)

/-- One turn of the search for a match. -/
def scanStep (shift skipBytes : ℕ) (c : Cursor) : Option Outcome :=
  if skipBytes = 32 ∧ c.ip ≤ c.nextEmit then none
  else if hash input shift c.ip ≠ some c.nextHash then none
  else
    let nextIp := c.ip + skipBytes >>> 5
    if input.length - kinputMarginBytes < nextIp then some (.emitRemainder c.nextEmit c.sink)
    else
      (hash input shift nextIp).bind fun nextHash ↦ c.table[c.nextHash]?.bind fun candidate ↦
        if c.ip ≤ candidate then none
        else
          let table := setEntry c.table c.nextHash c.ip
          (load32 input c.ip).bind fun a ↦ (load32 input candidate).bind fun b ↦
            if a ≠ b then
              some (.next { c with
                mode := .scan (skipBytes + 1)
                ip := nextIp
                nextHash := nextHash
                table := table })
            else if input.length < c.nextEmit + 16 then none
            else
              (emitLiteral input c.nextEmit (c.ip - c.nextEmit) true c.sink).map fun sink ↦
                .next { c with
                  mode := .copy candidate
                  nextHash := nextHash
                  table := table
                  sink := sink }

/-- One copy, and whether another one follows at once. -/
def copyStep (shift candidate : ℕ) (c : Cursor) : Option Outcome :=
  (findMatchLength input (candidate + 4) (c.ip + 4) input.length).bind fun more ↦
    let matched := 4 + more
    let ip := c.ip + matched
    -- the check that the bytes are the same
    if load? input c.ip matched ≠ load? input candidate matched then none
    else
      (emitCopy (c.ip - candidate) matched c.sink).bind fun sink ↦
        if input.length - kinputMarginBytes ≤ ip then some (.emitRemainder ip sink)
        else
          (load32 input (ip - 1)).bind fun prev ↦ (load32 input ip).bind fun cur ↦
            let table := setEntry c.table (hashBytes shift prev) (ip - 1)
            table[hashBytes shift cur]?.bind fun candidate ↦
              (load32 input candidate).bind fun candidateBytes ↦
                let table := setEntry table (hashBytes shift cur) ip
                if cur = candidateBytes then
                  some (.next { c with
                    mode := .copy candidate
                    ip := ip
                    nextEmit := ip
                    table := table
                    sink := sink })
                else
                  (load32 input (ip + 1)).map fun next ↦
                    .next ⟨.scan 32, ip + 1, ip, hashBytes shift next, table, sink⟩

def step (shift : ℕ) (c : Cursor) : Option Outcome :=
  match c.mode with
  | .scan skipBytes => scanStep input shift skipBytes c
  | .copy candidate => copyStep input shift candidate c

def fragmentLoop (shift : ℕ) : ℕ → Cursor → Option (ℕ × Sink)
  | 0, _ => none
  | fuel + 1, c =>
    (step input shift c).bind fun outcome ↦
      match outcome with
      | .next c => fragmentLoop shift fuel c
      | .emitRemainder nextEmit sink => some (nextEmit, sink)

def kblockSize : ℕ := 2 ^ 16

/-- `compress_fragment`: the search, and the remaining bytes as a literal. -/
def compressFragment (table : List ℕ) (s : Sink) : Option Sink :=
  if kblockSize < input.length ∨ table.length &&& (table.length - 1) ≠ 0 then none
  else
    let shift := 32 - Nat.log2 table.length
    if (2 ^ 32 - 1) >>> shift ≠ table.length - 1 then none
    else
      (if kinputMarginBytes ≤ input.length then
          (hash input shift 1).bind fun nextHash ↦
            fragmentLoop input shift (2 * input.length + 2) ⟨.scan 32, 1, 0, nextHash, table, s⟩
        else some (0, s)).bind fun (nextEmit, s) ↦
          if nextEmit < input.length then
            emitLiteral input nextEmit (input.length - nextEmit) false s
          else some s

end Fragment

def kmaxHashTableSize : ℕ := 2 ^ 14

/-- The size `get_hash_table` chooses. -/
def htsizeLoop : ℕ → ℕ → ℕ → ℕ
  | 0, htsize, _ => htsize
  | fuel + 1, htsize, inputSize =>
    if htsize < kmaxHashTableSize ∧ htsize < inputSize then htsizeLoop fuel (htsize * 2) inputSize
    else htsize

/-- `get_hash_table`: as many zeros as its size says. -/
def getHashTable (inputSize : ℕ) : List ℕ := .replicate (htsizeLoop 6 256 inputSize) 0

/-- The blocks of `compress`. -/
def blockLoop : ℕ → Bytes → Sink → Option Sink
  | 0, _, _ => none
  | fuel + 1, input, s =>
    if input = [] then some s
    else
      (compressFragment (input.take kblockSize) (getHashTable (min input.length kblockSize))
        s).bind (blockLoop fuel (input.drop kblockSize))

/-- `snappy_compress` into the block `dest`: the block after it and the compressed length. A
length of 2 ^ 31 or more is negative as an `int`, and no block is read. -/
def snappyCompress (input dest : Bytes) : Option (Bytes × ℕ) :=
  ((Sink.mk dest 0).put (varintEncode32 (input.length % 2 ^ 32))).bind fun s ↦
    (if input.length < 2 ^ 31 then blockLoop (input.length + 1) input s else some s).map fun s ↦
      (s.dest, s.op)

def snappyMaxCompressedLength (sourceLen : ℕ) : ℕ := 32 + sourceLen + sourceLen / 6

end Xfrpc.Snappy.Compress
