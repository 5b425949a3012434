import Xfrpc.Foundations.Block
import Xfrpc.Toml.Lex

namespace Xfrpc.Toml.Norm

open Foundations.Block Scan Number

variable {F : Type}

/-- The memory pool, of which `top` bytes are in use. -/
structure Pool where
  max : ℕ
  top : ℕ
  deriving DecidableEq, Repr

def poolCreate (n : ℕ) : Pool := ⟨if n = 0 then 100 else n, 0⟩

def poolAlloc (pool : Pool) (n : ℕ) : Option Pool :=
  if pool.max < pool.top + n then none else some { pool with top := pool.top + n }

/-- `n` bytes of a buffer. -/
def readBytes (buf : Bytes) (i n : ℕ) : Except Failure Bytes :=
  match load? buf i n with
  | some bs => .ok bs
  | none => .error .outOfBounds

def readByte (buf : Bytes) (i : ℕ) : Except Failure UInt8 :=
  match buf[i]? with
  | some c => .ok c
  | none => .error .outOfBounds

def writeBytes (buf : Bytes) (i : ℕ) (bs : Bytes) : Except Failure Bytes :=
  match store? buf i bs with
  | some buf => .ok buf
  | none => .error .outOfBounds

/-- `strspn`, which must meet another character inside of the buffer. -/
def strspn (buf : Bytes) (i : ℕ) (accept : Bytes) : Except Failure ℕ :=
  let n := ((buf.drop i).takeWhile (· ∈ accept)).length
  if i + n < buf.length then .ok n else .error .outOfBounds

/-- `strtol` in base 16 to a `long` of 32 bits. -/
def strtol16 (ds : Bytes) : ℕ := min (value 16 (ds.takeWhile isHexChar)) intMax

/-- The character of an escape of one character. -/
def escapeByte (e : UInt8) : Option UInt8 :=
  if e = dquote ∨ e = backslash then some e
  else if e = 0x62 then some 0x08
  else if e = 0x74 then some tab
  else if e = 0x6e then some lf
  else if e = 0x66 then some 0x0c
  else if e = 0x72 then some cr
  else if e = 0x65 then some 0x1b
  else none

def isSurrogate (ucs : ℕ) : Bool := 0xd800 ≤ ucs && ucs ≤ 0xdfff

/-- The bytes for the hex digits after `x`, `u` or `U`. -/
def hexBytes (lineno : ℕ) (e : UInt8) (ds : Bytes) : Except Failure Bytes :=
  let ucs := strtol16 ds
  if e ≠ 0x78 ∧ isSurrogate ucs then
    .error (.error lineno
      (ascii "invalid UTF8 char \\u" ++ ascii (String.ofList (Nat.toDigits 16 ucs))))
  else
    match Utf8.ucsToUtf8 ucs with
    | none => .error (.error lineno (ascii "error converting UCS " ++ ds ++ ascii " to UTF8"))
    | some bs => .ok bs

/-- The place after a line-ending backslash at `p` and the blanks that follow it. -/
def skipLineEnding (lineno : ℕ) (buf : Bytes) (p : ℕ) (e : UInt8) : Except Failure ℕ := do
  let p ←
    if e = lf then .ok p
    else do
      let n ← strspn buf (p + 1) [space, tab, cr]
      let c ← readByte buf (p + 1 + n)
      if c ≠ lf then fail lineno "unexpected char after line-ending backslash"
      else .ok (p + 1 + n)
  let n ← strspn buf (p + 1) [space, tab, cr, lf]
  .ok (p + 1 + n)

/-- The loop of `parse_norm`, which writes at `dst` what it reads at `p` of the same buffer. -/
def normLoop (lineno : ℕ) : ℕ → Bytes → ℕ → ℕ → Except Failure (Bytes × ℕ)
  | 0, _, _, _ => .error .unfinished
  | fuel + 1, buf, dst, p => do
    let c ← readByte buf p
    if c = 0 then .ok (buf, dst)
    else if c ≠ backslash then do
      let buf ← writeBytes buf dst [c]
      normLoop lineno fuel buf (dst + 1) (p + 1)
    else do
      let e ← readByte buf (p + 1)
      match escapeByte e with
      | some b => do
        let buf ← writeBytes buf dst [b]
        normLoop lineno fuel buf (dst + 1) (p + 2)
      | none =>
        if hexDigits e ≠ 0 then do
          let ds ← readBytes buf (p + 2) (hexDigits e)
          let bs ← hexBytes lineno e ds
          let buf ← writeBytes buf dst bs
          normLoop lineno fuel buf (dst + bs.length) (p + 2 + hexDigits e)
        else if e ∈ [space, tab, cr, lf] then do
          let p ← skipLineEnding lineno buf p e
          normLoop lineno fuel buf dst p
        else .error (.error lineno (ascii "internal: unknown escape char \\" ++ [e]))

/-- The text without its escapes, from the first one at `i`. -/
def unescape (tok : Token F) (i : ℕ) : Except Failure Bytes := do
  let buf := tok.str ++ [0]
  let c ← readByte buf i
  if c ≠ backslash then .error .assertion
  else do
    let (buf, dst) ← normLoop tok.lineno (buf.length + 1) buf i i
    let buf ← writeBytes buf dst [0]
    .ok (buf.take dst)

def parseNorm (pool : Pool) (tok : Token F) : Except Failure (Bytes × Pool) :=
  match poolAlloc pool (tok.str.length + 1) with
  | none => fail tok.lineno "out of memory"
  | some pool =>
    match tok.toktyp with
    | .lit | .litstring | .mllitstring => .ok (tok.str, pool)
    | .string | .mlstring =>
      match tok.u with
      | .escp i => do
        let s ← unescape tok i
        .ok (s, pool)
      | _ => .ok (tok.str, pool)
    | _ => fail 0 "internal: arg must be a string"

end Xfrpc.Toml.Norm
