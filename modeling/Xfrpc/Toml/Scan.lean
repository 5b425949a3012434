import Mathlib.Data.List.TakeWhile
import Xfrpc.Foundations.BigEndian

namespace Xfrpc.Toml.Scan

def lf : UInt8 := 0x0a
def cr : UInt8 := 0x0d
def tab : UInt8 := 0x09
def space : UInt8 := 0x20
def dquote : UInt8 := 0x22
def squote : UInt8 := 0x27
def backslash : UInt8 := 0x5c

def ascii (s : String) : Bytes := s.toList.map fun c ↦ UInt8.ofNat c.toNat

/-- How parsing ends early: an error with its line and its text, an assertion that does not
hold, an access outside of a buffer, or a loop of the model that has used up its steps. -/
inductive Failure
  | error (lineno : ℕ) (text : Bytes)
  | assertion
  | outOfBounds
  | unfinished
  deriving DecidableEq, Repr

/-- `SETERROR`. -/
def fail {α : Type} (lineno : ℕ) (text : String) : Except Failure α :=
  .error (.error lineno (ascii text))

inductive Toktyp
  | dot | equal | comma | lbrack | llbrack | rbrack | rrbrack | lbrace | rbrace
  | lit | string | mlstring | litstring | mllitstring
  | time | date | datetime | datetimetz | integer | float | bool | endl | fin
  deriving DecidableEq, Repr

structure Timestamp where
  year : ℤ
  month : ℤ
  day : ℤ
  hour : ℤ
  minute : ℤ
  sec : ℤ
  usec : ℤ
  tz : ℤ
  deriving DecidableEq, Repr

variable {F : Type}

/-- The value of a token; a position in its text for `escp`. -/
inductive Value (F : Type)
  | none
  | escp (i : ℕ)
  | int64 (n : ℤ)
  | fp64 (x : F)
  | b1 (b : Bool)
  | tsval (t : Timestamp)
  deriving DecidableEq, Repr

structure Token (F : Type) where
  toktyp : Toktyp
  lineno : ℕ
  str : Bytes
  u : Value F
  deriving DecidableEq, Repr

/-- The place of a scanner, as `scan_mark` saves it; `rest` is the text from `cur` to `endp`. -/
structure ScannerState where
  rest : Bytes
  lineno : ℕ
  deriving DecidableEq, Repr

/-- `cur += n`. -/
def ScannerState.skip (sp : ScannerState) (n : ℕ) : ScannerState := { sp with rest := sp.rest.drop n }

/-- The number of bytes from `start` to `sp`, and these bytes. -/
def consumed (start sp : ScannerState) : ℕ := start.rest.length - sp.rest.length

def between (start sp : ScannerState) : Bytes := start.rest.take (consumed start sp)

/-- The next character, or none for `TOK_FIN`. -/
def scanGet (sp : ScannerState) : Option UInt8 × ScannerState :=
  match sp.rest with
  | [] => (none, sp)
  | c :: r =>
    if c = cr ∧ r.head? = some lf then
      (some lf, { sp with rest := r.tail, lineno := sp.lineno + 1 })
    else (some c, { sp with rest := r, lineno := if c = lf then sp.lineno + 1 else sp.lineno })

def scanMatch (sp : ScannerState) (ch : UInt8) : Bool :=
  sp.rest.head? = some ch || (ch = lf && sp.rest.take 2 = [cr, lf])

def scanMatchany (sp : ScannerState) (accept : List UInt8) : Bool := accept.any (scanMatch sp)

def scanNmatch (sp : ScannerState) (ch : UInt8) (n : ℕ) : Bool :=
  sp.rest.take n = List.replicate n ch

def mktoken (sp : ScannerState) (typ : Toktyp) (len : ℕ) (u : Value F) : Token F :=
  ⟨typ, sp.lineno, sp.rest.take len, u⟩

def isValidChar (ch : UInt8) : Bool := (0x20 ≤ ch && ch ≤ 0x7e) || 0x80 ≤ ch

def isDigit (ch : UInt8) : Bool := 0x30 ≤ ch && ch ≤ 0x39

def toLower (ch : UInt8) : UInt8 := if 0x41 ≤ ch ∧ ch ≤ 0x5a then ch + 0x20 else ch

def toUpper (ch : UInt8) : UInt8 := if 0x61 ≤ ch ∧ ch ≤ 0x7a then ch - 0x20 else ch

def isHexChar (ch : UInt8) : Bool :=
  let ch := toUpper ch
  isDigit ch || (0x41 ≤ ch && ch ≤ 0x46)

/-- The escapes of one character. -/
def simpleEscapes : Bytes := ascii "btnfre\"\\"

/-- The number of hex digits after `x`, `u` and `U`. -/
def hexDigits (ch : UInt8) : ℕ :=
  if ch = 0x78 then 2 else if ch = 0x75 then 4 else if ch = 0x55 then 8 else 0

def hexError (hex : ℕ) (ch : UInt8) : Bytes :=
  ascii "expect " ++ [0x30 + .ofNat hex] ++ ascii " hex digits after \\" ++ [ch]

/-- The length of the escape sequence after a backslash, or 0. -/
def scanEscapeChars (sp : ScannerState) : Except Failure ℕ :=
  match sp.rest with
  | [] => .ok 0
  | ch :: r =>
    if ch ∈ simpleEscapes then .ok 1
    else if hexDigits ch = 0 then .ok 0
    else if (r.takeWhile isHexChar).length < hexDigits ch then
      .error (.error sp.lineno (hexError (hexDigits ch) ch))
    else .ok (1 + hexDigits ch)

/-- `S_GET` as long as one of `accept` is next. -/
def scanWhile (accept : List UInt8) : ℕ → ScannerState → Except Failure ScannerState
  | 0, _ => .error .unfinished
  | fuel + 1, sp =>
    if scanMatchany sp accept then scanWhile accept fuel (scanGet sp).2 else .ok sp

def isBlank (ch : UInt8) : Bool := ch = space || ch = tab

/-- The line-ending backslash of a multi-line string, from the character after it. -/
def lineEnding (sp : ScannerState) : Except Failure ScannerState :=
  let (ch, sp) := scanGet sp
  let (ch, sp) :=
    if ch = some space ∨ ch = some tab then scanGet { sp with rest := sp.rest.dropWhile isBlank }
    else (ch, sp)
  if ch = some lf then scanWhile [space, tab, lf] (sp.rest.length + 1) sp
  else fail sp.lineno "bad escape char in string"

/-- What follows a backslash of a multi-line string. -/
def multilineEscape (sp : ScannerState) : Except Failure ScannerState := do
  let cnt ← scanEscapeChars sp
  if 0 < cnt then .ok (sp.skip cnt) else lineEnding sp

/-- What three, four or six quotes in a row say about the end of a multi-line string. -/
inductive Closing
  | more
  | closed
  | tooMany
  deriving DecidableEq

def closing (sp : ScannerState) (quote : UInt8) : Closing :=
  if scanNmatch sp quote 3 then
    if scanNmatch sp quote 4 then if scanNmatch sp quote 6 then .tooMany else .more
    else .closed
  else .more

/-- The loop of `scan_multiline_string`, with the first escape and the end of the text. -/
def multilineLoop (start : ScannerState) :
    ℕ → ScannerState → Option ℕ → Except Failure (Option ℕ × ScannerState)
  | 0, _, _ => .error .unfinished
  | fuel + 1, sp, escp =>
    match closing sp dquote with
    | .closed => .ok (escp, sp)
    | .tooMany => fail sp.lineno "detected sequences of 3 or more double quotes"
    | .more =>
      match scanGet sp with
      | (none, sp) => fail sp.lineno "unterminated \"\"\""
      | (some ch, sp) =>
        if ch ≠ backslash then
          if isValidChar ch || ch ∈ [space, tab, lf] then multilineLoop start fuel sp escp
          else fail sp.lineno "invalid char in string"
        else do
          let sp' ← multilineEscape sp
          multilineLoop start fuel sp' (escp.or (some (consumed start sp - 1)))

/-- The value of a string token. -/
def escape : Option ℕ → Value F
  | none => .none
  | some i => .escp i

/-- A newline right after the opening quotes does not count. -/
def trimNewline (sp : ScannerState) : ScannerState := if scanMatch sp lf then (scanGet sp).2 else sp

def scanMultilineString (sp : ScannerState) : Except Failure (Token F × ScannerState) :=
  let start := trimNewline (sp.skip 3)
  do
    let (escp, sp) ← multilineLoop start (start.rest.length + 1) start none
    .ok (mktoken start .mlstring (consumed start sp) (escape escp), sp.skip 3)

/-- The loop of `scan_string`. -/
def stringLoop (start : ScannerState) :
    ℕ → ScannerState → Option ℕ → Except Failure (Option ℕ × ScannerState)
  | 0, _, _ => .error .unfinished
  | fuel + 1, sp, escp =>
    if scanMatch sp dquote then .ok (escp, sp)
    else
      match scanGet sp with
      | (none, sp) => fail sp.lineno "unterminated string"
      | (some ch, sp) =>
        if ch ≠ backslash then
          if isValidChar ch || ch = space || ch = tab then stringLoop start fuel sp escp
          else fail sp.lineno "invalid char in string"
        else do
          let cnt ← scanEscapeChars sp
          if 0 < cnt then
            stringLoop start fuel (sp.skip cnt) (escp.or (some (consumed start sp - 1)))
          else fail sp.lineno "bad escape char in string"

def scanString (sp : ScannerState) : Except Failure (Token F × ScannerState) :=
  if scanNmatch sp dquote 3 then scanMultilineString sp
  else
    let start := sp.skip 1
    do
      let (escp, sp) ← stringLoop start (start.rest.length + 1) start none
      .ok (mktoken start .string (consumed start sp) (escape escp), sp.skip 1)

/-- The loop of `scan_multiline_litstring`. -/
def multilineLitLoop : ℕ → ScannerState → Except Failure ScannerState
  | 0, _ => .error .unfinished
  | fuel + 1, sp =>
    match closing sp squote with
    | .closed => .ok sp
    | .tooMany => fail sp.lineno "sequences of 3 or more single quotes"
    | .more =>
      match scanGet sp with
      | (none, sp) => fail sp.lineno "unterminated multiline lit string"
      | (some ch, sp) =>
        if isValidChar ch || ch ∈ [space, tab, lf] then multilineLitLoop fuel sp
        else fail sp.lineno "invalid char in string"

def scanMultilineLitstring (sp : ScannerState) : Except Failure (Token F × ScannerState) :=
  let start := trimNewline (sp.skip 3)
  do
    let sp ← multilineLitLoop (start.rest.length + 1) start
    .ok (mktoken start .mllitstring (consumed start sp) .none, sp.skip 3)

/-- The loop of `scan_litstring`. -/
def litLoop : ℕ → ScannerState → Except Failure ScannerState
  | 0, _ => .error .unfinished
  | fuel + 1, sp =>
    if scanMatch sp squote then .ok sp
    else
      match scanGet sp with
      | (none, sp) => fail sp.lineno "unterminated string"
      | (some ch, sp) =>
        if isValidChar ch || ch = tab then litLoop fuel sp
        else fail sp.lineno "invalid char in string"

def scanLitstring (sp : ScannerState) : Except Failure (Token F × ScannerState) :=
  if scanNmatch sp squote 3 then scanMultilineLitstring sp
  else
    let start := sp.skip 1
    do
      let sp ← litLoop (start.rest.length + 1) start
      .ok (mktoken start .litstring (consumed start sp) .none, sp.skip 1)

end Xfrpc.Toml.Scan
