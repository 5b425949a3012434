import Xfrpc.Toml.Number
import Xfrpc.Toml.Utf8

namespace Xfrpc.Toml.Lex

open Scan Number

variable {F : Type}

def bracketLevelMax : ℤ := 30
def braceLevelMax : ℤ := 30

/-- A scanner: its place, and how many brackets and braces are open. -/
structure Scanner where
  state : ScannerState
  bracketLevel : ℤ
  braceLevel : ℤ
  deriving DecidableEq, Repr

def scanInit (src : Bytes) : Scanner := ⟨⟨src, 1⟩, 0, 0⟩

/-- The ranges of `is_unicode_bare_key_char`. -/
def bareKeyRanges : List (ℕ × ℕ) :=
  [(0xb2, 0xb3), (0xb9, 0xb9), (0xbc, 0xbe), (0xc0, 0xd6), (0xd8, 0xf6), (0xf8, 0x37d),
    (0x37f, 0x1fff), (0x200c, 0x200d), (0x203f, 0x2040), (0x2070, 0x218f), (0x2460, 0x24ff),
    (0x2c00, 0x2fef), (0x3001, 0xd7ff), (0xf900, 0xfdcf), (0xfdf0, 0xfffd), (0x10000, 0xeffff)]

def isUnicodeBareKeyChar (cp : ℕ) : Bool := bareKeyRanges.any fun r ↦ r.1 ≤ cp && cp ≤ r.2

def isAlnum (ch : UInt8) : Bool :=
  isDigit ch || (0x41 ≤ ch && ch ≤ 0x5a) || (0x61 ≤ ch && ch ≤ 0x7a)

def isBareKeyByte (ch : UInt8) : Bool := isAlnum ch || ch = underscore || ch = minus

/-- The loop of `scan_literal`: the number of bytes of a bare key. -/
def literalLength : ℕ → Bytes → ℕ
  | 0, _ => 0
  | _ + 1, [] => 0
  | fuel + 1, ch :: r =>
    if isBareKeyByte ch then 1 + literalLength fuel r
    else if 0x80 ≤ ch then
      match Utf8.utf8ToUcs (ch :: r) with
      | some (cp, n) =>
        if isUnicodeBareKeyChar cp then n + literalLength fuel ((ch :: r).drop n) else 0
      | none => 0
    else 0

def scanLiteral (sp : ScannerState) : Token F × ScannerState :=
  let len := literalLength sp.rest.length sp.rest
  (mktoken sp .lit len .none, sp.skip len)

/-- A control character that a comment must not hold. -/
def isBadControl (ch : UInt8) : Bool := ch ≤ 0x8 || (0x0a ≤ ch && ch ≤ 0x1f) || ch = 0x7f

/-- The loop over a comment, up to its newline. -/
def skipComment : ℕ → ScannerState → Except Failure ScannerState
  | 0, _ => .error .unfinished
  | fuel + 1, sp =>
    if scanMatch sp lf then .ok sp
    else
      match scanGet sp with
      | (none, sp) => .ok sp
      | (some ch, sp) =>
        if isBadControl ch then fail sp.lineno "bad control char in comment"
        else skipComment fuel sp

/-- The characters that are a token of their own. -/
def simpleToken (ch : UInt8) : Option Toktyp :=
  if ch = lf then some .endl
  else if ch = 0x2e then some .dot
  else if ch = 0x3d then some .equal
  else if ch = 0x2c then some .comma
  else if ch = 0x7b then some .lbrace
  else if ch = 0x7d then some .rbrace
  else none

/-- A token of one character, or of two in key mode where the character is doubled; `sp` is
past the first one. -/
def bracket (start sp : ScannerState) (keymode : Bool) (ch : UInt8) (single double : Toktyp) :
    Token F × ScannerState :=
  if keymode && scanMatch sp ch then (mktoken start double 2 .none, (scanGet sp).2)
  else (mktoken start single 1 .none, sp)

section Floats

variable (strtod : Bytes → Option F)

/-- `scan_next`, from `again`. -/
def scanNext (keymode : Bool) : ℕ → ScannerState → Except Failure (Token F × ScannerState)
  | 0, _ => .error .unfinished
  | fuel + 1, start =>
    match scanGet start with
    | (none, sp) => .ok (mktoken start .fin 0 .none, sp)
    | (some ch, sp) =>
      match simpleToken ch with
      | some typ => .ok (mktoken start typ 1 .none, sp)
      | none =>
        if ch = space ∨ ch = tab then scanNext keymode fuel sp
        else if ch = 0x23 then do
          let sp ← skipComment (sp.rest.length + 1) sp
          scanNext keymode fuel sp
        else if ch = 0x5b then .ok (bracket start sp keymode ch .lbrack .llbrack)
        else if ch = 0x5d then .ok (bracket start sp keymode ch .rbrack .rrbrack)
        else if ch = dquote then scanString start
        else if ch = squote then scanLitstring start
        else if keymode then .ok (scanLiteral start)
        else scanNonstringLiteral strtod start

def checkOverflow (sp : Scanner) (tok : Token F) : Except Failure Scanner :=
  match tok.toktyp with
  | .lbrack =>
    if bracketLevelMax < sp.bracketLevel + 1 then fail sp.state.lineno "stack overflow"
    else .ok { sp with bracketLevel := sp.bracketLevel + 1 }
  | .rbrack => .ok { sp with bracketLevel := sp.bracketLevel - 1 }
  | .lbrace =>
    if braceLevelMax < sp.braceLevel + 1 then fail sp.state.lineno "stack overflow"
    else .ok { sp with braceLevel := sp.braceLevel + 1 }
  | .rbrace => .ok { sp with braceLevel := sp.braceLevel - 1 }
  | _ => .ok sp

/-- `scan_key` and `scan_value`. -/
def scanToken (keymode : Bool) (sp : Scanner) : Except Failure (Token F × Scanner) := do
  let (tok, state) ← scanNext strtod keymode (sp.state.rest.length + 1) sp.state
  let sp ← checkOverflow { sp with state := state } tok
  .ok (tok, sp)

def scanKey : Scanner → Except Failure (Token F × Scanner) := scanToken strtod true

def scanValue : Scanner → Except Failure (Token F × Scanner) := scanToken strtod false

/-- `scan_restore`, which leaves the counts of brackets and braces as they are. -/
def scanRestore (sp : Scanner) (mark : ScannerState) : Scanner := { sp with state := mark }

end Floats

end Xfrpc.Toml.Lex
