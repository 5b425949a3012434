import Xfrpc.Toml.Norm
import Xfrpc.Toml.Tree

namespace Xfrpc.Toml.Parse

open Foundations.RoseTree Scan Toml.Lex Toml.Norm Toml.Tree

variable {F : Type}

def keypartMax : ℕ := 10

def isKeyToken (tok : Token F) : Bool :=
  tok.toktyp = .string || tok.toktyp = .litstring || tok.toktyp = .lit

/-- The error of `parse_key` in the place of one of `parse_norm`. -/
def normError {α : Type} (lineno : ℕ) : Except Failure α → Except Failure α
  | .error (.error _ _) => fail lineno "unable to normalize string; probably a unicode issue"
  | r => r

section Floats

variable (strtod : Bytes → Option F)

/-- The loop of `parse_key`, with room for `room` more parts. -/
def parseKeyLoop : ℕ → Scanner → Pool → Except Failure (List Bytes × Scanner × Pool)
  | room, sp, pool => do
    let (tok, sp') ← scanKey strtod sp
    if tok.toktyp ≠ .dot then .ok ([], scanRestore sp' sp.state, pool)
    else do
      let (tok, sp') ← scanKey strtod sp'
      if isKeyToken tok = false then fail tok.lineno "expects a string in dotted-key"
      else
        match room with
        | 0 => fail tok.lineno "too many key parts"
        | room + 1 => do
          let (part, pool) ← parseNorm pool tok
          let (parts, sp, pool) ← parseKeyLoop room sp' pool
          .ok (part :: parts, sp, pool)

/-- The parts of a key, from its first token. -/
def parseKey (sp : Scanner) (pool : Pool) (tok : Token F) :
    Except Failure (List Bytes × Scanner × Pool) :=
  if isKeyToken tok = false then fail tok.lineno "missing key"
  else do
    let (part, pool) ← normError tok.lineno (parseNorm pool tok)
    let (parts, sp, pool) ← parseKeyLoop strtod (keypartMax - 1) sp pool
    .ok (part :: parts, sp, pool)

/-- `token_to_string`, `token_to_timestamp`, `token_to_int64`, `token_to_fp64` and
`token_to_boolean`; none for the other tokens. -/
def tokenToScalar (pool : Pool) (tok : Token F) : Option (Except Failure (Scalar F × Pool)) :=
  match tok.toktyp, tok.u with
  | .string, _ | .mlstring, _ | .litstring, _ | .mllitstring, _ =>
    some ((parseNorm pool tok).map fun r ↦ (.string r.1, r.2))
  | .time, .tsval t => some (.ok (.timestamp .time t, pool))
  | .date, .tsval t => some (.ok (.timestamp .date t, pool))
  | .datetime, .tsval t => some (.ok (.timestamp .datetime t, pool))
  | .datetimetz, .tsval t => some (.ok (.timestamp .datetimetz t, pool))
  | .integer, .int64 n => some (.ok (.int64 n, pool))
  | .float, .fp64 x => some (.ok (.fp64 x, pool))
  | .bool, .b1 b => some (.ok (.boolean b, pool))
  | _, _ => none

/-- The errors of `tab_add` in `parse_inline_table`, and those of a missing `=`. -/
def missingEqual {α : Type} (tok : Token F) : Except Failure α :=
  if tok.toktyp = .endl then fail tok.lineno "unexpected newline"
  else fail tok.lineno "missing '='"

mutual

def parseVal : ℕ → Scanner → Pool → Token F → Except Failure (Datum F × Scanner × Pool)
  | 0, _, _, _ => .error .unfinished
  | fuel + 1, sp, pool, tok =>
    match tokenToScalar pool tok with
    | some r => do
      let (v, pool) ← r
      .ok (mkscalar v, sp, pool)
    | none =>
      if tok.toktyp = .lbrack then parseInlineArray fuel sp pool [] false
      else if tok.toktyp = .lbrace then parseInlineTable fuel sp pool (mktable false) false
      else fail tok.lineno "missing value"

/-- The loop of `parse_inline_array`, with the elements so far. -/
def parseInlineArray : ℕ → Scanner → Pool → List (Datum F) → Bool →
    Except Failure (Datum F × Scanner × Pool)
  | 0, _, _, _, _ => .error .unfinished
  | fuel + 1, sp, pool, elem, needComma => do
    let (tok, sp) ← scanValue strtod sp
    if tok.toktyp = .endl then parseInlineArray fuel sp pool elem needComma
    else if tok.toktyp = .rbrack then .ok (setInlined (mkarray elem), sp, pool)
    else if tok.toktyp = .comma then
      if needComma then parseInlineArray fuel sp pool elem false
      else fail tok.lineno "syntax error while parsing array: unexpected comma"
    else if needComma then fail tok.lineno "syntax error while parsing array: missing comma"
    else do
      let (value, sp, pool) ← parseVal fuel sp pool tok
      if arrayMax ≤ elem.length then fail tok.lineno "while parsing array: array too large"
      else parseInlineArray fuel sp pool (elem ++ [value]) true

/-- The loop of `parse_inline_table`, with the table so far. -/
def parseInlineTable : ℕ → Scanner → Pool → Datum F → Bool →
    Except Failure (Datum F × Scanner × Pool)
  | 0, _, _, _, _ => .error .unfinished
  | fuel + 1, sp, pool, tab, needComma => do
    let (tok, sp) ← scanKey strtod sp
    if tok.toktyp = .rbrace then .ok (setInlined tab, sp, pool)
    else if tok.toktyp = .comma then
      if needComma then parseInlineTable fuel sp pool tab false
      else fail tok.lineno "unexpected comma"
    else if tok.toktyp = .endl then parseInlineTable fuel sp pool tab needComma
    else if needComma then fail tok.lineno "missing comma"
    else do
      let (keys, sp, pool) ← parseKey strtod sp pool tok
      let (tab, p) ← locateInline tok.lineno keys.dropLast tab
      let (tok, sp) ← scanValue strtod sp
      if tok.toktyp ≠ .equal then missingEqual tok
      else do
        let (tok, sp) ← scanValue strtod sp
        let (value, sp, pool) ← parseVal fuel sp pool tok
        let tab ← tabAddAt tok.lineno tab p (keys.getLastD []) value
        parseInlineTable fuel sp pool tab true

end

structure Parser (F : Type) where
  scanner : Scanner
  pool : Pool
  toptab : Datum F
  curtab : Position

/-- The steps that bound the loops of a value: two for each byte to come. -/
def valueFuel (sp : Scanner) : ℕ := 2 * sp.state.rest.length + 3

/-- A header of a table: its key, the closing bracket, and what it does to the document. -/
def parseTableExpr (close : Toktyp) (missing : String)
    (add : ℕ → List Bytes → Bytes → Datum F → Except Failure (Datum F × Position))
    (pp : Parser F) : Except Failure (Parser F) := do
  let (tok, sp) ← scanKey strtod pp.scanner
  let (keys, sp, pool) ← parseKey strtod sp pp.pool tok
  let (rb, sp) ← scanKey strtod sp
  if rb.toktyp ≠ close then fail rb.lineno missing
  else do
    let (top, p) ← add tok.lineno keys.dropLast (keys.getLastD []) pp.toptab
    .ok ⟨sp, pool, top, p⟩

def parseStdTableExpr : Parser F → Except Failure (Parser F) :=
  parseTableExpr strtod .rbrack "missing right-bracket" addStdTable

def parseArrayTableExpr : Parser F → Except Failure (Parser F) :=
  parseTableExpr strtod .rrbrack "missing ']]'" addArrayTable

def parseKeyvalueExpr (pp : Parser F) (tok : Token F) : Except Failure (Parser F) := do
  let (keys, sp, pool) ← parseKey strtod pp.scanner pp.pool tok
  let (eq, sp) ← scanKey strtod sp
  if eq.toktyp ≠ .equal then fail eq.lineno "expect '='"
  else do
    let (top, p) ← locateTable tok.lineno keys.dropLast pp.toptab pp.curtab
    let (val, sp) ← scanValue strtod sp
    let (newval, sp, pool) ← parseVal strtod (valueFuel sp) sp pool val
    let top ← tabAddAt tok.lineno top p (keys.getLastD []) newval
    .ok ⟨sp, pool, top, pp.curtab⟩

/-- One expression of a document, from its first token. -/
def parseExpr (pp : Parser F) (tok : Token F) : Except Failure (Parser F) :=
  if tok.toktyp = .lbrack then parseStdTableExpr strtod pp
  else if tok.toktyp = .llbrack then parseArrayTableExpr strtod pp
  else parseKeyvalueExpr strtod pp tok

/-- One round of the loop of `toml_parse`, with the type of its first token: an empty line, an
expression up to the end of its line, or the end of the document. -/
def parseStep (pp : Parser F) : Except Failure (Toktyp × Parser F) := do
  let (tok, sp) ← scanKey strtod pp.scanner
  if tok.toktyp = .fin ∨ tok.toktyp = .endl then .ok (tok.toktyp, { pp with scanner := sp })
  else do
    let pp ← parseExpr strtod { pp with scanner := sp } tok
    let (nl, sp) ← scanKey strtod pp.scanner
    if nl.toktyp = .fin ∨ nl.toktyp = .endl then .ok (tok.toktyp, { pp with scanner := sp })
    else fail nl.lineno "ENDL expected"

/-- The loop of `toml_parse`. -/
def parseLoop : ℕ → Parser F → Except Failure (Parser F)
  | 0, _ => .error .unfinished
  | fuel + 1, pp => do
    let (typ, pp) ← parseStep strtod pp
    if typ = .fin then .ok pp else parseLoop fuel pp

/-- The parser before the first expression. -/
def parserInit (src : Bytes) : Parser F :=
  ⟨scanInit src, poolCreate (src.length + 10), mktable false, []⟩

/-- `toml_parse` without `check_utf8`: the table of a document. -/
def tomlParse (src : Bytes) : Except Failure (Datum F) :=
  (parseLoop strtod (src.length + 2) (parserInit src)).map Parser.toptab

end Floats

end Xfrpc.Toml.Parse
