import Xfrpc.Toml.Documents

namespace Xfrpc.Toml.Lookup

open Foundations.Fallible Foundations.RoseTree Scan Toml.Lex Toml.Tree Parse Tokens Growth Documents

variable {F : Type}

def dot : UInt8 := 0x2e

/-- `toml_get`; a datum of type `TOML_UNKNOWN` is none. -/
def tomlGet (datum : Datum F) (key : Bytes) : Option (Datum F) :=
  match datum.label.kind with
  | .table keys => (keys.findIdx? (· = key)).bind fun i ↦ datum.children[i]?
  | _ => none

/-- The loop of `toml_seek`. -/
def seekLoop : ℕ → Datum F → Bytes → Option (Datum F)
  | 0, _, _ => none
  | fuel + 1, datum, p =>
    if isTable datum = false then none
    else if dot ∈ p then
      (tomlGet datum (p.takeWhile (· ≠ dot))).bind fun value ↦
        seekLoop fuel value (p.dropWhile (· ≠ dot)).tail
    else tomlGet datum p

def seekBufferSize : ℕ := 256

/-- `toml_seek`, which copies the key with its NUL to a buffer. -/
def tomlSeek (table : Datum F) (multipartKey : Bytes) : Option (Datum F) :=
  if isTable table = false then none
  else if seekBufferSize < multipartKey.length + 1 then none
  else seekLoop (multipartKey.length + 1) table multipartKey

/-- The parts of a key with dots between them. -/
def dotted : List Bytes → Bytes
  | [] => []
  | [key] => key
  | key :: keys => key ++ dot :: dotted keys

/-- A key that `toml_seek` is given as a C string and takes apart again. -/
structure Seekable (keys : List Bytes) : Prop where
  parts : ∀ key ∈ keys, dot ∉ key
  text : ∀ key ∈ keys, 0 ∉ key
  short : (dotted keys).length < seekBufferSize

theorem split_first {key rest : Bytes} (h : dot ∉ key) :
    (key ++ dot :: rest).takeWhile (· ≠ dot) = key ∧
      ((key ++ dot :: rest).dropWhile (· ≠ dot)).tail = rest := by
  have hkey : ∀ c ∈ key, decide (c ≠ dot) = true := by
    intro c hc
    exact decide_eq_true fun hdot ↦ h (hdot ▸ hc)
  constructor
  · rw [List.takeWhile_append_of_pos hkey]
    simp
  · rw [List.dropWhile_append_of_pos hkey]
    simp

theorem tomlGet_follows {top tab : Datum F} {p : Position} {ks : List Bytes} {key : Bytes} {j : ℕ}
    (hp : top.at? p = some tab) (hks : tab.label.kind = .table ks) (hj : indexOf ks key = some j) :
    tomlGet tab key = top.at? (p ++ [j]) := by
  have hindex : ks.findIdx? (· = key) = some j := hj
  rw [tomlGet, hks, Rose.at?_append, hp, Option.bind_some, Rose.at?_cons]
  dsimp only
  rw [hindex, Option.bind_some]
  cases tab.children[j]? <;> simp

/-- The loop goes where the parts of the key lead. -/
theorem seekLoop_follows {top sec : Datum F} {p q : Position} {keys : List Bytes}
    (h : Follows top p keys q) (hne : keys ≠ []) (hp : top.at? p = some sec)
    (hdot : ∀ key ∈ keys, dot ∉ key) {fuel : ℕ} (hfuel : (dotted keys).length < fuel) :
    seekLoop fuel sec (dotted keys) = top.at? q := by
  induction h generalizing sec fuel with
  | nil p => exact absurd rfl hne
  | @cons p q key keys ks tab j htab hks hj hrest ih =>
    obtain ⟨fuel, rfl⟩ := Nat.exists_eq_succ_of_ne_zero (Nat.ne_zero_of_lt hfuel)
    have hsec : sec = tab := Option.some.inj (hp.symm.trans htab)
    subst hsec
    have htable : isTable sec = true := isTable_iff.mpr ⟨ks, sec.children, hks, rfl⟩
    have hkey : dot ∉ key := hdot key List.mem_cons_self
    have hget := tomlGet_follows hp hks hj
    rw [seekLoop, htable, if_neg (by decide)]
    cases keys with
    | nil =>
      cases hrest
      rw [dotted, if_neg hkey, hget]
    | cons key' keys =>
      have hlong : dotted (key :: key' :: keys) = key ++ dot :: dotted (key' :: keys) := rfl
      obtain ⟨hfirst, htail⟩ := @split_first key (dotted (key' :: keys)) hkey
      rw [hlong, if_pos (by simp), hfirst, htail, hget]
      -- the next part is looked up in a table, which is there
      cases hrest with
      | cons hnext hks' hj' hrest' =>
        rw [hnext, Option.bind_some]
        refine ih (List.cons_ne_nil _ _) hnext (fun k hk ↦ hdot k (List.mem_cons_of_mem _ hk)) ?_
        rw [hlong, List.length_append, List.length_cons] at hfuel
        omega

theorem tomlSeek_follows {top sec : Datum F} {p q : Position} {keys : List Bytes}
    (h : Follows top p keys q) (hne : keys ≠ []) (hp : top.at? p = some sec) (hsec : isTable sec)
    (hkeys : Seekable keys) : tomlSeek sec (dotted keys) = top.at? q := by
  have hshort : ¬ seekBufferSize < (dotted keys).length + 1 := Nat.not_lt.mpr hkeys.short
  rw [tomlSeek, hsec, if_neg (by decide), if_neg hshort]
  exact seekLoop_follows h hne hp hkeys.parts (Nat.lt_succ_self _)

section Runs

variable (strtod : Bytes → Option F)

theorem keyvalue_found {n : ℕ} {pp pp' pp'' : Parser F} {typ : Toktyp} {typs : List Toktyp}
    (hpp : ParserOk n pp) (hstep : parseStep strtod pp = .ok (typ, pp')) (hkv : IsKeyvalue typ)
    (hbehind : Run strtod pp' typs pp'') :
    ∃ tok sp keys value sec, scanKey strtod pp.scanner = .ok (tok, sp) ∧
      Assigns strtod { pp with scanner := sp } tok keys value ∧
      pp''.toptab.at? pp.curtab = some sec ∧
      (Seekable keys → ∃ v, tomlSeek sec (dotted keys) = some v ∧ Extends value v) := by
  have hs := (parseStep_spec strtod hpp).value hstep
  have hr := hbehind.spec strtod hs.parser
  obtain ⟨tok, sp, keys, value, hscan, hassigned⟩ := hs.keyvalue hkv
  obtain ⟨q, hfollow, hvalue⟩ := hassigned.found
  obtain ⟨sec, hsec, htable⟩ := hpp.current.mono (hs.later.trans hr.later)
  obtain ⟨v, hv, hext⟩ := hr.later.at? hvalue
  refine ⟨tok, sp, keys, value, sec, hscan, hassigned.reads, hsec, fun hkeys ↦ ⟨v, ?_, hext⟩⟩
  rw [← hv]
  exact tomlSeek_follows (hfollow.mono hr.later) hassigned.nonempty hsec (isTable_iff.mpr htable)
    hkeys

/-- A line of a document with a key and a value, after whatever lines before it and before
whatever lines behind it: `toml_seek` with the parts of its key finds the value in the table of
the header it stands under, where at most tables and arrays have grown. -/
theorem value_is_found {src : Bytes} {typs typs' : List Toktyp} {pp pp' pp'' : Parser F}
    {typ : Toktyp} (hbefore : Run strtod (parserInit src) typs pp)
    (hstep : parseStep strtod pp = .ok (typ, pp')) (hkv : IsKeyvalue typ)
    (hbehind : Run strtod pp' typs' pp'') :
    ∃ tok sp keys value sec, scanKey strtod pp.scanner = .ok (tok, sp) ∧
      Assigns strtod { pp with scanner := sp } tok keys value ∧
      pp''.toptab.at? pp.curtab = some sec ∧
      (Seekable keys → ∃ v, tomlSeek sec (dotted keys) = some v ∧ Extends value v) := by
  exact keyvalue_found strtod (hbefore.spec strtod (parserInit_ok src)).parser hstep hkv hbehind

/-- Between two lines the count of open brackets is minus the number of headers `[...]`: the
closing bracket of a header is counted where `parse_key` peeks at it and once more where it is
read, since `scan_restore` leaves the counts. So the limit for nested arrays grows with every
header, while that for nested tables stays. -/
theorem limit_grows {src : Bytes} {typs : List Toktyp} {pp : Parser F}
    (h : Run strtod (parserInit src) typs pp) :
    pp.scanner.bracketLevel = -(typs.count .lbrack : ℤ) ∧ pp.scanner.braceLevel = 0 ∧
      ∀ (sp : Scanner) (tok : Token F), sp.bracketLevel = pp.scanner.bracketLevel →
        tok.toktyp = .lbrack → ∀ d : ℕ,
          ((checkOverflow { sp with bracketLevel := sp.bracketLevel + d } tok).toOption.isSome ↔
            d < 30 + typs.count .lbrack) := by
  have hr := h.spec strtod (parserInit_ok src)
  have hbracket : pp.scanner.bracketLevel = -(typs.count .lbrack : ℤ) :=
    hr.bracket.trans (Int.zero_sub _)
  refine ⟨hbracket, hr.brace, fun sp tok hsp htok d ↦ ?_⟩
  have hlimit : bracketLevelMax < sp.bracketLevel + d + 1 ↔ ¬ d < 30 + typs.count .lbrack := by
    rw [hsp, hbracket, bracketLevelMax]
    omega
  rw [checkOverflow]
  simp only [htok]
  by_cases hd : d < 30 + typs.count .lbrack
  · rw [if_neg (fun hmax ↦ hlimit.mp hmax hd)]
    simp [hd, Except.toOption]
  · rw [if_pos (hlimit.mpr hd)]
    simp [hd, fail, Except.toOption]

end Runs

/-- The parser behind a line, where the line is accepted. -/
def nextLine (strtod : Bytes → Option F) (pp : Parser F) : Parser F :=
  match parseStep strtod pp with
  | .ok r => r.2
  | .error _ => pp

/-- The first token of a line, where the line is accepted. -/
def lineType (strtod : Bytes → Option F) (pp : Parser F) : Option Toktyp :=
  match parseStep strtod pp with
  | .ok r => some r.1
  | .error _ => none

theorem parseStep_nextLine (strtod : Bytes → Option F) {pp : Parser F} {typ : Toktyp}
    (h : lineType strtod pp = some typ) :
    parseStep strtod pp = .ok (typ, nextLine strtod pp) := by
  rw [lineType] at h
  rw [nextLine]
  cases hstep : parseStep strtod pp with
  | error e =>
    rw [hstep] at h
    cases h
  | ok r =>
    rw [hstep] at h
    cases h
    rfl

/-- A document of three lines. -/
def threeLines : Parser ℕ := parserInit (ascii "[a]\nb.c=true\n[d]")

def noFloats : Bytes → Option ℕ := fun _ ↦ none

/-- A dotted key under a header, with another header behind it. -/
theorem value_is_found_dotted :
    ∃ pp pp' pp'' : Parser ℕ, Run noFloats threeLines [.lbrack] pp ∧
      parseStep noFloats pp = .ok (.lit, pp') ∧ Run noFloats pp' [.lbrack] pp'' ∧
      ∃ tok sp keys value sec, scanKey noFloats pp.scanner = .ok (tok, sp) ∧
        Assigns noFloats { pp with scanner := sp } tok keys value ∧
        pp''.toptab.at? pp.curtab = some sec ∧
        (Seekable keys → ∃ v, tomlSeek sec (dotted keys) = some v ∧ Extends value v) := by
  let pp := nextLine noFloats threeLines
  let pp' := nextLine noFloats pp
  have hheader : parseStep noFloats threeLines = .ok (.lbrack, pp) :=
    parseStep_nextLine noFloats (by decide +kernel)
  have hstep : parseStep noFloats pp = .ok (.lit, pp') :=
    parseStep_nextLine noFloats (by decide +kernel)
  have hnext : parseStep noFloats pp' = .ok (.lbrack, nextLine noFloats pp') :=
    parseStep_nextLine noFloats (by decide +kernel)
  have hbefore : Run noFloats threeLines [.lbrack] pp := .cons hheader (.nil pp)
  have hbehind : Run noFloats pp' [.lbrack] (nextLine noFloats pp') := .cons hnext (.nil _)
  exact ⟨pp, pp', nextLine noFloats pp', hbefore, hstep, hbehind,
    value_is_found noFloats hbefore hstep (.inr (.inr rfl)) hbehind⟩

/-- Behind one header a thirty-first bracket may be open. -/
theorem limit_grows_header :
    ∃ pp : Parser ℕ, Run noFloats threeLines [.lbrack] pp ∧ pp.scanner.bracketLevel = -1 ∧
      pp.scanner.braceLevel = 0 ∧
      ∀ (sp : Scanner) (tok : Token ℕ), sp.bracketLevel = pp.scanner.bracketLevel →
        tok.toktyp = .lbrack → ∀ d : ℕ,
          ((checkOverflow { sp with bracketLevel := sp.bracketLevel + d } tok).toOption.isSome ↔
            d < 31) := by
  have hheader : parseStep noFloats threeLines = .ok (.lbrack, nextLine noFloats threeLines) :=
    parseStep_nextLine noFloats (by decide +kernel)
  have hrun : Run noFloats threeLines [.lbrack] (nextLine noFloats threeLines) :=
    .cons hheader (.nil _)
  exact ⟨nextLine noFloats threeLines, hrun, limit_grows noFloats hrun⟩

end Xfrpc.Toml.Lookup
