import Xfrpc.Toml.Values

namespace Xfrpc.Toml.Documents

open Foundations.Fallible Foundations.RoseTree Scan Toml.Lex Toml.Norm Toml.Tree Parse Strings
  Tokens Growth Values

variable {F : Type} (strtod : Bytes → Option F)

/-- The parser between two lines of a document of `n` bytes. -/
structure ParserOk (n : ℕ) (pp : Parser F) : Prop where
  ok : WellFormed pp.toptab
  root : IsTableAt pp.toptab []
  current : IsTableAt pp.toptab pp.curtab
  paid : Paid n 0 pp.scanner pp.pool

/-- What an expression does, from behind its first token, to a document and to the counts. -/
structure ExprOk (n : ℕ) (b : ℤ) (pp pp' : Parser F) : Prop where
  parser : ParserOk n pp'
  later : Extends pp.toptab pp'.toptab
  shorter : left pp'.scanner < left pp.scanner
  bracket : pp'.scanner.bracketLevel = pp.scanner.bracketLevel + b
  brace : pp'.scanner.braceLevel = pp.scanner.braceLevel

/-- A header closes its bracket twice, once where `parse_key` peeks at it. -/
theorem parseTableExpr_spec {n : ℕ} {pp : Parser F} (h : ParserOk n pp) {close : Toktyp}
    (hclose : close ∈ marks ∧ braceStep close = 0) {missing : String}
    (hmissing : ascii missing ≠ ascii "out of memory")
    {add : ℕ → List Bytes → Bytes → Datum F → Except Failure (Datum F × Position)}
    (hadd : ∀ lineno keys last, Outcome (Grown pp.toptab) Reported (add lineno keys last pp.toptab)) :
    Outcome (ExprOk n (2 * bracketStep close) pp) Reported
      (parseTableExpr strtod close missing add pp) := by
  rw [parseTableExpr]
  refine (scanToken_spec strtod true pp.scanner).bind fun r _ hscan ↦ ?_
  obtain ⟨tok, sp⟩ := r
  dsimp only at hscan ⊢
  obtain ⟨used, hlen, hok⟩ := hscan.split
  have hroom := h.paid.room
  refine (parseKey_spec strtod hok (by omega) h.paid.max).bind fun r _ hkeys ↦ ?_
  obtain ⟨keys, sp1, pool1⟩ := r
  obtain ⟨hkey, -, hafter⟩ := hkeys
  dsimp only
  refine (scanToken_spec strtod true sp1).bind fun r _ hscan2 ↦ ?_
  obtain ⟨rb, sp2⟩ := r
  dsimp only at hscan2 ⊢
  refine iteInduction (fun _ ↦ outcome_fail _ _ hmissing) fun hrb ↦ ?_
  have hrb : rb.toktyp = close := not_not.mp hrb
  obtain ⟨hpaid2, hleft2, hb2, hc2⟩ := hafter.next strtod hscan2 (.inl rfl) (hrb ▸ hclose.1)
  obtain ⟨-, hbkey, hckey⟩ := isKeyToken_types hkey
  refine (hadd tok.lineno keys.dropLast (keys.getLastD [])).bind fun r _ hgrown ↦ ?_
  obtain ⟨top, p⟩ := r
  refine ⟨⟨hgrown.ok, h.root.mono hgrown.later, hgrown.table, hpaid2⟩, hgrown.later, ?_, ?_, ?_⟩
  · show left sp2 < _
    omega
  · show sp2.bracketLevel = _
    rw [hb2, hscan.bracket, hbkey, hrb, Int.add_zero]
  · show sp2.braceLevel = _
    rw [hc2, hscan.brace, hckey, hrb, hclose.2]
    omega

theorem parseStdTableExpr_spec {n : ℕ} {pp : Parser F} (h : ParserOk n pp) :
    Outcome (ExprOk n (-2) pp) Reported (parseStdTableExpr strtod pp) :=
  parseTableExpr_spec strtod h (by decide) (by decide) fun lineno keys last ↦
    addStdTable_spec lineno keys last h.ok h.root

theorem parseArrayTableExpr_spec {n : ℕ} {pp : Parser F} (h : ParserOk n pp) :
    Outcome (ExprOk n 0 pp) Reported (parseArrayTableExpr strtod pp) :=
  parseTableExpr_spec strtod h (by decide) (by decide) fun lineno keys last ↦
    addArrayTable_spec lineno keys last h.ok h.root

/-- What is read behind the first token of a line `keys = value`. -/
def Assigns (pp : Parser F) (tok : Token F) (keys : List Bytes) (value : Datum F) : Prop :=
  ∃ sp1 pool1 eq sp2 val sp3 sp4 pool2,
    parseKey strtod pp.scanner pp.pool tok = .ok (keys, sp1, pool1) ∧
    scanKey strtod sp1 = .ok (eq, sp2) ∧ eq.toktyp = .equal ∧
    scanValue strtod sp2 = .ok (val, sp3) ∧
    parseVal strtod (valueFuel sp3) sp3 pool1 val = .ok (value, sp4, pool2)

/-- The value of a line is in the document where its key leads from the table of the last
header. -/
structure Assigned (pp : Parser F) (tok : Token F) (pp' : Parser F) (keys : List Bytes)
    (value : Datum F) : Prop where
  reads : Assigns strtod pp tok keys value
  nonempty : keys ≠ []
  current : pp'.curtab = pp.curtab
  found : ∃ q, Follows pp'.toptab pp.curtab keys q ∧ pp'.toptab.at? q = some value

theorem parseKeyvalueExpr_spec {n : ℕ} {pp : Parser F} (h : ParserOk n pp) {tok : Token F}
    {used : Bytes} (hok : TokenOk tok used)
    (hroom : pp.pool.top + used.length + left pp.scanner ≤ n) :
    Outcome (fun pp' ↦ isKeyToken tok ∧ ExprOk n 0 pp pp' ∧
        ∃ keys value, Assigned strtod pp tok pp' keys value)
      Reported (parseKeyvalueExpr strtod pp tok) := by
  rw [parseKeyvalueExpr]
  refine (parseKey_spec strtod hok hroom h.paid.max).bind fun r hparse hkeys ↦ ?_
  obtain ⟨keys, sp1, pool1⟩ := r
  obtain ⟨hkey, hne, hafter⟩ := hkeys
  dsimp only at hne ⊢
  refine (scanToken_spec strtod true sp1).bind fun r hread2 hscan2 ↦ ?_
  obtain ⟨eq, sp2⟩ := r
  dsimp only at hscan2 ⊢
  refine iteInduction (fun _ ↦ outcome_fail _ _) fun heq ↦ ?_
  have heq : eq.toktyp = .equal := not_not.mp heq
  obtain ⟨hpaid2, hleft2, hb2, hc2⟩ := hafter.next strtod hscan2 (.inl rfl) (by rw [heq]; decide)
  refine (locateTable_spec tok.lineno keys.dropLast h.ok h.current).bind fun r _ hlocated ↦ ?_
  obtain ⟨top, p⟩ := r
  obtain ⟨hgrown, hfollow⟩ := hlocated
  obtain ⟨hwf, hext, tab, hp, ks, values, htab⟩ := hgrown
  dsimp only at hwf hext hp hfollow ⊢
  refine (scanToken_spec strtod false sp2).bind fun r hread3 hscan3 ↦ ?_
  obtain ⟨val, sp3⟩ := r
  dsimp only at hscan3 ⊢
  obtain ⟨used3, hlen3, hok3⟩ := hscan3.split
  have hroom2 := hpaid2.room
  have henough : Enough val sp3 (valueFuel sp3) := by
    rw [valueFuel]
    exact ⟨Nat.le_add_left _ _, fun _ ↦ Nat.le_refl _⟩
  have hval := (values_spec strtod n (valueFuel sp3)).1 sp3 pool1 val used3 hok3
    (by dsimp only at hroom2; omega) hpaid2.max henough
  refine hval.bind fun r hread4 hvalue ↦ ?_
  obtain ⟨newval, sp4, pool2⟩ := r
  have hleft4 : left sp4 ≤ left sp3 := hvalue.shorter
  dsimp only
  refine (tabAddAt_spec tok.lineno hwf hp htab hvalue.ok (keys.getLastD [])).bind
    fun top' _ hadded ↦ ?_
  obtain ⟨hwf', hext', -, hat, hlast⟩ := hadded
  have hlater := hext.trans hext'
  have hsplit : keys.dropLast ++ [keys.getLastD []] = keys := by
    rw [List.getLastD_eq_getLast?, List.getLast?_eq_some_getLast hne, Option.getD_some]
    exact List.dropLast_append_getLast hne
  refine ⟨hkey, ⟨⟨hwf', h.root.mono hlater, h.current.mono hlater, hvalue.paid⟩, hlater,
      ?_, ?_, ?_⟩,
    keys, newval, ⟨sp1, pool1, eq, sp2, val, sp3, sp4, pool2, hparse, hread2, heq, hread3, hread4⟩,
    hne, rfl, p ++ [values.length], ?_, hat⟩
  · show left sp4 < _
    omega
  · show sp4.bracketLevel = _
    rw [hvalue.bracket, hscan3.bracket, hb2, heq, show bracketStep .equal = 0 from rfl]
    omega
  · show sp4.braceLevel = _
    rw [hvalue.brace, hscan3.brace, hc2, heq, show braceStep .equal = 0 from rfl]
    omega
  · rw [← hsplit]
    exact (hfollow.mono hext').append hlast

/-- What one line does to the count of brackets, from the type of its first token. -/
def drift : Toktyp → ℤ
  | .lbrack => -1
  | _ => 0

/-- The lines that have a key and a value. -/
def IsKeyvalue (typ : Toktyp) : Prop := typ = .string ∨ typ = .litstring ∨ typ = .lit

/-- One round of the loop of `toml_parse`. -/
structure StepOk (n : ℕ) (pp : Parser F) (r : Toktyp × Parser F) : Prop where
  parser : ParserOk n r.2
  later : Extends pp.toptab r.2.toptab
  shorter : r.1 ≠ .fin → left r.2.scanner < left pp.scanner
  bracket : r.2.scanner.bracketLevel = pp.scanner.bracketLevel + drift r.1
  brace : r.2.scanner.braceLevel = pp.scanner.braceLevel
  current : r.1 ≠ .lbrack → r.1 ≠ .llbrack → r.2.curtab = pp.curtab
  keyvalue : IsKeyvalue r.1 → ∃ tok sp keys value, scanKey strtod pp.scanner = .ok (tok, sp) ∧
    Assigned strtod { pp with scanner := sp } tok r.2 keys value

theorem keyvalue_not_header {typ : Toktyp} (h : typ ∈ [.lbrack, .llbrack]) : ¬ IsKeyvalue typ := by
  rintro (rfl | rfl | rfl) <;> revert h <;> decide

theorem parseExpr_spec {n : ℕ} {pp : Parser F} (h : ParserOk n pp) {tok : Token F}
    {used : Bytes} (hok : TokenOk tok used)
    (hroom : pp.pool.top + used.length + left pp.scanner ≤ n) :
    Outcome (fun pp' ↦ ExprOk n (if tok.toktyp = .lbrack then -2 else 0) pp pp' ∧
        (tok.toktyp ∈ [.lbrack, .llbrack] ∨ isKeyToken tok ∧
          ∃ keys value, Assigned strtod pp tok pp' keys value))
      Reported (parseExpr strtod pp tok) := by
  rw [parseExpr]
  split_ifs with hstd harr
  · rw [hstd]
    exact (parseStdTableExpr_spec strtod h).imp fun pp' hr ↦ ⟨hr, .inl (by decide)⟩
  · rw [harr]
    exact (parseArrayTableExpr_spec strtod h).imp fun pp' hr ↦ ⟨hr, .inl (by decide)⟩
  · exact (parseKeyvalueExpr_spec strtod h hok hroom).imp fun pp' hr ↦ ⟨hr.2.1, .inr ⟨hr.1, hr.2.2⟩⟩

theorem parseStep_spec {n : ℕ} {pp : Parser F} (h : ParserOk n pp) :
    Outcome (StepOk strtod n pp) Reported (parseStep strtod pp) := by
  rw [parseStep]
  refine (scanToken_spec strtod true pp.scanner).bind fun r hread hscan ↦ ?_
  obtain ⟨tok, sp⟩ := r
  dsimp only at hscan ⊢
  obtain ⟨used, hlen, hok⟩ := hscan.split
  have hroom := h.paid.room
  have hpaid : Paid n 0 sp pp.pool := ⟨by omega, h.paid.max⟩
  refine iteInduction (fun hend ↦ ?_) fun _ ↦ ?_
  · obtain ⟨hdrift, hb, hc, hkey⟩ : drift tok.toktyp = 0 ∧ bracketStep tok.toktyp = 0 ∧
        braceStep tok.toktyp = 0 ∧ ¬ IsKeyvalue tok.toktyp := by
      rcases hend with ht | ht <;> rw [ht] <;> simp [drift, bracketStep, braceStep, IsKeyvalue]
    refine ⟨⟨h.ok, h.root, h.current, hpaid⟩, Extends.refl _, fun hfin ↦ ?_, ?_, ?_,
      fun _ _ ↦ rfl, fun hkv ↦ absurd hkv hkey⟩
    · have hpos := hok.pos (by rw [hend.resolve_left hfin]; decide)
      dsimp only
      omega
    · dsimp only
      rw [hscan.bracket, hb, hdrift]
    · dsimp only
      rw [hscan.brace, hc, Int.add_zero]
  have hfirst : ParserOk n { pp with scanner := sp } := ⟨h.ok, h.root, h.current, hpaid⟩
  refine (parseExpr_spec strtod hfirst hok (by dsimp only; omega)).bind fun pp1 _ hexpr ↦ ?_
  obtain ⟨⟨hparser, hlater, hshorter, hbracket, hbrace⟩, hkind⟩ := hexpr
  dsimp only at hlater hshorter hbracket hbrace
  refine (scanToken_spec strtod true pp1.scanner).bind fun r _ hscan2 ↦ ?_
  obtain ⟨nl, sp2⟩ := r
  dsimp only at hscan2 ⊢
  refine iteInduction (fun hend ↦ ?_) fun _ ↦ outcome_fail _ _
  obtain ⟨used2, hlen2, -⟩ := hscan2.split
  have hroom2 := hparser.paid.room
  have hb2 : bracketStep nl.toktyp = 0 ∧ braceStep nl.toktyp = 0 := by
    rcases hend with ht | ht <;> rw [ht] <;> decide
  have hcounts : bracketStep tok.toktyp + (if tok.toktyp = .lbrack then -2 else 0) =
      drift tok.toktyp ∧ braceStep tok.toktyp = 0 := by
    rcases hkind with hkind | ⟨hkey, -⟩
    · revert hkind
      generalize tok.toktyp = typ
      revert typ
      decide
    · obtain ⟨hstring, hb, hc⟩ := isKeyToken_types hkey
      have hdrift : ∀ typ ∈ stringTypes, typ ≠ .lbrack ∧ drift typ = 0 := by decide
      obtain ⟨hne, hzero⟩ := hdrift _ hstring
      rw [hb, hc, if_neg hne, hzero]
      exact ⟨rfl, rfl⟩
  refine ⟨⟨hparser.ok, hparser.root, hparser.current, by dsimp only; omega, hparser.paid.max⟩,
    hlater, fun _ ↦ by dsimp only; omega, ?_, ?_, ?_, ?_⟩
  · dsimp only
    rw [hscan2.bracket, hbracket, hscan.bracket, hb2.1, ← hcounts.1]
    omega
  · dsimp only
    rw [hscan2.brace, hbrace, hscan.brace, hb2.2, hcounts.2]
    omega
  · intro hl hll
    rcases hkind with hkind | ⟨-, keys, value, hassigned⟩
    · simp [hl, hll] at hkind
    · exact hassigned.current
  · intro hkv
    rcases hkind with hkind | ⟨-, keys, value, hassigned⟩
    · exact absurd hkv (keyvalue_not_header hkind)
    · exact ⟨tok, sp, keys, value, hread, hassigned.reads, hassigned.nonempty, hassigned.current,
        hassigned.found⟩

/-- Lines that the parser has read, by their first tokens. -/
inductive Run : Parser F → List Toktyp → Parser F → Prop
  | nil (pp : Parser F) : Run pp [] pp
  | cons {pp pp' pp'' : Parser F} {typ : Toktyp} {typs : List Toktyp} :
      parseStep strtod pp = .ok (typ, pp') → Run pp' typs pp'' → Run pp (typ :: typs) pp''

theorem Run.append {pp pp' pp'' : Parser F} {ts ts' : List Toktyp} (h : Run strtod pp ts pp')
    (h' : Run strtod pp' ts' pp'') : Run strtod pp (ts ++ ts') pp'' := by
  induction h with
  | nil pp => exact h'
  | cons hstep _ ih => exact .cons hstep (ih h')

/-- What the lines of a run do together. -/
structure RunOk (n : ℕ) (pp : Parser F) (typs : List Toktyp) (pp' : Parser F) : Prop where
  parser : ParserOk n pp'
  later : Extends pp.toptab pp'.toptab
  bracket : pp'.scanner.bracketLevel = pp.scanner.bracketLevel - typs.count .lbrack
  brace : pp'.scanner.braceLevel = pp.scanner.braceLevel
  current : .lbrack ∉ typs → .llbrack ∉ typs → pp'.curtab = pp.curtab

theorem drift_eq (typ : Toktyp) (typs : List Toktyp) :
    (List.count .lbrack (typ :: typs) : ℤ) = List.count .lbrack typs - drift typ := by
  rw [List.count_cons]
  cases typ <;> simp [drift]

theorem Run.spec {n : ℕ} {pp pp' : Parser F} {typs : List Toktyp} (h : Run strtod pp typs pp')
    (hok : ParserOk n pp) : RunOk n pp typs pp' := by
  induction h with
  | nil pp => exact ⟨hok, Extends.refl _, (Int.sub_zero _).symm, rfl, fun _ _ ↦ rfl⟩
  | @cons pp pp1 pp2 typ typs hstep _ ih =>
    have hs := (parseStep_spec strtod hok).value hstep
    have hr := ih hs.parser
    refine ⟨hr.parser, hs.later.trans hr.later, ?_, hr.brace.trans hs.brace, fun hl hll ↦ ?_⟩
    · have hbracket := hs.bracket
      dsimp only at hbracket
      rw [hr.bracket, hbracket, drift_eq]
      omega
    · rw [List.mem_cons, not_or] at hl hll
      exact (hr.current hl.2 hll.2).trans (hs.current (Ne.symm hl.1) (Ne.symm hll.1))

theorem parserInit_ok (src : Bytes) : ParserOk src.length (parserInit src : Parser F) := by
  have htop : IsTableAt (mktable false : Datum F) [] :=
    isTableAt_of (Rose.at?_nil _) (mktable_isTable false)
  exact ⟨mktable_ok false, htop, htop, Nat.zero_add src.length ▸ Nat.le_refl _, rfl⟩

/-- The loop of `toml_parse` ends behind a run up to the end of the document. -/
theorem parseLoop_spec {n fuel : ℕ} {pp : Parser F} (h : ParserOk n pp)
    (hfuel : left pp.scanner < fuel) :
    Outcome (fun pp' ↦ ∃ typs, .fin ∉ typs ∧ Run strtod pp (typs ++ [.fin]) pp') Reported
      (parseLoop strtod fuel pp) := by
  induction fuel generalizing pp with
  | zero => omega
  | succ fuel ih =>
    rw [parseLoop]
    refine (parseStep_spec strtod h).bind fun r hstep hs ↦ ?_
    obtain ⟨typ, pp1⟩ := r
    dsimp only
    refine iteInduction (fun hfin ↦ ?_) fun hfin ↦ ?_
    · subst hfin
      exact ⟨[], List.not_mem_nil, .cons hstep (.nil pp1)⟩
    · have hshorter := hs.shorter hfin
      dsimp only at hshorter
      refine (ih hs.parser (by dsimp only; omega)).imp fun pp' hr ↦ ?_
      obtain ⟨typs, hnot, hrun⟩ := hr
      refine ⟨typ :: typs, ?_, .cons hstep hrun⟩
      rw [List.mem_cons, not_or]
      exact ⟨Ne.symm hfin, hnot⟩

/-- Every document is read to its end or refused with a message about it. What has been read is
well formed: no assertion of the parser fails, no string is read or written outside of its
memory, and the pool never is too small. -/
theorem tomlParse_wellFormed (src : Bytes) :
    Outcome (fun top ↦ WellFormed top ∧ isTable top ∧ ∃ typs pp, .fin ∉ typs ∧
      Run strtod (parserInit src) (typs ++ [.fin]) pp ∧ pp.toptab = top ∧
      pp.pool.top ≤ src.length) Reported (tomlParse strtod src) := by
  have hok := parserInit_ok (F := F) src
  have hfuel : left (parserInit src : Parser F).scanner < src.length + 2 := by
    show src.length < src.length + 2
    omega
  refine (parseLoop_spec strtod hok hfuel).map fun pp hr ↦ ?_
  obtain ⟨typs, hnot, hrun⟩ := hr
  have hpp := (hrun.spec strtod hok).parser
  obtain ⟨tab, htop, htable⟩ := hpp.root
  rw [Rose.at?_nil, Option.some.injEq] at htop
  have hroom := hpp.paid.room
  exact ⟨hpp.ok, isTable_iff.mpr (htop ▸ htable), typs, pp, hnot, hrun, rfl, by omega⟩

end Xfrpc.Toml.Documents
