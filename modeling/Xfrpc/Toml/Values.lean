import Xfrpc.Toml.Growth

namespace Xfrpc.Toml.Values

open Foundations.Fallible Foundations.RoseTree Scan Toml.Lex Toml.Norm Toml.Tree Parse Pieces
  Strings Tokens Growth

variable {F : Type}

/-- The pool of a document of `n` bytes pays for its strings with the bytes that have been
read, up to a debt. -/
structure Paid (n debt : ℕ) (sp : Scanner) (pool : Pool) : Prop where
  room : pool.top + left sp ≤ n + debt
  max : pool.max = n + 10

theorem parseNorm_spec {tok : Token F} {used : Bytes} (h : TokenOk tok used)
    (ht : tok.toktyp ∈ stringTypes) {pool : Pool}
    (hpool : pool.top + (tok.str.length + 1) ≤ pool.max) :
    Outcome (fun r ↦ r.2 = { pool with top := pool.top + (tok.str.length + 1) }) Reported
      (parseNorm pool tok) := by
  have hplain (htyp : tok.toktyp = .lit ∨ tok.toktyp = .litstring ∨ tok.toktyp = .mllitstring) :
      Outcome (fun r ↦ r.2 = { pool with top := pool.top + (tok.str.length + 1) }) Reported
        (parseNorm pool tok) := by
    rw [parseNorm, poolAlloc_eq hpool]
    rcases htyp with htyp | htyp | htyp
    all_goals
      simp only [htyp]
      exact rfl
  cases h with
  | quoted ps u hq hstr hu hle =>
    obtain ⟨htyp, plain, hlegal⟩ := hq.spells
    obtain ⟨hok, herr⟩ := parseNorm_spells ⟨hlegal, hstr, hu⟩ htyp hpool
    cases hden : denote ps with
    | some v =>
      rw [hok v hden]
      rfl
    | none =>
      obtain ⟨text, htext, hrun⟩ := herr hden
      rw [hrun]
      exact htext
  | literal h hle => exact hplain (.inr h)
  | bare h hle => exact hplain (.inl h)
  | scalar v hv =>
    have hdis : ∀ typ ∈ scalarTypes, typ ∉ stringTypes := by decide
    exact absurd ht (hdis _ hv.typ)
  | fin h => rw [h] at ht; exact absurd ht (by decide)
  | mark h hle =>
    have hdis : ∀ typ ∈ marks, typ ∉ stringTypes := by decide
    exact absurd ht (hdis _ h)

section Keys

variable (strtod : Bytes → Option F)

/-- The state behind a key: the token that comes next has been counted once already. -/
structure AfterKey (n : ℕ) (sp : Scanner) (r : List Bytes × Scanner × Pool) : Prop where
  paid : Paid n 1 r.2.1 r.2.2
  shorter : left r.2.1 ≤ left sp
  counted : ∃ (tok : Token F) (st : ScannerState), Next strtod true r.2.1.state tok st ∧
    r.2.1.bracketLevel = sp.bracketLevel + bracketStep tok.toktyp ∧
    r.2.1.braceLevel = sp.braceLevel + braceStep tok.toktyp

theorem isKeyToken_types {tok : Token F} (h : isKeyToken tok) :
    tok.toktyp ∈ stringTypes ∧ bracketStep tok.toktyp = 0 ∧ braceStep tok.toktyp = 0 := by
  simp only [isKeyToken, Bool.or_eq_true, decide_eq_true_eq] at h
  rcases h with (h | h) | h <;> rw [h] <;> decide

theorem parseKeyLoop_spec {n : ℕ} (room : ℕ) {sp : Scanner} {pool : Pool} (h : Paid n 1 sp pool) :
    Outcome (AfterKey strtod n sp) Reported (parseKeyLoop strtod room sp pool) := by
  induction room using Nat.strong_induction_on generalizing sp pool with
  | _ room ih =>
    rw [parseKeyLoop.eq_def]
    refine (scanToken_spec strtod true sp).bind fun r _ hscan ↦ ?_
    obtain ⟨tok, sp1⟩ := r
    dsimp only at hscan ⊢
    obtain ⟨used, hlen, hok⟩ := hscan.split
    refine iteInduction (fun _ ↦ ?_) fun hdot ↦ ?_
    · exact ⟨⟨h.room, h.max⟩, Nat.le_refl _, tok, sp1.state, hscan.next, hscan.bracket, hscan.brace⟩
    · have hdot : tok.toktyp = .dot := not_not.mp hdot
      have hpos := hok.pos (by rw [hdot]; decide)
      have hb1 : sp1.bracketLevel = sp.bracketLevel := by
        rw [hscan.bracket, hdot]
        exact Int.add_zero _
      have hc1 : sp1.braceLevel = sp.braceLevel := by
        rw [hscan.brace, hdot]
        exact Int.add_zero _
      refine (scanToken_spec strtod true sp1).bind fun r _ hscan2 ↦ ?_
      obtain ⟨tok2, sp2⟩ := r
      dsimp only at hscan2 ⊢
      obtain ⟨used2, hlen2, hok2⟩ := hscan2.split
      refine iteInduction (fun _ ↦ outcome_fail _ _) fun hkey ↦ ?_
      have hkey : isKeyToken tok2 := by simpa using hkey
      obtain ⟨htypes, hb2, hc2⟩ := isKeyToken_types hkey
      have hstr := (hok2.str_le htypes).1
      have hroom := h.room
      cases room with
      | zero => exact outcome_fail _ _
      | succ room =>
        dsimp only
        refine (parseNorm_spec hok2 htypes (by rw [h.max]; omega)).bind fun r _ hpool ↦ ?_
        obtain ⟨part, pool2⟩ := r
        dsimp only at hpool ⊢
        subst hpool
        have hpaid : Paid n 1 sp2 { pool with top := pool.top + (tok2.str.length + 1) } :=
          ⟨by dsimp only; omega, h.max⟩
        refine (ih room (Nat.lt_succ_self _) hpaid).bind fun r _ hafter ↦ ?_
        obtain ⟨parts, sp3, pool3⟩ := r
        obtain ⟨hpaid3, hleft3, tok3, st3, hnext3, hb3, hc3⟩ := hafter
        dsimp only at hleft3 hb3 hc3
        refine ⟨hpaid3, ?_, tok3, st3, hnext3, ?_, ?_⟩
        · show left sp3 ≤ left sp
          omega
        · show sp3.bracketLevel = _
          rw [hb3, hscan2.bracket, hb2, hb1, Int.add_zero]
        · show sp3.braceLevel = _
          rw [hc3, hscan2.brace, hc2, hc1, Int.add_zero]

theorem normError_spec {α : Type} {P : α → Prop} (lineno : ℕ) {x : Except Failure α}
    (h : Outcome P Reported x) : Outcome P Reported (normError lineno x) := by
  cases x with
  | ok a => exact h
  | error e =>
    cases e with
    | error l t => exact outcome_fail _ _
    | assertion => exact h
    | outOfBounds => exact h
    | unfinished => exact h

/-- A key, of which the first token has been read but not paid for. -/
theorem parseKey_spec {n : ℕ} {sp : Scanner} {pool : Pool} {tok : Token F} {used : Bytes}
    (hok : TokenOk tok used) (hroom : pool.top + used.length + left sp ≤ n)
    (hmax : pool.max = n + 10) :
    Outcome (fun r ↦ isKeyToken tok ∧ r.1 ≠ [] ∧ AfterKey strtod n sp r) Reported
      (parseKey strtod sp pool tok) := by
  rw [parseKey]
  refine iteInduction (fun _ ↦ outcome_fail _ _) fun hkey ↦ ?_
  have hkey : isKeyToken tok := by simpa using hkey
  obtain ⟨htypes, -, -⟩ := isKeyToken_types hkey
  have hstr := (hok.str_le htypes).1
  refine (normError_spec tok.lineno (parseNorm_spec hok htypes (by rw [hmax]; omega))).bind
    fun r _ hpool ↦ ?_
  obtain ⟨part, pool1⟩ := r
  dsimp only at hpool ⊢
  subst hpool
  have hpaid : Paid n 1 sp { pool with top := pool.top + (tok.str.length + 1) } :=
    ⟨by dsimp only; omega, hmax⟩
  refine (parseKeyLoop_spec strtod (keypartMax - 1) hpaid).bind fun r _ hafter ↦ ?_
  obtain ⟨parts, sp1, pool1⟩ := r
  exact ⟨hkey, List.cons_ne_nil _ _, hafter.paid, hafter.shorter, hafter.counted⟩

/-- The token behind a key is one that has been peeked at, so it is counted twice. -/
theorem AfterKey.next {n : ℕ} {sp sp' : Scanner} {r : List Bytes × Scanner × Pool} {keymode : Bool}
    {tok : Token F} (h : AfterKey strtod n sp r) (hscan : Scans strtod keymode r.2.1 tok sp')
    (hmode : keymode = true ∨ tok.toktyp = .equal) (hmark : tok.toktyp ∈ marks) :
    Paid n 0 sp' r.2.2 ∧ left sp' < left sp ∧
      sp'.bracketLevel = sp.bracketLevel + 2 * bracketStep tok.toktyp ∧
      sp'.braceLevel = sp.braceLevel + 2 * braceStep tok.toktyp := by
  obtain ⟨peek, st, hpeek, hbracket, hbrace⟩ := h.counted
  obtain rfl : peek = tok := by
    have hnext : Next strtod true r.2.1.state tok sp'.state := by
      cases keymode with
      | true => exact hscan.next
      | false =>
        have heq := hmode.resolve_left Bool.false_ne_true
        exact scanNext_equal strtod hscan.next heq
    have hsame := hpeek.symm.trans hnext
    cases hsame
    rfl
  obtain ⟨used, hlen, hok⟩ := hscan.split
  have hpos := hok.pos hmark
  have hroom := h.paid.room
  have hshorter := h.shorter
  refine ⟨⟨by omega, h.paid.max⟩, by omega, ?_, ?_⟩
  · rw [hscan.bracket, hbracket]
    omega
  · rw [hscan.brace, hbrace]
    omega

/-- What is left behind a value: it has been paid for, and the counts have changed by `b` and
`c`. -/
structure AfterValue (n : ℕ) (b c : ℤ) (sp : Scanner) (r : Datum F × Scanner × Pool) : Prop where
  ok : WellFormed r.1
  paid : Paid n 0 r.2.1 r.2.2
  shorter : left r.2.1 ≤ left sp
  bracket : r.2.1.bracketLevel = sp.bracketLevel + b
  brace : r.2.1.braceLevel = sp.braceLevel + c

/-- The steps that a value may need: the loops of arrays and tables take two for a byte. -/
def Enough (tok : Token F) (sp : Scanner) (fuel : ℕ) : Prop :=
  1 ≤ fuel ∧ (tok.toktyp = .lbrack ∨ tok.toktyp = .lbrace → 2 * left sp + 3 ≤ fuel)

/-- The part of `parse_val` that the loops rest on, with `fuel` steps. -/
def ValueSpec (n fuel : ℕ) : Prop :=
  ∀ (sp : Scanner) (pool : Pool) (tok : Token F) (used : Bytes), TokenOk tok used →
    pool.top + used.length + left sp ≤ n → pool.max = n + 10 → Enough tok sp fuel →
    Outcome (AfterValue n (-bracketStep tok.toktyp) (-braceStep tok.toktyp) sp) Reported
      (parseVal strtod fuel sp pool tok)

def ArraySpec (n fuel : ℕ) : Prop :=
  ∀ (sp : Scanner) (pool : Pool) (elem : List (Datum F)) (needComma : Bool), Paid n 0 sp pool →
    (∀ d ∈ elem, WellFormed d) → elem.length ≤ arrayMax →
    2 * left sp + (if needComma then 1 else 2) ≤ fuel →
    Outcome (AfterValue n (-1) 0 sp) Reported (parseInlineArray strtod fuel sp pool elem needComma)

def TableSpec (n fuel : ℕ) : Prop :=
  ∀ (sp : Scanner) (pool : Pool) (tab : Datum F) (needComma : Bool), Paid n 0 sp pool →
    WellFormed tab → IsTableAt tab [] → 2 * left sp + 2 ≤ fuel →
    Outcome (AfterValue n 0 (-1) sp) Reported (parseInlineTable strtod fuel sp pool tab needComma)

theorem setInlined_ok {d : Datum F} (h : WellFormed d) : WellFormed (setInlined d) :=
  h.map fun _ _ hn ↦ hn

theorem mkscalar_ok {v : Scalar F} (h : ScalarOk v) : WellFormed (mkscalar v) :=
  Rose.each_node.mpr ⟨⟨h, rfl, rfl⟩, fun _ hs ↦ by cases hs⟩

/-- The tokens that are a value of their own. -/
def singleTypes : List Toktyp := [.string, .mlstring, .litstring, .mllitstring] ++ scalarTypes

theorem single_spec {typ : Toktyp} (h : typ ∈ singleTypes) :
    ¬ (typ = .lbrack ∨ typ = .lbrace) ∧ bracketStep typ = 0 ∧ braceStep typ = 0 := by
  revert typ
  decide

/-- A value of one token. -/
theorem tokenToScalar_spec {n : ℕ} {sp : Scanner} {pool : Pool} {tok : Token F} {used : Bytes}
    (hok : TokenOk tok used) (hroom : pool.top + used.length + left sp ≤ n)
    (hmax : pool.max = n + 10) {r : Except Failure (Scalar F × Pool)}
    (h : tokenToScalar pool tok = some r) :
    tok.toktyp ∈ singleTypes ∧ Outcome (fun v ↦ ScalarOk v.1 ∧ Paid n 0 sp v.2) Reported r := by
  have hstring (ht : tok.toktyp ∈ [.string, .mlstring, .litstring, .mllitstring]) :
      tok.toktyp ∈ singleTypes ∧
        Outcome (fun v ↦ ScalarOk v.1 ∧ Paid n 0 sp v.2) Reported r := by
    have hr : r = (parseNorm pool tok).map fun r ↦ (.string r.1, r.2) := by
      simp only [List.mem_cons, List.not_mem_nil, or_false] at ht
      rcases ht with ht | ht | ht | ht
      all_goals
        simp only [tokenToScalar, ht, Option.some.injEq] at h
        exact h.symm
    have hsub : ∀ typ ∈ [.string, .mlstring, .litstring, .mllitstring],
        typ ∈ singleTypes ∧ typ ∈ stringTypes ∧ typ ≠ .lit := by decide
    obtain ⟨hsingle, htyp, hne⟩ := hsub _ ht
    have hstr := (hok.str_le htyp).2 hne
    refine ⟨hsingle, hr ▸ ?_⟩
    refine (parseNorm_spec hok htyp (by rw [hmax]; omega)).map fun r hpool ↦ ⟨trivial, ?_⟩
    rw [hpool]
    exact ⟨by dsimp only; omega, hmax⟩
  cases hok with
  | quoted ps u hq hstr hu hle =>
    rcases hq.spells.1 with ht | ht <;> exact hstring (by rw [ht]; decide)
  | literal ht hle => rcases ht with ht | ht <;> exact hstring (by rw [ht]; decide)
  | bare ht hle =>
    simp only [tokenToScalar, ht] at h
    cases h
  | scalar v hv =>
    rw [hv.value pool, Option.some.injEq] at h
    subst h
    exact ⟨List.mem_append_right _ hv.typ, hv.ok, by dsimp only; omega, hmax⟩
  | fin ht =>
    simp only [tokenToScalar, ht] at h
    cases h
  | mark ht hle =>
    simp only [marks, List.mem_cons, List.not_mem_nil, or_false] at ht
    rcases ht with ht | ht | ht | ht | ht | ht | ht | ht | ht | ht
    all_goals
      simp only [tokenToScalar, ht] at h
      cases h

theorem parseVal_spec {n fuel : ℕ} (ha : ArraySpec strtod n fuel) (ht : TableSpec strtod n fuel) :
    ValueSpec strtod n (fuel + 1) := by
  intro sp pool tok used hok hroom hmax hfuel
  have hpaid : Paid n 0 sp pool := ⟨by omega, hmax⟩
  rw [parseVal]
  cases hscalar : tokenToScalar pool tok with
  | some r =>
    obtain ⟨hsingle, hr⟩ := tokenToScalar_spec hok hroom hmax hscalar
    obtain ⟨-, hb, hc⟩ := single_spec hsingle
    refine hr.bind fun v _ hv ↦ ?_
    rw [hb, hc]
    exact ⟨mkscalar_ok hv.1, hv.2, Nat.le_refl _, (Int.add_zero _).symm, (Int.add_zero _).symm⟩
  | none =>
    refine iteInduction (fun hl ↦ ?_) fun _ ↦ iteInduction (fun hl ↦ ?_) fun _ ↦ outcome_fail _ _
    · have hf := hfuel.2 (.inl hl)
      rw [hl]
      exact ha sp pool [] false hpaid (fun _ hd ↦ by cases hd) (Nat.zero_le _)
        (by rw [if_neg Bool.false_ne_true]; omega)
    · have hf := hfuel.2 (.inr hl)
      rw [hl]
      exact ht sp pool (mktable false) false hpaid (mktable_ok false)
        (isTableAt_of (Rose.at?_nil _) (mktable_isTable false)) (by omega)

/-- Behind a token that has no bracket and no brace. -/
theorem AfterValue.behind {n : ℕ} {b c : ℤ} {sp sp1 : Scanner} {r : Datum F × Scanner × Pool}
    (h : AfterValue n b c sp1 r) (hleft : left sp1 ≤ left sp)
    (hbracket : sp1.bracketLevel = sp.bracketLevel) (hbrace : sp1.braceLevel = sp.braceLevel) :
    AfterValue n b c sp r :=
  ⟨h.ok, h.paid, h.shorter.trans hleft, hbracket ▸ h.bracket, hbrace ▸ h.brace⟩

theorem parseInlineArray_spec {n fuel : ℕ} (hv : ValueSpec strtod n fuel)
    (ha : ArraySpec strtod n fuel) : ArraySpec strtod n (fuel + 1) := by
  intro sp pool elem needComma hpaid helem hmax hfuel
  rw [parseInlineArray]
  refine (scanToken_spec strtod false sp).bind fun r _ hscan ↦ ?_
  obtain ⟨tok, sp1⟩ := r
  dsimp only at hscan ⊢
  obtain ⟨used, hlen, hok⟩ := hscan.split
  have hroom := hpaid.room
  have hpaid1 : Paid n 0 sp1 pool := ⟨by omega, hpaid.max⟩
  have hpass (ht : tok.toktyp = .endl ∨ tok.toktyp = .comma) (next : Bool) :
      Outcome (AfterValue n (-1) 0 sp) Reported
        (parseInlineArray strtod fuel sp1 pool elem next) := by
    have hpos := hok.pos (by rcases ht with ht | ht <;> rw [ht] <;> decide)
    have hfuel1 : 2 * left sp1 + (if next then 1 else 2) ≤ fuel := by
      split_ifs at hfuel ⊢ <;> omega
    refine (ha sp1 pool elem next hpaid1 helem hmax hfuel1).imp fun r hr ↦ ?_
    obtain ⟨hb, hc⟩ : bracketStep tok.toktyp = 0 ∧ braceStep tok.toktyp = 0 := by
      rcases ht with ht | ht <;> rw [ht] <;> decide
    exact hr.behind (by omega) (by rw [hscan.bracket, hb, Int.add_zero])
      (by rw [hscan.brace, hc, Int.add_zero])
  refine iteInduction (fun ht ↦ hpass (.inl ht) needComma) fun _ ↦ ?_
  refine iteInduction (fun ht ↦ ?_) fun _ ↦ ?_
  · refine ⟨setInlined_ok (mkarray_ok helem hmax), hpaid1, by dsimp only; omega, ?_, ?_⟩
    · dsimp only
      rw [hscan.bracket, ht]
      rfl
    · dsimp only
      rw [hscan.brace, ht]
      rfl
  refine iteInduction (fun ht ↦ ?_) fun _ ↦ ?_
  · refine iteInduction (fun _ ↦ ?_) fun _ ↦ outcome_fail _ _
    exact hpass (.inr ht) false
  refine iteInduction (fun _ ↦ outcome_fail _ _) fun hcomma ↦ ?_
  rw [if_neg hcomma] at hfuel
  have henough : Enough tok sp1 fuel := by
    refine ⟨by omega, fun hl ↦ ?_⟩
    have hpos := hok.pos (by rcases hl with hl | hl <;> rw [hl] <;> decide)
    omega
  refine (hv sp1 pool tok used hok (by omega) hpaid.max henough).bind fun r _ hafter ↦ ?_
  obtain ⟨value, sp2, pool2⟩ := r
  have hleft2 : left sp2 ≤ left sp1 := hafter.shorter
  dsimp only
  refine iteInduction (fun _ ↦ outcome_fail _ _) fun hfull ↦ ?_
  refine (ha sp2 pool2 (elem ++ [value]) true hafter.paid ?_ ?_ ?_).imp fun r hr ↦ ?_
  · intro d hd
    rcases List.mem_append.mp hd with hd | hd
    · exact helem d hd
    · exact List.mem_singleton.mp hd ▸ hafter.ok
  · rw [List.length_append]
    exact Nat.lt_of_not_le hfull
  · rw [if_pos rfl]
    omega
  · have hb2 : sp2.bracketLevel = sp.bracketLevel := by
      rw [hafter.bracket, hscan.bracket]
      omega
    have hc2 : sp2.braceLevel = sp.braceLevel := by
      rw [hafter.brace, hscan.brace]
      omega
    exact hr.behind (by omega) hb2 hc2

theorem parseInlineTable_spec {n fuel : ℕ} (hv : ValueSpec strtod n fuel)
    (ht : TableSpec strtod n fuel) : TableSpec strtod n (fuel + 1) := by
  intro sp pool tab needComma hpaid hwf htab hfuel
  rw [parseInlineTable]
  refine (scanToken_spec strtod true sp).bind fun r _ hscan ↦ ?_
  obtain ⟨tok, sp1⟩ := r
  dsimp only at hscan ⊢
  obtain ⟨used, hlen, hok⟩ := hscan.split
  have hroom := hpaid.room
  have hpaid1 : Paid n 0 sp1 pool := ⟨by omega, hpaid.max⟩
  have hpass (hty : tok.toktyp = .endl ∨ tok.toktyp = .comma) (next : Bool) :
      Outcome (AfterValue n 0 (-1) sp) Reported (parseInlineTable strtod fuel sp1 pool tab next) := by
    have hpos := hok.pos (by rcases hty with hty | hty <;> rw [hty] <;> decide)
    refine (ht sp1 pool tab next hpaid1 hwf htab (by omega)).imp fun r hr ↦ ?_
    obtain ⟨hb, hc⟩ : bracketStep tok.toktyp = 0 ∧ braceStep tok.toktyp = 0 := by
      rcases hty with hty | hty <;> rw [hty] <;> decide
    exact hr.behind (by omega) (by rw [hscan.bracket, hb, Int.add_zero])
      (by rw [hscan.brace, hc, Int.add_zero])
  refine iteInduction (fun hty ↦ ?_) fun _ ↦ ?_
  · refine ⟨setInlined_ok hwf, hpaid1, by dsimp only; omega, ?_, ?_⟩
    · dsimp only
      rw [hscan.bracket, hty]
      rfl
    · dsimp only
      rw [hscan.brace, hty]
      rfl
  refine iteInduction (fun hty ↦ ?_) fun _ ↦ ?_
  · refine iteInduction (fun _ ↦ ?_) fun _ ↦ outcome_fail _ _
    exact hpass (.inr hty) false
  refine iteInduction (fun hty ↦ hpass (.inl hty) needComma) fun _ ↦ ?_
  refine iteInduction (fun _ ↦ outcome_fail _ _) fun _ ↦ ?_
  refine (parseKey_spec strtod hok (by omega) hpaid.max).bind fun r _ h ↦ ?_
  obtain ⟨keys, sp2, pool2⟩ := r
  obtain ⟨hkey, -, hafter⟩ := h
  dsimp only
  refine (locateInline_spec tok.lineno keys.dropLast hwf htab).bind fun r _ hgrown ↦ ?_
  obtain ⟨tab1, p⟩ := r
  obtain ⟨hwf1, hext1, hp⟩ := hgrown
  dsimp only at hwf1 hext1 hp ⊢
  refine (scanToken_spec strtod false sp2).bind fun r _ hscan3 ↦ ?_
  obtain ⟨eq, sp3⟩ := r
  dsimp only at hscan3 ⊢
  refine iteInduction (fun _ ↦ ?_) fun heq ↦ ?_
  · exact iteInduction (fun _ ↦ outcome_fail _ _) fun _ ↦ outcome_fail _ _
  have heq : eq.toktyp = .equal := not_not.mp heq
  obtain ⟨hpaid3, hleft3, hb3, hc3⟩ := hafter.next strtod hscan3 (.inr heq) (by rw [heq]; decide)
  obtain ⟨-, hbkey, hckey⟩ := isKeyToken_types hkey
  dsimp only at hpaid3
  refine (scanToken_spec strtod false sp3).bind fun r _ hscan4 ↦ ?_
  obtain ⟨val, sp4⟩ := r
  dsimp only at hscan4 ⊢
  obtain ⟨used4, hlen4, hok4⟩ := hscan4.split
  have hroom3 := hpaid3.room
  have henough : Enough val sp4 fuel := ⟨by omega, fun _ ↦ by omega⟩
  refine (hv sp4 pool2 val used4 hok4 (by omega) hpaid3.max henough).bind fun r _ hvalue ↦ ?_
  obtain ⟨value, sp5, pool5⟩ := r
  have hleft5 : left sp5 ≤ left sp4 := hvalue.shorter
  obtain ⟨tab', htab', ks, values, htable⟩ := hp
  dsimp only
  refine (tabAddAt_spec val.lineno hwf1 htab' htable hvalue.ok (keys.getLastD [])).bind
    fun tab2 _ h ↦ ?_
  obtain ⟨hwf2, hext2, -⟩ := h
  refine (ht sp5 pool5 tab2 true hvalue.paid hwf2 (htab.mono (hext1.trans hext2))
    (by omega)).imp fun r hr ↦ ?_
  have hb5 : sp5.bracketLevel = sp.bracketLevel := by
    rw [hvalue.bracket, hscan4.bracket, hb3, heq, hscan.bracket, hbkey,
      show bracketStep .equal = 0 from rfl]
    omega
  have hc5 : sp5.braceLevel = sp.braceLevel := by
    rw [hvalue.brace, hscan4.brace, hc3, heq, hscan.brace, hckey,
      show braceStep .equal = 0 from rfl]
    omega
  exact hr.behind (by omega) hb5 hc5

/-- The three together, by induction on the steps. -/
theorem values_spec (n fuel : ℕ) :
    ValueSpec strtod n fuel ∧ ArraySpec strtod n fuel ∧ TableSpec strtod n fuel := by
  induction fuel with
  | zero =>
    refine ⟨fun sp pool tok used _ _ _ h ↦ absurd h.1 (by omega),
      fun sp pool elem needComma _ _ _ h ↦ ?_, fun sp pool tab needComma _ _ _ h ↦ by omega⟩
    split_ifs at h <;> omega
  | succ fuel ih =>
    obtain ⟨hv, ha, ht⟩ := ih
    exact ⟨parseVal_spec strtod ha ht, parseInlineArray_spec strtod hv ha,
      parseInlineTable_spec strtod hv ht⟩

end Keys

end Xfrpc.Toml.Values
