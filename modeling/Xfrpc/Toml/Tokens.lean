import Xfrpc.Toml.Parse
import Xfrpc.Toml.Strings

namespace Xfrpc.Toml.Tokens

open Foundations.Fallible Scan Number Toml.Lex Toml.Norm Toml.Tree Parse Pieces Strings

variable {F : Type}

/-- The values that a scalar may have: numbers in the range of `int64_t`, and dates and times
that there are. -/
def ScalarOk : Scalar F → Prop
  | .int64 n => -9223372036854775808 ≤ n ∧ n ≤ 9223372036854775807
  | .timestamp typ t => checkTimestamp 0 typ t = .ok ()
  | _ => True

def scalarTypes : List Toktyp := [.time, .date, .datetime, .datetimetz, .integer, .float, .bool]

/-- A token that is a value of its own. -/
structure IsScalar (tok : Token F) (v : Scalar F) : Prop where
  ok : ScalarOk v
  typ : tok.toktyp ∈ scalarTypes
  value : ∀ pool, tokenToScalar pool tok = some (.ok (v, pool))

/-- A scalar of some bytes from the place of the scanner. -/
def ScalarAt (sp : ScannerState) (r : Token F × ScannerState) : Prop :=
  ∃ v n, IsScalar r.1 v ∧ r.2 = sp.skip n

theorem checkTimestamp_spec (lineno : ℕ) {typ : Toktyp}
    (htyp : typ = .time ∨ typ = .date ∨ typ = .datetime ∨ typ = .datetimetz) (t : Timestamp) :
    Outcome (fun _ ↦ checkTimestamp 0 typ t = .ok ()) Reported (checkTimestamp lineno typ t) := by
  unfold checkTimestamp
  rcases htyp with rfl | rfl | rfl | rfl
  · dsimp only
    by_cases h : isValidTime t.hour t.minute t.sec t.usec
    · rw [if_pos h, if_pos h]
      rfl
    · rw [if_neg h, if_neg h]
      exact outcome_fail _ _
  · dsimp only
    by_cases h : isValidDate t.year t.month t.day
    · rw [if_pos h, if_pos h]
      rfl
    · rw [if_neg h, if_neg h]
      exact outcome_fail _ _
  all_goals
    dsimp only
    split_ifs
    · exact outcome_fail _ _
    · trivial
    · exact outcome_fail _ _
    · exact outcome_fail _ _

theorem finishTimestamp_spec (sp : ScannerState) {typ : Toktyp}
    (htyp : typ = .time ∨ typ = .date ∨ typ = .datetime ∨ typ = .datetimetz) (len : ℕ)
    (t : Timestamp) :
    Outcome (ScalarAt (F := F) sp) Reported (finishTimestamp sp typ len t) := by
  rw [finishTimestamp]
  refine (checkTimestamp_spec sp.lineno htyp t).bind fun _ _ h ↦ ?_
  refine ⟨.timestamp typ t, len, ⟨h, ?_, fun pool ↦ ?_⟩, rfl⟩
  · show typ ∈ scalarTypes
    rcases htyp with rfl | rfl | rfl | rfl <;> decide
  · rcases htyp with rfl | rfl | rfl | rfl <;> rfl

theorem scanTime_spec (sp : ScannerState) :
    Outcome (ScalarAt (F := F) sp) Reported (scanTime sp) := by
  unfold scanTime
  cases readTime (scanCopystr sp 20) with
  | none => exact outcome_fail _ _
  | some r =>
    obtain ⟨len, t⟩ := r
    dsimp only
    by_cases h : isValidTime t.hour t.minute t.sec t.usec
    · rw [if_pos h]
      refine ⟨_, len, ⟨?_, (by decide : Toktyp.time ∈ scalarTypes), fun pool ↦ rfl⟩, rfl⟩
      exact if_pos h
    · rw [if_neg h]
      exact outcome_fail _ _

theorem scanTimestamp_spec (sp : ScannerState) :
    Outcome (ScalarAt (F := F) sp) Reported (scanTimestamp sp) := by
  unfold scanTimestamp
  generalize scanCopystr sp 80 = p
  dsimp only
  refine iteInduction (fun _ ↦ ?_) fun _ ↦ ?_
  · cases readTime p with
    | none => exact outcome_fail _ _
    | some r => exact finishTimestamp_spec sp (.inl rfl) _ _
  · cases readDate p with
    | none => exact outcome_fail _ _
    | some d =>
      refine iteInduction (fun _ ↦ ?_) fun _ ↦ ?_
      · exact finishTimestamp_spec sp (.inr (.inl rfl)) _ _
      · cases readTime (p.drop 11) with
        | none => exact outcome_fail _ _
        | some r =>
          obtain ⟨n, c⟩ := r
          dsimp only
          cases readTzone (p.drop (11 + n)) with
          | none => exact finishTimestamp_spec sp (.inr (.inr (.inl rfl))) _ _
          | some z =>
            refine iteInduction (fun _ ↦ outcome_fail _ _) fun _ ↦ ?_
            exact finishTimestamp_spec sp (.inr (.inr (.inr rfl))) _ _

theorem strtoll_range {s : Bytes} {base : ℕ} {n : ℤ} {q : Bytes}
    (h : strtoll s base = (n, true, q)) :
    -9223372036854775808 ≤ n ∧ n ≤ 9223372036854775807 := by
  unfold strtoll at h
  dsimp only at h
  split_ifs at h
  all_goals
    simp only [Prod.mk.injEq, decide_eq_true_eq] at h
    omega

theorem processNumstr_error {buffer : Bytes} {base : ℕ} {reason : String}
    (h : processNumstr buffer base = .error reason) : ascii reason ≠ ascii "out of memory" := by
  unfold processNumstr at h
  dsimp only at h
  split_ifs at h
  all_goals
    cases h
    decide

section Floats

variable (strtod : Bytes → Option F)

theorem scanFloat_spec (sp : ScannerState) :
    Outcome (ScalarAt sp) Reported (scanFloat strtod sp) := by
  unfold scanFloat
  dsimp only
  split
  · exact outcome_fail _ _ (processNumstr_error ‹_›)
  · split
    · exact outcome_fail _ _
    · exact ⟨.fp64 _, _, ⟨trivial, (by decide : Toktyp.float ∈ scalarTypes), fun pool ↦ rfl⟩, rfl⟩

theorem scanBased_spec (sp : ScannerState) (buffer : Bytes) (base : ℕ) (span : Bytes) :
    Outcome (ScalarAt (F := F) sp) Reported (scanBased sp buffer base span) := by
  unfold scanBased
  dsimp only
  split
  · exact outcome_fail _ _ (processNumstr_error ‹_›)
  · rename_i text _
    rcases hn : strtoll text base with ⟨n, inRange, q⟩
    dsimp only
    split_ifs with h
    · exact outcome_fail _ _
    · have hin : inRange = true := by
        cases inRange with
        | true => rfl
        | false => exact absurd (.inl rfl) h
      subst hin
      exact ⟨.int64 n, _, ⟨strtoll_range hn, (by decide : Toktyp.integer ∈ scalarTypes),
        fun pool ↦ rfl⟩, rfl⟩

theorem scanDecimal_spec (sp : ScannerState) (buffer : Bytes) :
    Outcome (ScalarAt sp) Reported (scanDecimal strtod sp buffer) := by
  unfold scanDecimal
  dsimp only
  split
  · exact outcome_fail _ _ (processNumstr_error ‹_›)
  · rename_i text _
    rcases hn : strtoll text 10 with ⟨n, inRange, q⟩
    dsimp only
    split_ifs with h
    · exact scanFloat_spec strtod sp
    · exact outcome_fail _ _
    · have hin : inRange = true := by
        cases inRange with
        | true => rfl
        | false => exact absurd (.inl rfl) h
      subst hin
      exact ⟨.int64 n, _, ⟨strtoll_range hn, (by decide : Toktyp.integer ∈ scalarTypes),
        fun pool ↦ rfl⟩, rfl⟩

theorem scanNumber_spec (sp : ScannerState) :
    Outcome (ScalarAt sp) Reported (scanNumber strtod sp) := by
  unfold scanNumber
  generalize scanCopystr sp 50 = buffer
  dsimp only
  cases (if charAt buffer 0 = zero then basePrefix (charAt buffer 1) else none) with
  | some b => exact scanBased_spec sp _ _ _
  | none =>
    dsimp only
    refine iteInduction (fun _ ↦ scanFloat_spec strtod sp) fun _ ↦ ?_
    exact scanDecimal_spec strtod sp buffer

theorem scanBool_spec (sp : ScannerState) :
    Outcome (ScalarAt (F := F) sp) Reported (scanBool sp) := by
  unfold scanBool
  dsimp only
  split
  · exact outcome_fail _ _
  · split_ifs
    · exact outcome_fail _ _
    · exact ⟨.boolean _, _, ⟨trivial, (by decide : Toktyp.bool ∈ scalarTypes), fun pool ↦ rfl⟩, rfl⟩

theorem scanNonstringLiteral_spec (sp : ScannerState) :
    Outcome (ScalarAt sp) Reported (scanNonstringLiteral strtod sp) := by
  unfold scanNonstringLiteral
  split_ifs
  · exact scanTime_spec sp
  · exact scanTimestamp_spec sp
  · exact scanBool_spec sp
  · exact scanNumber_spec strtod sp
  · exact outcome_fail _ _

/-- The tokens of one or two characters. -/
def marks : List Toktyp :=
  [.dot, .equal, .comma, .lbrack, .llbrack, .rbrack, .rrbrack, .lbrace, .rbrace, .endl]

/-- What a token is, over the bytes that have been read for it and before it. -/
inductive TokenOk (tok : Token F) (used : Bytes) : Prop
  | quoted (ps : List Piece) (u : Bytes) : Quoted tok ps u → tok.str = render ps →
      tok.u = escape (firstEscape ps) → u.length ≤ used.length → TokenOk tok used
  | literal : tok.toktyp = .litstring ∨ tok.toktyp = .mllitstring →
      tok.str.length + 2 ≤ used.length → TokenOk tok used
  | bare : tok.toktyp = .lit → tok.str.length ≤ used.length → TokenOk tok used
  | scalar (v : Scalar F) : IsScalar tok v → TokenOk tok used
  | fin : tok.toktyp = .fin → TokenOk tok used
  | mark : tok.toktyp ∈ marks → 1 ≤ used.length → TokenOk tok used

theorem TokenOk.append {tok : Token F} {a b : Bytes} (h : TokenOk tok b) : TokenOk tok (a ++ b) := by
  have hlen : b.length ≤ (a ++ b).length := by
    rw [List.length_append]
    exact Nat.le_add_left _ _
  cases h with
  | quoted ps u hq hstr hu hle => exact .quoted ps u hq hstr hu (hle.trans hlen)
  | literal ht hle => exact .literal ht (hle.trans hlen)
  | bare ht hle => exact .bare ht (hle.trans hlen)
  | scalar v hv => exact .scalar v hv
  | fin ht => exact .fin ht
  | mark ht hle => exact .mark ht (hle.trans hlen)

def stringTypes : List Toktyp := [.lit, .string, .mlstring, .litstring, .mllitstring]

theorem TokenOk.pos {tok : Token F} {used : Bytes} (h : TokenOk tok used)
    (ht : tok.toktyp ∈ marks) : 1 ≤ used.length := by
  cases h with
  | quoted ps u hq hstr hu hle =>
    rcases hq.spells.1 with h | h <;> rw [h] at ht <;> exact absurd ht (by decide)
  | literal h hle => rcases h with h | h <;> rw [h] at ht <;> exact absurd ht (by decide)
  | bare h hle => rw [h] at ht; exact absurd ht (by decide)
  | scalar v hv =>
    have hdis : ∀ typ ∈ scalarTypes, typ ∉ marks := by decide
    exact absurd ht (hdis _ hv.typ)
  | fin h => rw [h] at ht; exact absurd ht (by decide)
  | mark h hle => exact hle

/-- The text of a string token is in the bytes read for it; quotes are two bytes more. -/
theorem TokenOk.str_le {tok : Token F} {used : Bytes} (h : TokenOk tok used)
    (ht : tok.toktyp ∈ stringTypes) :
    tok.str.length ≤ used.length ∧ (tok.toktyp ≠ .lit → tok.str.length + 2 ≤ used.length) := by
  cases h with
  | quoted ps u hq hstr hu hle =>
    have hlen := hq.length
    rw [hstr]
    exact ⟨by omega, fun _ ↦ by omega⟩
  | literal h hle => exact ⟨by omega, fun _ ↦ hle⟩
  | bare h hle => exact ⟨hle, fun hne ↦ absurd h hne⟩
  | scalar v hv =>
    have hdis : ∀ typ ∈ scalarTypes, typ ∉ stringTypes := by decide
    exact absurd ht (hdis _ hv.typ)
  | fin h => rw [h] at ht; exact absurd ht (by decide)
  | mark h hle =>
    have hdis : ∀ typ ∈ marks, typ ∉ stringTypes := by decide
    exact absurd ht (hdis _ h)

theorem skipComment_spec {sp : ScannerState} {fuel : ℕ} (hfuel : sp.rest.length < fuel) :
    Outcome (fun sp' ↦ ∃ used, Reads sp used sp') Reported (skipComment fuel sp) := by
  induction fuel generalizing sp with
  | zero => omega
  | succ fuel ih =>
    rw [skipComment]
    by_cases hmatch : scanMatch sp lf
    · rw [if_pos hmatch]
      exact ⟨[], Reads.refl sp⟩
    · rw [if_neg hmatch]
      rcases hget : scanGet sp with ⟨ch, sp'⟩
      cases ch with
      | none =>
        obtain ⟨-, rfl⟩ := scanGet_none hget
        exact ⟨[], Reads.refl _⟩
      | some ch =>
        dsimp only
        by_cases hbad : isBadControl ch
        · rw [if_pos hbad]
          exact outcome_fail _ _
        · rw [if_neg hbad]
          obtain ⟨used, hused, hcases⟩ := scanGet_some hget
          have hpos := used_pos hcases
          have hlen := hused.length
          refine (ih (by omega : sp'.rest.length < fuel)).imp fun sp'' h ↦ ?_
          obtain ⟨used', hread⟩ := h
          exact ⟨used ++ used', hused.trans hread⟩

theorem scanLitstring_spec {sp : ScannerState} (hquote : sp.rest.head? = some squote) :
    Outcome (fun r : Token F × ScannerState ↦ ∃ used, Reads sp used r.2 ∧
      (r.1.toktyp = .litstring ∨ r.1.toktyp = .mllitstring) ∧ r.1.str.length + 2 ≤ used.length)
      Reported (scanLitstring sp) := by
  rw [scanLitstring]
  by_cases h3 : scanNmatch sp squote 3
  · obtain ⟨n, -, hnl⟩ := trimNewline_reads (sp.skip 3)
    have hopen := reads_skip sp (n := 3)
    rw [take_of_nmatch h3] at hopen
    rw [if_pos h3, scanMultilineLitstring]
    refine (multilineLitLoop_spec (Nat.lt_succ_self _)).bind fun sp' _ h ↦ ?_
    obtain ⟨used, hread, hclose⟩ := h
    have hend := reads_skip sp' (n := 3)
    rw [take_of_nmatch (closing_closed hclose)] at hend
    refine ⟨_, ((hopen.trans hnl).trans hread).trans hend, .inr rfl, ?_⟩
    rw [mktoken_str hread]
    simp only [List.length_append, List.length_replicate]
    omega
  · rw [if_neg h3]
    refine (litLoop_spec (Nat.lt_succ_self _)).bind fun sp' _ h ↦ ?_
    obtain ⟨used, hread, hend⟩ := h
    refine ⟨_, ((reads_one hquote).trans hread).trans (reads_one hend), .inl rfl, ?_⟩
    rw [mktoken_str hread]
    simp

theorem scanLiteral_spec (sp : ScannerState) :
    ∃ used, Reads sp used (scanLiteral (F := F) sp).2 ∧ TokenOk (scanLiteral (F := F) sp).1 used := by
  refine ⟨_, reads_skip sp, .bare rfl ?_⟩
  exact Nat.le_refl _

theorem simpleToken_mem {ch : UInt8} {typ : Toktyp} (h : simpleToken ch = some typ) :
    typ ∈ marks := by
  unfold simpleToken at h
  split_ifs at h <;> cases h <;> decide

theorem bracket_spec {start sp : ScannerState} {ch : UInt8} (hread : Reads start [ch] sp)
    (hch : ch ≠ lf) (keymode : Bool) {single double : Toktyp} (hs : single ∈ marks)
    (hd : double ∈ marks) :
    ∃ used, Reads start used (bracket (F := F) start sp keymode ch single double).2 ∧
      TokenOk (bracket (F := F) start sp keymode ch single double).1 used := by
  unfold bracket
  split_ifs with h
  · rw [Bool.and_eq_true, scanMatch_iff hch] at h
    obtain ⟨r, hr⟩ : ∃ r, sp.rest = ch :: r := ⟨_, (List.cons_head?_tail h.2).symm⟩
    rcases hget : scanGet sp with ⟨c, sp'⟩
    cases c with
    | none =>
      obtain ⟨hnil, -⟩ := scanGet_none hget
      rw [hr] at hnil
      cases hnil
    | some c =>
      obtain ⟨used, hused, -⟩ := scanGet_some hget
      exact ⟨_, hread.trans hused, .mark hd (by simp)⟩
  · exact ⟨_, hread, .mark hs (Nat.le_refl 1)⟩

/-- What `scan_next` reads, in each of its modes. -/
theorem scanNext_spec (strtod : Bytes → Option F) (keymode : Bool) {sp : ScannerState} {fuel : ℕ}
    (hfuel : sp.rest.length < fuel) :
    Outcome (fun r ↦ ∃ used, Reads sp used r.2 ∧ TokenOk r.1 used) Reported
      (scanNext strtod keymode fuel sp) := by
  induction fuel generalizing sp with
  | zero => omega
  | succ fuel ih =>
    rw [scanNext]
    rcases hget : scanGet sp with ⟨ch, sp'⟩
    cases ch with
    | none =>
      obtain ⟨-, rfl⟩ := scanGet_none hget
      exact ⟨[], Reads.refl _, .fin rfl⟩
    | some ch =>
      obtain ⟨used, hused, hcases⟩ := scanGet_some hget
      have hpos := used_pos hcases
      have hlen := hused.length
      have hnext (sp1 : ScannerState) (a : Bytes) (h : Reads sp' a sp1) :
          Outcome (fun r ↦ ∃ used, Reads sp used r.2 ∧ TokenOk r.1 used) Reported
            (scanNext strtod keymode fuel sp1) := by
        have hlen1 := h.length
        refine (ih (by omega : sp1.rest.length < fuel)).imp fun r hr ↦ ?_
        obtain ⟨b, hread, hok⟩ := hr
        exact ⟨_, (hused.trans h).trans hread, hok.append⟩
      dsimp only
      cases htyp : simpleToken ch with
      | some typ => exact ⟨used, hused, .mark (simpleToken_mem htyp) hpos⟩
      | none =>
        have hnlf : ch ≠ lf := by
          rintro rfl
          cases htyp
        obtain rfl : used = [ch] := by
          rcases hcases with h | h
          · exact h.1
          · exact absurd h.2 hnlf
        have hhead : sp.rest.head? = some ch := by rw [hused.rest]; rfl
        refine iteInduction (fun _ ↦ hnext sp' [] (Reads.refl sp')) fun _ ↦ ?_
        refine iteInduction (fun _ ↦ ?_) fun _ ↦ ?_
        · refine (skipComment_spec (Nat.lt_succ_self _)).bind fun sp1 _ h ↦ ?_
          obtain ⟨a, ha⟩ := h
          exact hnext sp1 a ha
        refine iteInduction (fun _ ↦ ?_) fun _ ↦ ?_
        · exact bracket_spec hused hnlf keymode (by decide) (by decide)
        refine iteInduction (fun _ ↦ ?_) fun _ ↦ ?_
        · exact bracket_spec hused hnlf keymode (by decide) (by decide)
        refine iteInduction (fun hq ↦ ?_) fun _ ↦ ?_
        · refine (scanString_spec (hq ▸ hhead)).imp fun r hr ↦ ?_
          obtain ⟨ps, u, hquoted, hstr, hu, hread⟩ := hr
          exact ⟨u, hread, .quoted ps u hquoted hstr hu (Nat.le_refl _)⟩
        refine iteInduction (fun hq ↦ ?_) fun _ ↦ ?_
        · refine (scanLitstring_spec (hq ▸ hhead)).imp fun r hr ↦ ?_
          obtain ⟨u, hread, htyp, hle⟩ := hr
          exact ⟨u, hread, .literal htyp hle⟩
        refine iteInduction (fun _ ↦ scanLiteral_spec sp) fun _ ↦ ?_
        refine (scanNonstringLiteral_spec strtod sp).imp fun r hr ↦ ?_
        obtain ⟨v, n, hv, hskip⟩ := hr
        exact ⟨_, hskip ▸ reads_skip sp, .scalar v hv⟩

/-- A token `=` is the same in both modes. -/
theorem scanNext_equal (strtod : Bytes → Option F) {sp sp' : ScannerState} {fuel : ℕ}
    {tok : Token F} (h : scanNext strtod false fuel sp = .ok (tok, sp'))
    (htok : tok.toktyp = .equal) : scanNext strtod true fuel sp = .ok (tok, sp') := by
  induction fuel generalizing sp with
  | zero => cases h
  | succ fuel ih =>
    rw [scanNext] at h ⊢
    rcases hget : scanGet sp with ⟨ch, sp1⟩
    rw [hget] at h
    cases ch with
    | none => exact h
    | some ch =>
      obtain ⟨used, hused, hcases⟩ := scanGet_some hget
      dsimp only at h ⊢
      cases htyp : simpleToken ch with
      | some typ =>
        rw [htyp] at h
        exact h
      | none =>
        rw [htyp] at h
        dsimp only at h ⊢
        have hnlf : ch ≠ lf := by
          rintro rfl
          cases htyp
        have hhead : sp.rest.head? = some ch := by
          rcases hcases with ⟨rfl, -⟩ | ⟨-, hlf⟩
          · rw [hused.rest]
            rfl
          · exact absurd hlf hnlf
        by_cases hblank : ch = space ∨ ch = tab
        · rw [if_pos hblank] at h ⊢
          exact ih h
        rw [if_neg hblank] at h ⊢
        by_cases hhash : ch = 0x23
        · rw [if_pos hhash] at h ⊢
          obtain ⟨sp2, hskip, h⟩ := bind_eq_ok.mp h
          rw [hskip, ok_bind]
          exact ih h
        rw [if_neg hhash] at h ⊢
        by_cases hopen : ch = 0x5b
        · rw [if_pos hopen] at h
          cases h
          cases htok
        rw [if_neg hopen] at h
        by_cases hclose : ch = 0x5d
        · rw [if_pos hclose] at h
          cases h
          cases htok
        rw [if_neg hclose] at h
        by_cases hdq : ch = dquote
        · rw [if_pos hdq] at h
          obtain ⟨ps, u, hq, -⟩ := (scanString_spec (F := F) (hdq ▸ hhead)).value h
          rcases hq.spells.1 with ht | ht
          · rw [ht] at htok
            cases htok
          · rw [ht] at htok
            cases htok
        rw [if_neg hdq] at h
        by_cases hsq : ch = squote
        · rw [if_pos hsq] at h
          obtain ⟨u, -, ht | ht, -⟩ := (scanLitstring_spec (F := F) (hsq ▸ hhead)).value h
          · rw [ht] at htok
            cases htok
          · rw [ht] at htok
            cases htok
        rw [if_neg hsq] at h
        obtain ⟨v, n, hv, -⟩ := (scanNonstringLiteral_spec strtod sp).value h
        have htyp := hv.typ
        dsimp only at htyp
        rw [htok] at htyp
        exact absurd htyp (by decide)

/-- What a token adds to the count of brackets, and to that of braces. -/
def bracketStep : Toktyp → ℤ
  | .lbrack => 1
  | .rbrack => -1
  | _ => 0

def braceStep : Toktyp → ℤ
  | .lbrace => 1
  | .rbrace => -1
  | _ => 0

/-- The token that comes next in a mode, and the place after it. -/
def Next (strtod : Bytes → Option F) (keymode : Bool) (st : ScannerState) (tok : Token F)
    (st' : ScannerState) : Prop :=
  scanNext strtod keymode (st.rest.length + 1) st = .ok (tok, st')

/-- A token that the scanner hands out: what has been read for it, and the counts after it. -/
structure Scans (strtod : Bytes → Option F) (keymode : Bool) (sp : Scanner) (tok : Token F)
    (sp' : Scanner) : Prop where
  next : Next strtod keymode sp.state tok sp'.state
  read : ∃ used, Reads sp.state used sp'.state ∧ TokenOk tok used
  bracket : sp'.bracketLevel = sp.bracketLevel + bracketStep tok.toktyp
  brace : sp'.braceLevel = sp.braceLevel + braceStep tok.toktyp
  bracketMax : tok.toktyp = .lbrack → sp'.bracketLevel ≤ bracketLevelMax
  braceMax : tok.toktyp = .lbrace → sp'.braceLevel ≤ braceLevelMax

/-- The bytes that a scanner has not read yet. -/
abbrev left (sp : Scanner) : ℕ := sp.state.rest.length

theorem Scans.split {strtod : Bytes → Option F} {keymode : Bool} {sp sp' : Scanner} {tok : Token F}
    (h : Scans strtod keymode sp tok sp') :
    ∃ used, left sp = used.length + left sp' ∧ TokenOk tok used := by
  obtain ⟨used, hread, hok⟩ := h.read
  exact ⟨used, hread.length, hok⟩

theorem checkOverflow_spec (sp : Scanner) (tok : Token F) :
    Outcome (fun sp' ↦ sp'.state = sp.state ∧
      sp'.bracketLevel = sp.bracketLevel + bracketStep tok.toktyp ∧
      sp'.braceLevel = sp.braceLevel + braceStep tok.toktyp ∧
      (tok.toktyp = .lbrack → sp'.bracketLevel ≤ bracketLevelMax) ∧
      (tok.toktyp = .lbrace → sp'.braceLevel ≤ braceLevelMax)) Reported
      (checkOverflow sp tok) := by
  unfold checkOverflow
  split
  · rename_i ht
    refine iteInduction (fun _ ↦ outcome_fail _ _) fun hmax ↦ ?_
    rw [ht]
    exact ⟨rfl, rfl, (Int.add_zero _).symm, fun _ ↦ Int.not_lt.mp hmax, fun h ↦ by cases h⟩
  · rename_i ht
    rw [ht]
    exact ⟨rfl, rfl, (Int.add_zero _).symm, (fun h ↦ by cases h), fun h ↦ by cases h⟩
  · rename_i ht
    refine iteInduction (fun _ ↦ outcome_fail _ _) fun hmax ↦ ?_
    rw [ht]
    exact ⟨rfl, (Int.add_zero _).symm, rfl, (fun h ↦ by cases h), fun _ ↦ Int.not_lt.mp hmax⟩
  · rename_i ht
    rw [ht]
    exact ⟨rfl, (Int.add_zero _).symm, rfl, (fun h ↦ by cases h), fun h ↦ by cases h⟩
  · rename_i h1 h2 h3 h4
    refine ⟨rfl, ?_, ?_, fun h ↦ (h1 h).elim, fun h ↦ (h3 h).elim⟩
    · cases ht : tok.toktyp <;> simp_all [bracketStep]
    · cases ht : tok.toktyp <;> simp_all [braceStep]

theorem scanToken_spec (strtod : Bytes → Option F) (keymode : Bool) (sp : Scanner) :
    Outcome (fun r ↦ Scans strtod keymode sp r.1 r.2) Reported (scanToken strtod keymode sp) := by
  rw [scanToken]
  refine (scanNext_spec strtod keymode (Nat.lt_succ_self _)).bind fun r hnext h ↦ ?_
  obtain ⟨used, hread, hok⟩ := h
  obtain ⟨tok, state⟩ := r
  dsimp only at hread hok ⊢
  refine (checkOverflow_spec { sp with state := state } tok).bind fun sp' _ h ↦ ?_
  obtain ⟨hstate, hbracket, hbrace, hbmax, hcmax⟩ := h
  dsimp only at hstate
  refine ⟨?_, ⟨used, ?_, hok⟩, hbracket, hbrace, hbmax, hcmax⟩
  · show Next strtod keymode sp.state tok sp'.state
    rw [hstate]
    exact hnext
  · show Reads sp.state used sp'.state
    rw [hstate]
    exact hread

end Floats

end Xfrpc.Toml.Tokens
