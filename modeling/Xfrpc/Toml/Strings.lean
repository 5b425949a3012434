import Xfrpc.Toml.Pieces

namespace Xfrpc.Toml.Strings

open Foundations.Fallible Scan Number Toml.Norm Pieces

variable {F : Type}

/-- The scanner has read `used`. -/
structure Reads (sp : ScannerState) (used : Bytes) (sp' : ScannerState) : Prop where
  rest : sp.rest = used ++ sp'.rest

theorem Reads.refl (sp : ScannerState) : Reads sp [] sp := ⟨rfl⟩

theorem Reads.trans {sp sp' sp'' : ScannerState} {a b : Bytes} (h : Reads sp a sp')
    (h' : Reads sp' b sp'') : Reads sp (a ++ b) sp'' :=
  ⟨by rw [h.rest, h'.rest, List.append_assoc]⟩

theorem Reads.length {sp sp' : ScannerState} {used : Bytes} (h : Reads sp used sp') :
    sp.rest.length = used.length + sp'.rest.length := by rw [h.rest, List.length_append]

theorem Reads.consumed {sp sp' : ScannerState} {used : Bytes} (h : Reads sp used sp') :
    consumed sp sp' = used.length := by
  rw [Scan.consumed, h.length, Nat.add_sub_cancel]

theorem Reads.take {sp sp' : ScannerState} {used : Bytes} (h : Reads sp used sp') :
    sp.rest.take (Scan.consumed sp sp') = used := by rw [h.consumed, h.rest, List.take_left]

theorem reads_skip (sp : ScannerState) {n : ℕ} : Reads sp (sp.rest.take n) (sp.skip n) :=
  ⟨(List.take_append_drop n sp.rest).symm⟩

/-- The errors that are about the document. -/
def Reported : Failure → Prop
  | .error _ text => text ≠ ascii "out of memory"
  | _ => False

theorem outcome_fail {α : Type} {P : α → Prop} (lineno : ℕ) (text : String)
    (h : ascii text ≠ ascii "out of memory" := by decide) :
    Outcome P Reported (fail lineno text) := h

theorem scanGet_nil {sp : ScannerState} (h : sp.rest = []) : scanGet sp = (none, sp) := by
  rw [scanGet, h]

theorem scanGet_cons_eq {sp : ScannerState} {c : UInt8} {r : Bytes} (h : sp.rest = c :: r) :
    scanGet sp = if c = cr ∧ r.head? = some lf then
        (some lf, { sp with rest := r.tail, lineno := sp.lineno + 1 })
      else (some c, { sp with rest := r, lineno := if c = lf then sp.lineno + 1 else sp.lineno }) := by
  rw [scanGet, h]

/-- A character that is read is the next byte, or a newline for both bytes of its pair. -/
theorem scanGet_some {sp sp' : ScannerState} {ch : UInt8} (h : scanGet sp = (some ch, sp')) :
    ∃ used, Reads sp used sp' ∧
      (used = [ch] ∧ (ch = cr → sp'.rest.head? ≠ some lf) ∨ used = [cr, lf] ∧ ch = lf) := by
  cases hrest : sp.rest with
  | nil =>
    rw [scanGet_nil hrest] at h
    cases h
  | cons c r =>
    rw [scanGet_cons_eq hrest] at h
    by_cases hpair : c = cr ∧ r.head? = some lf
    · rw [if_pos hpair] at h
      cases h
      obtain ⟨rfl, hr⟩ := hpair
      exact ⟨[cr, lf], ⟨by rw [hrest, ← List.cons_head?_tail hr]; rfl⟩, .inr ⟨rfl, rfl⟩⟩
    · rw [if_neg hpair] at h
      cases h
      exact ⟨[ch], ⟨hrest⟩, .inl ⟨rfl, fun hcr hlf ↦ hpair ⟨hcr, hlf⟩⟩⟩

theorem used_pos {used : Bytes} {ch : UInt8} {sp : ScannerState}
    (h : used = [ch] ∧ (ch = cr → sp.rest.head? ≠ some lf) ∨ used = [cr, lf] ∧ ch = lf) :
    0 < used.length := by
  rcases h with ⟨rfl, -⟩ | ⟨rfl, -⟩
  · exact Nat.one_pos
  · exact Nat.two_pos

theorem scanGet_lineno {sp sp' : ScannerState} {ch : UInt8} (h : scanGet sp = (some ch, sp'))
    (hlf : ch ≠ lf) : sp'.lineno = sp.lineno := by
  cases hrest : sp.rest with
  | nil =>
    rw [scanGet_nil hrest] at h
    cases h
  | cons c r =>
    rw [scanGet_cons_eq hrest] at h
    by_cases hpair : c = cr ∧ r.head? = some lf
    · rw [if_pos hpair] at h
      cases h
      exact absurd rfl hlf
    · rw [if_neg hpair] at h
      cases h
      exact if_neg hlf

theorem scanGet_none {sp sp' : ScannerState} (h : scanGet sp = (none, sp')) :
    sp.rest = [] ∧ sp' = sp := by
  cases hrest : sp.rest with
  | nil =>
    rw [scanGet_nil hrest] at h
    cases h
    exact ⟨rfl, rfl⟩
  | cons c r =>
    rw [scanGet_cons_eq hrest] at h
    by_cases hpair : c = cr ∧ r.head? = some lf
    · rw [if_pos hpair] at h
      cases h
    · rw [if_neg hpair] at h
      cases h

theorem scanGet_cons {sp : ScannerState} {c : UInt8} {r : Bytes} (h : sp.rest = c :: r)
    (hcr : c ≠ cr)
    (hlf : c ≠ lf) : scanGet sp = (some c, { sp with rest := r }) := by
  rw [scanGet, h]
  simp [hcr, hlf]

theorem scanMatch_iff {sp : ScannerState} {ch : UInt8} (h : ch ≠ lf) :
    scanMatch sp ch ↔ sp.rest.head? = some ch := by
  simp [scanMatch, h]

/-- Where the first escape of a text is. -/
def firstEscape : List Piece → Option ℕ
  | [] => none
  | .byte _ :: ps => (firstEscape ps).map (· + 1)
  | _ :: _ => some 0

theorem firstEscape_none {ps : List Piece} (h : firstEscape ps = none) :
    denote ps = some (render ps) := by
  induction ps with
  | nil => rfl
  | cons p ps ih =>
    cases p with
    | byte c =>
      rw [firstEscape, Option.map_eq_none_iff] at h
      rw [denote, ih h]
      rfl
    | simple e => cases h
    | hex e ds => cases h
    | ending b n w => cases h

/-- Up to its first escape a text stands for itself. -/
theorem firstEscape_some {ps : List Piece} {i : ℕ} (h : firstEscape ps = some i) :
    ∃ front rear, render ps = front ++ render rear ∧ front.length = i ∧
      (render rear).head? = some backslash ∧ denote ps = (denote rear).map (front ++ ·) ∧
      ∀ plain, LegalText plain ps → LegalText plain rear := by
  induction ps generalizing i with
  | nil => cases h
  | cons p ps ih =>
    have hhere (hp : p.render.head? = some backslash) (hi : i = 0) :
        ∃ front rear, render (p :: ps) = front ++ render rear ∧ front.length = i ∧
          (render rear).head? = some backslash ∧
          denote (p :: ps) = (denote rear).map (front ++ ·) ∧
          ∀ plain, LegalText plain (p :: ps) → LegalText plain rear := by
      refine ⟨[], p :: ps, rfl, hi.symm, ?_, ?_, fun plain h ↦ h⟩
      · rw [render_cons, List.head?_append, hp]
        rfl
      · simp
    cases p with
    | byte c =>
      rw [firstEscape, Option.map_eq_some_iff] at h
      obtain ⟨j, hj, rfl⟩ := h
      obtain ⟨front, rear, hr, hlen, hhead, hden, hlegal⟩ := ih hj
      refine ⟨c :: front, rear, by rw [render_cons, hr]; rfl, by rw [List.length_cons, hlen], hhead,
        ?_, fun plain h ↦ hlegal plain h.2.1⟩
      rw [denote, hden]
      cases denote rear <;> rfl
    | simple e => exact hhere rfl (Option.some.inj h).symm
    | hex e ds => exact hhere rfl (Option.some.inj h).symm
    | ending b n w => exact hhere rfl (Option.some.inj h).symm

/-- A token of a string with escapes, over its text in pieces. -/
structure Spells (tok : Token F) (plain : UInt8 → Prop) (ps : List Piece) : Prop where
  legal : LegalText plain ps
  str : tok.str = render ps
  escp : tok.u = escape (firstEscape ps)

theorem poolAlloc_eq {pool : Pool} {n : ℕ} (h : pool.top + n ≤ pool.max) :
    poolAlloc pool n = some { pool with top := pool.top + n } := by
  rw [poolAlloc, if_neg (Nat.not_lt.mpr h)]

/-- What `unescape` makes of a text from its first escape on. -/
theorem unescape_spec {tok : Token F} {plain : UInt8 → Prop} {ps : List Piece}
    (h : Spells tok plain ps) {i : ℕ} (hi : firstEscape ps = some i) :
    (∀ v, denote ps = some v → unescape tok i = .ok v) ∧
      (denote ps = none → Refused tok.lineno (unescape tok i)) := by
  obtain ⟨front, rear, hr, hlen, hhead, hden, hlegal⟩ := firstEscape_some hi
  have hbuf : tok.str ++ [0] = front ++ (render rear ++ [0]) := by rw [h.str, hr, List.append_assoc]
  have hdrop : (tok.str ++ [0]).drop i = render rear ++ [0] := by
    rw [hbuf, ← hlen, List.drop_left]
  have hfuel : rear.length < (tok.str ++ [0]).length + 1 := by
    have := length_le_render rear
    rw [hbuf, List.length_append, List.length_append]
    omega
  have hbyte : readByte (tok.str ++ [0]) i = .ok backslash := by
    cases hrear : render rear with
    | nil => rw [hrear] at hhead; cases hhead
    | cons c r =>
      rw [hrear] at hhead hdrop
      obtain rfl : c = backslash := Option.some.inj hhead
      exact readByte_drop hdrop
  obtain ⟨hok, herr⟩ := normLoop_text tok.lineno (hlegal plain h.legal) (Nat.le_refl i) hdrop hfuel
  have hstart : unescape tok i =
      normLoop tok.lineno ((tok.str ++ [0]).length + 1) (tok.str ++ [0]) i i >>= fun r ↦
        writeBytes r.1 r.2 [0] >>= fun buf ↦ .ok (buf.take r.2) := by
    rw [unescape]
    simp only [hbyte, ok_bind]
    exact if_neg (by simp)
  rw [hstart, hden]
  constructor
  · intro v hv
    obtain ⟨us, hus, rfl⟩ := Option.map_eq_some_iff.mp hv
    obtain ⟨buf', hrun, hlen', htake⟩ := hok us hus
    have hle := denote_length_le (hlegal plain h.legal) hus
    have hroom : i + us.length + [(0 : UInt8)].length ≤ buf'.length := by
      rw [hlen', hbuf, List.length_append, List.length_append, List.length_singleton, hlen]
      omega
    have hfront : (tok.str ++ [0]).take i = front := by rw [hbuf, ← hlen, List.take_left]
    rw [hrun, ok_bind]
    simp only [writeBytes_eq hroom, ok_bind]
    have hkeep : (Foundations.Block.store buf' (i + us.length) [0]).take (i + us.length) =
        buf'.take (i + us.length) := by
      rw [Foundations.Block.store, List.take_left' (List.length_take_of_le (by omega))]
    rw [hkeep, htake, hfront]
  · intro hnone
    obtain ⟨text, htext, hrun⟩ := herr (by simpa using hnone)
    rw [hrun]
    exact ⟨text, htext, rfl⟩

theorem parseNorm_spells {tok : Token F} {plain : UInt8 → Prop} {ps : List Piece}
    (h : Spells tok plain ps) (ht : tok.toktyp = .string ∨ tok.toktyp = .mlstring) {pool : Pool}
    (hpool : pool.top + (tok.str.length + 1) ≤ pool.max) :
    (∀ v, denote ps = some v → parseNorm pool tok =
        .ok (v, { pool with top := pool.top + (tok.str.length + 1) })) ∧
      (denote ps = none → Refused tok.lineno (parseNorm pool tok)) := by
  have hu := h.escp
  cases hi : firstEscape ps with
  | none =>
    rw [hi] at hu
    have hnorm : parseNorm pool tok =
        .ok (tok.str, { pool with top := pool.top + (tok.str.length + 1) }) := by
      rw [parseNorm, poolAlloc_eq hpool]
      rcases ht with ht | ht <;> simp only [ht, hu] <;> rfl
    have hden := firstEscape_none hi
    refine ⟨fun v hv ↦ ?_, fun hv ↦ by rw [hden] at hv; cases hv⟩
    rw [hden, ← h.str] at hv
    rw [hnorm, Option.some.inj hv]
  | some i =>
    rw [hi] at hu
    have hnorm : parseNorm pool tok = unescape tok i >>= fun s ↦
        .ok (s, { pool with top := pool.top + (tok.str.length + 1) }) := by
      rw [parseNorm, poolAlloc_eq hpool]
      rcases ht with ht | ht <;> simp only [ht, hu] <;> rfl
    obtain ⟨hok, herr⟩ := unescape_spec h hi
    refine ⟨fun v hv ↦ ?_, fun hv ↦ ?_⟩
    · rw [hnorm, hok v hv]
      rfl
    · obtain ⟨text, htext, hrun⟩ := herr hv
      refine ⟨text, htext, ?_⟩
      rw [hnorm, hrun]
      rfl

/-- An escape that is no line-ending backslash. -/
def Piece.IsEscape : Piece → Prop
  | .simple _ | .hex _ _ => True
  | _ => False

/-- The length of an escape that is recognized: none, or that of a piece. -/
theorem scanEscapeChars_spec (sp : ScannerState) :
    Outcome (fun cnt ↦ cnt = 0 ∨ 0 < cnt ∧ ∃ p : Piece, Piece.IsEscape p ∧
      (∀ plain, p.Legal plain) ∧ p.render = backslash :: sp.rest.take cnt) Reported
      (scanEscapeChars sp) := by
  unfold scanEscapeChars
  cases hrest : sp.rest with
  | nil => exact .inl rfl
  | cons ch r =>
    dsimp only
    by_cases hsimple : ch ∈ simpleEscapes
    · rw [if_pos hsimple]
      exact .inr ⟨Nat.one_pos, .simple ch, trivial, fun _ ↦ hsimple, rfl⟩
    · by_cases hzero : hexDigits ch = 0
      · rw [if_neg hsimple, if_pos hzero]
        exact .inl rfl
      · by_cases hshort : (r.takeWhile isHexChar).length < hexDigits ch
        · rw [if_neg hsimple, if_neg hzero, if_pos hshort]
          exact text_ne (by simp [hexError, ascii])
        · rw [if_neg hsimple, if_neg hzero, if_neg hshort]
          obtain ⟨t, ht⟩ := List.takeWhile_prefix (l := r) isHexChar
          have htake : r.take (hexDigits ch) = (r.takeWhile isHexChar).take (hexDigits ch) := by
            conv_lhs => rw [← ht]
            rw [List.take_append_of_le_length (Nat.le_of_not_lt hshort)]
          refine .inr ⟨by omega, .hex ch (r.take (hexDigits ch)), trivial, fun _ ↦ ⟨hzero, ?_, ?_⟩, ?_⟩
          · rw [htake, List.length_take_of_le (Nat.le_of_not_lt hshort)]
          · intro d hd
            rw [htake] at hd
            exact List.mem_takeWhile_imp (List.mem_of_mem_take hd)
          · rw [Nat.add_comm, List.take_succ_cons]
            rfl

/-- An escape is recognized whatever follows it. -/
theorem scanEscapeChars_eq {p : Piece} (hp : Piece.IsEscape p) {plain : UInt8 → Prop}
    (hl : p.Legal plain) {sp : ScannerState} {t : Bytes} (h : backslash :: sp.rest = p.render ++ t) :
    scanEscapeChars sp = .ok (p.render.length - 1) ∧ sp.rest.drop (p.render.length - 1) = t := by
  cases p with
  | byte c => exact hp.elim
  | simple e =>
    have hrest : sp.rest = e :: t := (List.cons.inj h).2
    rw [scanEscapeChars, hrest]
    exact ⟨if_pos hl, rfl⟩
  | hex e ds =>
    obtain ⟨hne, hlen, hds⟩ := hl
    have hrest : sp.rest = e :: (ds ++ t) := (List.cons.inj h).2
    have hsimple : e ∉ simpleEscapes := fun hs ↦ by
      obtain ⟨b, hb⟩ := escapeByte_isSome hs
      rw [escapeByte_hex hne] at hb
      cases hb
    have hall : ((ds ++ t).takeWhile isHexChar).length = ds.length + (t.takeWhile isHexChar).length := by
      rw [List.takeWhile_append_of_pos hds, List.length_append]
    rw [scanEscapeChars, hrest]
    refine ⟨?_, ?_⟩
    · simp only [if_neg hsimple, if_neg hne]
      rw [if_neg (by omega), Piece.render, List.length_cons, List.length_cons, hlen, Nat.add_comm]
      rfl
    · rw [Piece.render, List.length_cons, List.length_cons, Nat.add_sub_cancel, List.drop_succ_cons,
        List.drop_left]
  | ending b n w => exact hp.elim

section Basic

/-- The characters of a string on one line that stand for themselves. -/
def basicPlain (c : UInt8) : Prop := (isValidChar c ∨ c = space ∨ c = tab) ∧ c ≠ dquote

/-- The text of a string on one line. -/
structure BasicText (ps : List Piece) : Prop where
  legal : LegalText basicPlain ps
  single : ∀ b n w, .ending b n w ∉ ps

theorem basicText_nil : BasicText [] := ⟨trivial, fun _ _ _ ↦ List.not_mem_nil⟩

theorem BasicText.cons {p : Piece} {ps : List Piece} (hp : p.Legal basicPlain)
    (hne : ∀ b n w, p ≠ .ending b n w) (h : BasicText ps) : BasicText (p :: ps) := by
  refine ⟨⟨hp, h.legal, fun b n w hpe ↦ (hne b n w hpe).elim⟩, fun b n w hmem ↦ ?_⟩
  rcases List.mem_cons.mp hmem with hpe | hmem
  · exact hne b n w hpe.symm
  · exact h.single b n w hmem

theorem BasicText.tail {p : Piece} {ps : List Piece} (h : BasicText (p :: ps)) : BasicText ps :=
  ⟨h.legal.2.1, fun b n w hmem ↦ h.single b n w (List.mem_cons_of_mem p hmem)⟩

theorem basicPlain_ne {c : UInt8} (h : basicPlain c) : c ≠ cr ∧ c ≠ lf := by
  obtain ⟨h, -⟩ := h
  constructor
  · rintro rfl
    revert h
    decide
  · rintro rfl
    revert h
    decide

theorem or_escape {escp : Option ℕ} {n : ℕ} (j : Option ℕ) :
    (escp.or (some n)).or j = escp.or (some n) := by cases escp <;> rfl

/-- The loop of `scan_string` takes the text up to the closing quote, in pieces. -/
theorem stringLoop_spec {start sp : ScannerState} {front : Bytes} (hfront : Reads start front sp)
    {fuel : ℕ} (hfuel : sp.rest.length < fuel) (escp : Option ℕ) :
    Outcome (fun r ↦ ∃ ps, BasicText ps ∧ Reads sp (render ps) r.2 ∧ r.2.lineno = sp.lineno ∧
      r.2.rest.head? = some dquote ∧ r.1 = escp.or ((firstEscape ps).map (· + front.length)))
      Reported (stringLoop start fuel sp escp) := by
  induction fuel generalizing sp front escp with
  | zero => omega
  | succ fuel ih =>
    rw [stringLoop]
    by_cases hquote : scanMatch sp dquote
    · rw [if_pos hquote]
      exact ⟨[], basicText_nil, Reads.refl sp, rfl, (scanMatch_iff (by decide)).mp hquote,
        by cases escp <;> rfl⟩
    · rw [if_neg hquote]
      rcases hget : scanGet sp with ⟨ch, sp'⟩
      cases ch with
      | none => exact outcome_fail _ _
      | some ch =>
        obtain ⟨used, hused, hcases⟩ := scanGet_some hget
        by_cases hback : ch = backslash
        · subst hback
          obtain rfl : used = [backslash] := by
            rcases hcases with h | h
            · exact h.1
            · exact absurd h.2 (by decide)
          simp only [ne_eq, not_true, if_false]
          refine (scanEscapeChars_spec sp').bind fun cnt _ hcnt ↦ ?_
          rcases hcnt with rfl | ⟨hpos, p, hesc, hlegal, hrender⟩
          · rw [if_neg (Nat.lt_irrefl 0)]
            exact outcome_fail _ _
          · have hpiece : Reads sp p.render (sp'.skip cnt) := by
              rw [hrender]
              exact hused.trans (reads_skip sp')
            have hlen := hpiece.length
            have hrpos := render_pos p
            rw [if_pos hpos]
            refine (ih (hfront.trans hpiece) (by omega) _).imp fun r hr ↦ ?_
            obtain ⟨ps, hps, hread, hline, hend, hescp⟩ := hr
            have hcon : consumed start sp' - 1 = front.length := by
              rw [(hfront.trans hused).consumed, List.length_append, List.length_singleton,
                Nat.add_sub_cancel]
            have hfirst : firstEscape (p :: ps) = some 0 := by
              cases p with
              | byte c => exact hesc.elim
              | simple e => rfl
              | hex e ds => rfl
              | ending b n w => exact hesc.elim
            have hne : ∀ b n w, p ≠ .ending b n w := fun b n w hp ↦ by
              rw [hp] at hesc
              exact hesc
            have hsame : sp'.lineno = sp.lineno := scanGet_lineno hget (by decide)
            refine ⟨p :: ps, hps.cons (hlegal _) hne, hpiece.trans hread, hline.trans hsame, hend, ?_⟩
            rw [hescp, hcon, or_escape, hfirst, Option.map_some, Nat.zero_add]
        · simp only [ne_eq, hback, not_false_eq_true, if_true]
          by_cases hvalid : (isValidChar ch || decide (ch = space) || decide (ch = tab)) = true
          · rw [if_pos hvalid]
            have hch : isValidChar ch ∨ ch = space ∨ ch = tab := by
              simpa [or_assoc] using hvalid
            have hnlf : ch ≠ lf := by
              rintro rfl
              revert hch
              decide
            obtain rfl : used = [ch] := by
              rcases hcases with h | h
              · exact h.1
              · exact absurd h.2 hnlf
            have hrest : sp.rest = ch :: sp'.rest := hused.rest
            have hnq : ch ≠ dquote := by
              rintro rfl
              exact hquote ((scanMatch_iff (by decide)).mpr (by rw [hrest]; rfl))
            have hnz : ch ≠ 0 := by
              rintro rfl
              revert hch
              decide
            have hplain : basicPlain ch := ⟨hch, hnq⟩
            have hlen := hused.length
            rw [List.length_singleton] at hlen
            refine (ih (hfront.trans hused) (by omega) _).imp fun r hr ↦ ?_
            obtain ⟨ps, hps, hread, hline, hend, hescp⟩ := hr
            have hsame : sp'.lineno = sp.lineno := scanGet_lineno hget hnlf
            refine ⟨.byte ch :: ps, hps.cons ⟨hplain, hnz, hback⟩ (fun _ _ _ h ↦ by cases h),
              hused.trans hread, hline.trans hsame, hend, ?_⟩
            rw [hescp, firstEscape, List.length_append, List.length_singleton]
            cases firstEscape ps with
            | none => rfl
            | some i =>
              rw [Option.map_some, Option.map_some, Option.map_some]
              congr 2
              omega
          · rw [if_neg hvalid]
            exact outcome_fail _ _

/-- Every text in pieces is taken to its end, where the closing quote stands. -/
theorem stringLoop_text {start sp : ScannerState} {front r : Bytes} (hfront : Reads start front sp)
    {ps : List Piece} (hps : BasicText ps) (hrest : sp.rest = render ps ++ dquote :: r)
    {fuel : ℕ} (hfuel : ps.length < fuel) (escp : Option ℕ) :
    stringLoop start fuel sp escp =
      .ok (escp.or ((firstEscape ps).map (· + front.length)), { sp with rest := dquote :: r }) := by
  induction ps generalizing fuel sp front escp with
  | nil =>
    obtain ⟨fuel, rfl⟩ := Nat.exists_eq_succ_of_ne_zero (Nat.ne_zero_of_lt hfuel)
    have hquote : scanMatch sp dquote := (scanMatch_iff (by decide)).mpr (by rw [hrest]; rfl)
    have hsame : { sp with rest := dquote :: r } = sp := by
      rw [show dquote :: r = sp.rest from hrest.symm]
    rw [stringLoop, if_pos hquote, hsame]
    cases escp <;> rfl
  | cons p ps ih =>
    obtain ⟨fuel, rfl⟩ := Nat.exists_eq_succ_of_ne_zero (Nat.ne_zero_of_lt hfuel)
    have hlt : ps.length < fuel := by simpa using hfuel
    rw [render_cons, List.append_assoc] at hrest
    have hescape (hp : Piece.IsEscape p) (hhead : ∃ t, p.render = backslash :: t)
        (hfirst : firstEscape (p :: ps) = some 0) :
        stringLoop start (fuel + 1) sp escp =
          .ok (escp.or ((firstEscape (p :: ps)).map (· + front.length)),
            { sp with rest := dquote :: r }) := by
      obtain ⟨t, ht⟩ := hhead
      rw [ht, List.cons_append] at hrest
      have hnq : scanMatch sp dquote = false := by
        rw [Bool.eq_false_iff, ne_eq, scanMatch_iff (by decide), hrest, List.head?_cons]
        decide
      have hget := scanGet_cons hrest (by decide) (by decide)
      have hbehind : backslash :: ({ sp with rest := t ++ (render ps ++ dquote :: r) } :
          ScannerState).rest = p.render ++ (render ps ++ dquote :: r) := by
        rw [ht]
        rfl
      obtain ⟨hcnt, hdrop⟩ := scanEscapeChars_eq hp hps.legal.1 hbehind
      have hlen : p.render.length - 1 = t.length := by rw [ht, List.length_cons, Nat.add_sub_cancel]
      have htpos : 0 < t.length := by
        cases p with
        | byte c => exact hp.elim
        | simple e =>
          cases ht
          exact Nat.one_pos
        | hex e ds =>
          cases ht
          exact Nat.succ_pos _
        | ending b n w => exact hp.elim
      have hpiece : Reads sp p.render
          ((⟨t ++ (render ps ++ dquote :: r), sp.lineno⟩ :
            ScannerState).skip (p.render.length - 1)) :=
        ⟨by rw [hlen, ScannerState.skip, List.drop_left, hrest, ht, List.cons_append]⟩
      have hcon : consumed start
          ⟨t ++ (render ps ++ dquote :: r), sp.lineno⟩ - 1 =
            front.length := by
        have hone : Reads sp [backslash]
            ⟨t ++ (render ps ++ dquote :: r), sp.lineno⟩ :=
          ⟨hrest⟩
        rw [(hfront.trans hone).consumed, List.length_append, List.length_singleton,
          Nat.add_sub_cancel]
      rw [stringLoop, hnq, hget]
      simp only [Bool.false_eq_true, if_false, ne_eq, not_true, hcnt, ok_bind]
      rw [if_pos (by omega), ih (hfront.trans hpiece) hps.tail hdrop hlt, hcon, or_escape, hfirst,
        Option.map_some, Nat.zero_add]
      rfl
    cases p with
    | byte c =>
      obtain ⟨hplain, hnz, hback⟩ := hps.legal.1
      have hrest' : sp.rest = c :: (render ps ++ dquote :: r) := hrest
      have hnq : scanMatch sp dquote = false := by
        rw [Bool.eq_false_iff, ne_eq, scanMatch_iff (by decide), hrest']
        simpa using hplain.2
      have hget := scanGet_cons hrest' (basicPlain_ne hplain).1 (basicPlain_ne hplain).2
      have hone : Reads sp [c]
          ⟨render ps ++ dquote :: r, sp.lineno⟩ :=
        ⟨hrest'⟩
      have hvalid : (isValidChar c || decide (c = space) || decide (c = tab)) = true := by
        simpa [or_assoc] using hplain.1
      rw [stringLoop, hnq, hget]
      simp only [Bool.false_eq_true, if_false, ne_eq, hback, not_false_eq_true, if_true]
      rw [if_pos hvalid, ih (hfront.trans hone) hps.tail rfl hlt, firstEscape, List.length_append,
        List.length_singleton]
      cases firstEscape ps with
      | none => rfl
      | some i =>
        rw [Option.map_some, Option.map_some, Option.map_some, Nat.add_comm front.length,
          Nat.add_assoc]
    | simple e => exact hescape trivial ⟨[e], rfl⟩ rfl
    | hex e ds => exact hescape trivial ⟨e :: ds, rfl⟩ rfl
    | ending b n w => exact absurd List.mem_cons_self (hps.single b n w)

end Basic

section Multiline

/-- The characters of a multi-line string that stand for themselves. -/
def multiPlain (c : UInt8) : Prop := isValidChar c ∨ c ∈ [space, tab, lf, cr]

theorem scanWhile_spec {sp : ScannerState} {fuel : ℕ} (hfuel : sp.rest.length < fuel) :
    Outcome (fun sp' ↦ ∃ w, (∀ c ∈ w, isWhite c) ∧ Reads sp w sp' ∧
      scanMatchany sp' [space, tab, lf] = false) Reported (scanWhile [space, tab, lf] fuel sp) := by
  induction fuel generalizing sp with
  | zero => omega
  | succ fuel ih =>
    rw [scanWhile]
    by_cases hmatch : scanMatchany sp [space, tab, lf]
    · rw [if_pos hmatch]
      rcases hget : scanGet sp with ⟨ch, sp'⟩
      cases ch with
      | none =>
        obtain ⟨hnil, -⟩ := scanGet_none hget
        rw [scanMatchany, List.any_eq_true] at hmatch
        obtain ⟨c, -, hc⟩ := hmatch
        simp [scanMatch, hnil] at hc
      | some ch =>
        obtain ⟨used, hused, hcases⟩ := scanGet_some hget
        have hwhite : ∀ c ∈ used, isWhite c := by
          rcases hcases with ⟨rfl, hcr⟩ | ⟨rfl, -⟩
          · intro c hc
            rw [List.mem_singleton.mp hc]
            rw [scanMatchany, List.any_eq_true] at hmatch
            obtain ⟨x, hx, hxm⟩ := hmatch
            have hrest : sp.rest = ch :: sp'.rest := hused.rest
            rw [scanMatch, hrest, List.head?_cons, Bool.or_eq_true, decide_eq_true_eq,
              Option.some.injEq] at hxm
            rcases hxm with rfl | hxm
            · simp only [List.mem_cons, List.not_mem_nil, or_false] at hx
              simp only [isWhite, List.mem_cons, List.not_mem_nil, or_false, decide_eq_true_eq]
              rcases hx with h | h | h
              · exact .inl h
              · exact .inr (.inl h)
              · exact .inr (.inr (.inr h))
            · simp only [List.take_succ_cons, Bool.and_eq_true, decide_eq_true_eq,
                List.cons.injEq] at hxm
              rw [hxm.2.1]
              decide
          · intro c hc
            rcases List.mem_pair.mp hc with rfl | rfl <;> decide
        have hlen := hused.length
        have hpos := used_pos hcases
        refine (ih (by omega : sp'.rest.length < fuel)).imp fun sp'' h ↦ ?_
        obtain ⟨w, hw, hread, hno⟩ := h
        refine ⟨used ++ w, fun c hc ↦ ?_, hused.trans hread, hno⟩
        exact (List.mem_append.mp hc).elim (hwhite c) (hw c)
    · rw [if_neg hmatch]
      exact ⟨[], fun _ hc ↦ (List.not_mem_nil hc).elim, Reads.refl sp, Bool.eq_false_iff.mpr hmatch⟩

theorem reads_dropWhile (sp : ScannerState) (q : UInt8 → Bool) :
    Reads sp (sp.rest.takeWhile q) { sp with rest := sp.rest.dropWhile q } :=
  ⟨List.takeWhile_append_dropWhile.symm⟩

/-- A newline that is read, from the bytes that are one. -/
theorem newline_of_get {used : Bytes} {ch : UInt8} {sp : ScannerState} (hch : ch = lf)
    (h : used = [ch] ∧ (ch = cr → sp.rest.head? ≠ some lf) ∨ used = [cr, lf] ∧ ch = lf) :
    used = [lf] ∨ used = [cr, lf] := by
  rcases h with ⟨h, -⟩ | ⟨h, -⟩
  · exact .inl (by rw [h, hch])
  · exact .inr h

theorem lineEnding_spec (sp : ScannerState) :
    Outcome (fun sp' ↦ ∃ b n w, (∀ plain, (Piece.ending b n w).Legal plain) ∧
      Reads sp (b ++ n ++ w) sp' ∧ scanMatchany sp' [space, tab, lf] = false) Reported
      (lineEnding sp) := by
  -- the blanks and the newline, however the first character was read
  have hfinish (start sp1 : ScannerState) (b n : Bytes) (hb : ∀ c ∈ b, isBlank c)
      (hn : n = [lf] ∨ n = [cr, lf]) (hread : Reads start (b ++ n) sp1) :
      Outcome (fun sp' ↦ ∃ b n w, (∀ plain, (Piece.ending b n w).Legal plain) ∧
        Reads start (b ++ n ++ w) sp' ∧ scanMatchany sp' [space, tab, lf] = false) Reported
        (scanWhile [space, tab, lf] (sp1.rest.length + 1) sp1) := by
    refine (scanWhile_spec (Nat.lt_succ_self _)).imp fun sp' h ↦ ?_
    obtain ⟨w, hw, hwread, hno⟩ := h
    exact ⟨b, n, w, fun _ ↦ ⟨hb, hn, hw⟩, hread.trans hwread, hno⟩
  unfold lineEnding
  rcases hget : scanGet sp with ⟨ch, sp1⟩
  dsimp only
  by_cases hblank : ch = some space ∨ ch = some tab
  · rw [if_pos hblank]
    rcases hget2 : scanGet { sp1 with rest := sp1.rest.dropWhile isBlank } with ⟨ch2, sp2⟩
    dsimp only
    by_cases hlf : ch2 = some lf
    · rw [if_pos hlf]
      subst hlf
      obtain ⟨c, rfl, hc⟩ : ∃ c, ch = some c ∧ isBlank c := by
        rcases hblank with h | h
        · exact ⟨space, h, rfl⟩
        · exact ⟨tab, h, rfl⟩
      obtain ⟨used, hused, hcases⟩ := scanGet_some hget
      obtain ⟨used2, hused2, hcases2⟩ := scanGet_some hget2
      obtain rfl : used = [c] := by
        rcases hcases with h | h
        · exact h.1
        · exact absurd (h.2 ▸ hc) (by decide)
      have hread := (hused.trans (reads_dropWhile sp1 isBlank)).trans hused2
      refine hfinish sp sp2 _ used2 ?_ (newline_of_get rfl hcases2) hread
      intro x hx
      rcases List.mem_append.mp hx with hx | hx
      · rwa [List.mem_singleton.mp hx]
      · exact List.mem_takeWhile_imp hx
    · rw [if_neg hlf]
      exact outcome_fail _ _
  · rw [if_neg hblank]
    dsimp only
    by_cases hlf : ch = some lf
    · rw [if_pos hlf]
      subst hlf
      obtain ⟨used, hused, hcases⟩ := scanGet_some hget
      exact hfinish sp sp1 [] used (fun _ h ↦ (List.not_mem_nil h).elim)
        (newline_of_get rfl hcases) hused
    · rw [if_neg hlf]
      exact outcome_fail _ _

/-- A carriage return in the text of a multi-line string belongs to a newline. -/
def NoLoneReturn (t : Bytes) : Prop := ∀ r, t = cr :: r → r.head? = some lf

theorem closing_closed {sp : ScannerState} {quote : UInt8} (h : closing sp quote = .closed) :
    scanNmatch sp quote 3 := by
  unfold closing at h
  by_cases h3 : scanNmatch sp quote 3
  · exact h3
  · rw [if_neg h3] at h
    cases h

/-- After a line-ending backslash the text goes on with no white space. -/
theorem not_white {sp sp' : ScannerState} {t : Bytes}
    (hno : scanMatchany sp [space, tab, lf] = false)
    (hread : Reads sp t sp') (ht : NoLoneReturn t) : ∀ c ∈ t.head?, isWhite c = false := by
  intro c hc
  obtain ⟨r, rfl⟩ : ∃ r, t = c :: r := by
    cases t with
    | nil => cases hc
    | cons x r => exact ⟨r, by rw [Option.mem_some.mp hc]⟩
  rw [scanMatchany, List.any_eq_false] at hno
  have hhead : sp.rest.head? = some c := by rw [hread.rest]; rfl
  have hnot : ∀ x ∈ [space, tab, lf], c ≠ x := by
    rintro x hx rfl
    exact hno c hx (by rw [scanMatch, hhead]; simp)
  have hcr : c ≠ cr := by
    rintro rfl
    have hr := ht r rfl
    obtain ⟨r', rfl⟩ : ∃ r', r = lf :: r' := ⟨r.tail, (List.cons_head?_tail hr).symm⟩
    refine hno lf (by decide) ?_
    rw [scanMatch, hread.rest]
    simp
  simp only [isWhite, decide_eq_false_iff_not, List.mem_cons, List.not_mem_nil, or_false]
  rintro (h | h | h | h)
  · exact hnot space (by decide) h
  · exact hnot tab (by decide) h
  · exact hcr h
  · exact hnot lf (by decide) h

theorem firstEscape_bytes (used : Bytes) (ps : List Piece) :
    firstEscape (used.map .byte ++ ps) = (firstEscape ps).map (· + used.length) := by
  induction used with
  | nil => simp
  | cons c used ih =>
    rw [List.map_cons, List.cons_append, firstEscape, ih, Option.map_map, List.length_cons]
    rfl

theorem render_bytes (used : Bytes) (ps : List Piece) :
    render (used.map .byte ++ ps) = used ++ render ps := by
  induction used with
  | nil => rfl
  | cons c used ih =>
    rw [List.map_cons, List.cons_append, render_cons, ih]
    rfl

theorem legalText_bytes {plain : UInt8 → Prop} {used : Bytes} {ps : List Piece}
    (hused : ∀ c ∈ used, plain c ∧ c ≠ 0 ∧ c ≠ backslash) (h : LegalText plain ps) :
    LegalText plain (used.map .byte ++ ps) := by
  induction used with
  | nil => exact h
  | cons c used ih =>
    exact ⟨hused c List.mem_cons_self, ih fun x hx ↦ hused x (List.mem_cons_of_mem c hx),
      fun b n w hp ↦ by cases hp⟩

theorem multilineEscape_spec (sp : ScannerState) :
    Outcome (fun sp' ↦ ∃ p : Piece, (∀ plain, p.Legal plain) ∧ firstEscape [p] = some 0 ∧
      (∃ t, p.render = backslash :: t ∧ Reads sp t sp') ∧
      ((∃ b n w, p = .ending b n w) → scanMatchany sp' [space, tab, lf] = false)) Reported
      (multilineEscape sp) := by
  refine (scanEscapeChars_spec sp).bind fun cnt _ hcnt ↦ ?_
  rcases hcnt with rfl | ⟨hpos, p, hesc, hlegal, hrender⟩
  · rw [if_neg (Nat.lt_irrefl 0)]
    refine (lineEnding_spec sp).imp fun sp' h ↦ ?_
    obtain ⟨b, n, w, hlegal, hread, hno⟩ := h
    exact ⟨.ending b n w, hlegal, rfl, ⟨_, rfl, hread⟩, fun _ ↦ hno⟩
  · rw [if_pos hpos]
    have hne : ¬ ∃ b n w, p = .ending b n w := by
      rintro ⟨b, n, w, rfl⟩
      exact hesc
    have hfirst : firstEscape [p] = some 0 := by
      cases p with
      | byte c => exact hesc.elim
      | simple e => rfl
      | hex e ds => rfl
      | ending b n w => exact hesc.elim
    exact ⟨p, hlegal, hfirst, ⟨_, hrender, reads_skip sp⟩, fun h ↦ (hne h).elim⟩

theorem firstEscape_cons {p : Piece} (h : firstEscape [p] = some 0) (ps : List Piece) :
    firstEscape (p :: ps) = some 0 := by
  cases p with
  | byte c => cases h
  | simple e => rfl
  | hex e ds => rfl
  | ending b n w => rfl

/-- The loop of `scan_multiline_string` takes the text up to the closing quotes, in pieces. -/
theorem multilineLoop_spec {start sp : ScannerState} {front : Bytes} (hfront : Reads start front sp)
    {fuel : ℕ} (hfuel : sp.rest.length < fuel) (escp : Option ℕ) :
    Outcome (fun r ↦ ∃ ps, LegalText multiPlain ps ∧ NoLoneReturn (render ps) ∧
      Reads sp (render ps) r.2 ∧ closing r.2 dquote = .closed ∧
      r.1 = escp.or ((firstEscape ps).map (· + front.length)))
      Reported (multilineLoop start fuel sp escp) := by
  induction fuel generalizing sp front escp with
  | zero => omega
  | succ fuel ih =>
    rw [multilineLoop]
    rcases hclose : closing sp dquote with _ | _ | _
    · dsimp only
      rcases hget : scanGet sp with ⟨ch, sp'⟩
      cases ch with
      | none => exact outcome_fail _ _
      | some ch =>
        obtain ⟨used, hused, hcases⟩ := scanGet_some hget
        dsimp only
        by_cases hback : ch = backslash
        · subst hback
          obtain rfl : used = [backslash] := by
            rcases hcases with h | h
            · exact h.1
            · exact absurd h.2 (by decide)
          rw [if_neg (by simp)]
          have hcon : consumed start sp' - 1 = front.length := by
            rw [(hfront.trans hused).consumed, List.length_append, List.length_singleton,
              Nat.add_sub_cancel]
          rw [hcon]
          refine (multilineEscape_spec sp').bind fun sp'' _ h ↦ ?_
          obtain ⟨p, hlegal, hfirst, ⟨t, ht, hread⟩, hno⟩ := h
          have hpiece : Reads sp p.render sp'' := ht ▸ hused.trans hread
          have hlen := hpiece.length
          have hpos := render_pos p
          refine (ih (hfront.trans hpiece) (by omega) _).imp fun r hr ↦ ?_
          obtain ⟨ps, hps, hlone, hread', hend, hescp⟩ := hr
          refine ⟨p :: ps, ⟨hlegal _, hps, ?_⟩, ?_, hpiece.trans hread', hend, ?_⟩
          · intro b n w hp
            exact not_white (hno ⟨b, n, w, hp⟩) hread' hlone
          · intro r hr
            rw [render_cons, ht] at hr
            exact absurd (List.cons.inj hr).1 (by decide)
          · rw [hescp, or_escape, firstEscape_cons hfirst, Option.map_some, Nat.zero_add]
        · rw [if_pos hback]
          by_cases hvalid : (isValidChar ch || decide (ch ∈ [space, tab, lf])) = true
          · rw [if_pos hvalid]
            have hch : isValidChar ch ∨ ch ∈ [space, tab, lf] := by simpa using hvalid
            have hlegal : ∀ c ∈ used, multiPlain c ∧ c ≠ 0 ∧ c ≠ backslash := by
              intro c hc
              rcases hcases with ⟨rfl, -⟩ | ⟨rfl, -⟩
              · rw [List.mem_singleton.mp hc]
                refine ⟨hch.imp id fun h ↦ ?_, ?_, hback⟩
                · simp only [List.mem_cons, List.not_mem_nil, or_false] at h ⊢
                  tauto
                · rintro rfl
                  revert hch
                  decide
              · rcases List.mem_pair.mp hc with rfl | rfl
                · exact ⟨.inr (by decide), by decide, by decide⟩
                · exact ⟨.inr (by decide), by decide, by decide⟩
            have hlen := hused.length
            have hpos := used_pos hcases
            refine (ih (hfront.trans hused) (by omega) _).imp fun r hr ↦ ?_
            obtain ⟨ps, hps, hlone, hread, hend, hescp⟩ := hr
            refine ⟨used.map .byte ++ ps, legalText_bytes hlegal hps, ?_, ?_, hend, ?_⟩
            · intro r hr
              rw [render_bytes] at hr
              rcases hcases with ⟨rfl, -⟩ | ⟨rfl, -⟩
              · have hcr : ch = cr := (List.cons.inj hr).1
                rw [hcr] at hch
                exact absurd hch (by decide)
              · rw [← (List.cons.inj hr).2]
                rfl
            · rw [render_bytes]
              exact hused.trans hread
            · rw [hescp, firstEscape_bytes, List.length_append, Option.map_map]
              congr 2
              funext i
              simp only [Function.comp_apply]
              omega
          · rw [if_neg hvalid]
            exact outcome_fail _ _
    · have hnil : NoLoneReturn (render []) := by
        intro r hr
        cases hr
      exact ⟨[], trivial, hnil, Reads.refl sp, hclose, by cases escp <;> rfl⟩
    · exact outcome_fail _ _

theorem multilineLitLoop_spec {sp : ScannerState} {fuel : ℕ} (hfuel : sp.rest.length < fuel) :
    Outcome (fun sp' ↦ ∃ used, Reads sp used sp' ∧ closing sp' squote = .closed) Reported
      (multilineLitLoop fuel sp) := by
  induction fuel generalizing sp with
  | zero => omega
  | succ fuel ih =>
    rw [multilineLitLoop]
    rcases hclose : closing sp squote with _ | _ | _
    · dsimp only
      rcases hget : scanGet sp with ⟨ch, sp'⟩
      cases ch with
      | none => exact outcome_fail _ _
      | some ch =>
        dsimp only
        by_cases hvalid : (isValidChar ch || decide (ch ∈ [space, tab, lf])) = true
        · rw [if_pos hvalid]
          obtain ⟨used, hused, hcases⟩ := scanGet_some hget
          have hlen := hused.length
          have hpos := used_pos hcases
          refine (ih (by omega : sp'.rest.length < fuel)).imp fun sp'' h ↦ ?_
          obtain ⟨used', hread, hend⟩ := h
          exact ⟨used ++ used', hused.trans hread, hend⟩
        · rw [if_neg hvalid]
          exact outcome_fail _ _
    · exact ⟨[], Reads.refl sp, hclose⟩
    · exact outcome_fail _ _

theorem litLoop_spec {sp : ScannerState} {fuel : ℕ} (hfuel : sp.rest.length < fuel) :
    Outcome (fun sp' ↦ ∃ used, Reads sp used sp' ∧ sp'.rest.head? = some squote) Reported
      (litLoop fuel sp) := by
  induction fuel generalizing sp with
  | zero => omega
  | succ fuel ih =>
    rw [litLoop]
    by_cases hquote : scanMatch sp squote
    · rw [if_pos hquote]
      exact ⟨[], Reads.refl sp, (scanMatch_iff (by decide)).mp hquote⟩
    · rw [if_neg hquote]
      rcases hget : scanGet sp with ⟨ch, sp'⟩
      cases ch with
      | none => exact outcome_fail _ _
      | some ch =>
        dsimp only
        by_cases hvalid : (isValidChar ch || decide (ch = tab)) = true
        · rw [if_pos hvalid]
          obtain ⟨used, hused, hcases⟩ := scanGet_some hget
          have hlen := hused.length
          have hpos := used_pos hcases
          refine (ih (by omega : sp'.rest.length < fuel)).imp fun sp'' h ↦ ?_
          obtain ⟨used', hread, hend⟩ := h
          exact ⟨used ++ used', hused.trans hread, hend⟩
        · rw [if_neg hvalid]
          exact outcome_fail _ _

/-- The newline that a multi-line string may start with. -/
def IsNewline (n : Bytes) : Prop := n = [] ∨ n = [lf] ∨ n = [cr, lf]

theorem trimNewline_reads (sp : ScannerState) : ∃ n, IsNewline n ∧ Reads sp n (trimNewline sp) := by
  unfold trimNewline
  by_cases hmatch : scanMatch sp lf
  · rw [if_pos hmatch]
    rcases hget : scanGet sp with ⟨ch, sp'⟩
    cases ch with
    | none =>
      obtain ⟨hnil, -⟩ := scanGet_none hget
      simp [scanMatch, hnil] at hmatch
    | some ch =>
      obtain ⟨used, hused, hcases⟩ := scanGet_some hget
      refine ⟨used, ?_, hused⟩
      rcases hcases with ⟨rfl, hcr⟩ | ⟨rfl, -⟩
      · have hrest : sp.rest = ch :: sp'.rest := hused.rest
        rw [scanMatch, hrest, List.head?_cons, Bool.or_eq_true, decide_eq_true_eq,
          Option.some.injEq] at hmatch
        rcases hmatch with rfl | hpair
        · exact .inr (.inl rfl)
        · simp only [List.take_succ_cons, Bool.and_eq_true, decide_eq_true_eq,
            List.cons.injEq] at hpair
          have hnext := hcr hpair.2.1
          cases hr : sp'.rest with
          | nil =>
            rw [hr] at hpair
            simp at hpair
          | cons x r =>
            rw [hr] at hpair hnext
            simp only [List.take_succ_cons, List.cons.injEq] at hpair
            exact absurd (congrArg some hpair.2.2.1) hnext
      · exact .inr (.inr rfl)
  · rw [if_neg hmatch]
    exact ⟨[], .inl rfl, Reads.refl sp⟩

theorem take_of_nmatch {sp : ScannerState} {quote : UInt8} {n : ℕ} (h : scanNmatch sp quote n) :
    sp.rest.take n = List.replicate n quote := by simpa [scanNmatch] using h

end Multiline

/-- The text of a string in a document: on one line, or on several ones. -/
def Quoted (tok : Token F) (ps : List Piece) (used : Bytes) : Prop :=
  (tok.toktyp = .string ∧ BasicText ps ∧ used = dquote :: render ps ++ [dquote]) ∨
    (tok.toktyp = .mlstring ∧ LegalText multiPlain ps ∧ ∃ n, IsNewline n ∧
      used = List.replicate 3 dquote ++ n ++ render ps ++ List.replicate 3 dquote)

theorem Quoted.spells {tok : Token F} {ps : List Piece} {used : Bytes} (h : Quoted tok ps used) :
    (tok.toktyp = .string ∨ tok.toktyp = .mlstring) ∧ ∃ plain, LegalText plain ps := by
  rcases h with ⟨ht, hps, -⟩ | ⟨ht, hps, -⟩
  · exact ⟨.inl ht, _, hps.legal⟩
  · exact ⟨.inr ht, _, hps⟩

theorem Quoted.length {tok : Token F} {ps : List Piece} {used : Bytes} (h : Quoted tok ps used) :
    (render ps).length + 2 ≤ used.length := by
  rcases h with ⟨-, -, rfl⟩ | ⟨-, -, n, -, rfl⟩
  · simp
  · simp only [List.length_append, List.length_replicate]
    omega

theorem mktoken_str {start sp : ScannerState} {used : Bytes} (h : Reads start used sp) (typ : Toktyp)
    (u : Value F) : (mktoken start typ (consumed start sp) u).str = used := h.take

theorem scanMultilineString_spec {sp : ScannerState} (h3 : scanNmatch sp dquote 3) :
    Outcome (fun r : Token F × ScannerState ↦ ∃ ps used, Quoted r.1 ps used ∧ r.1.str = render ps ∧
      r.1.u = escape (firstEscape ps) ∧ Reads sp used r.2) Reported (scanMultilineString sp) := by
  obtain ⟨n, hn, hnl⟩ := trimNewline_reads (sp.skip 3)
  have hopen : Reads sp (List.replicate 3 dquote) (sp.skip 3) := by
    have hskip := reads_skip sp (n := 3)
    rwa [take_of_nmatch h3] at hskip
  rw [scanMultilineString]
  refine (multilineLoop_spec (Reads.refl (trimNewline (sp.skip 3))) (Nat.lt_succ_self _) none).bind
    fun r _ hr ↦ ?_
  obtain ⟨ps, hps, -, hread, hclose, hescp⟩ := hr
  have hend : Reads r.2 (List.replicate 3 dquote) (r.2.skip 3) := by
    have hskip := reads_skip r.2 (n := 3)
    rwa [take_of_nmatch (closing_closed hclose)] at hskip
  refine ⟨ps, _, .inr ⟨rfl, hps, n, hn, rfl⟩, mktoken_str hread _ _, ?_,
    ((hopen.trans hnl).trans hread).trans hend⟩
  rw [mktoken, hescp]
  simp

theorem reads_one {sp : ScannerState} {c : UInt8} (h : sp.rest.head? = some c) :
    Reads sp [c] (sp.skip 1) := by
  refine ⟨?_⟩
  rw [ScannerState.skip, List.drop_one]
  exact (List.cons_head?_tail h).symm

theorem scanString_spec {sp : ScannerState} (hquote : sp.rest.head? = some dquote) :
    Outcome (fun r : Token F × ScannerState ↦ ∃ ps used, Quoted r.1 ps used ∧ r.1.str = render ps ∧
      r.1.u = escape (firstEscape ps) ∧ Reads sp used r.2) Reported (scanString sp) := by
  rw [scanString]
  by_cases h3 : scanNmatch sp dquote 3
  · rw [if_pos h3]
    exact scanMultilineString_spec h3
  · rw [if_neg h3]
    refine (stringLoop_spec (Reads.refl (sp.skip 1)) (Nat.lt_succ_self _) none).bind fun r _ hr ↦ ?_
    obtain ⟨ps, hps, hread, -, hend, hescp⟩ := hr
    refine ⟨ps, _, .inl ⟨rfl, hps, rfl⟩, mktoken_str hread _ _, ?_,
      ((reads_one hquote).trans hread).trans (reads_one hend)⟩
    rw [mktoken, hescp]
    simp

/-- The end of a string that the scanner takes: at any quote, it is cut out as a text in
pieces between its quotes; the normaliser then works in the bounds of the buffer of that
text, gives the bytes that the pieces stand for, and fails only where the digits of an escape
are no character, with an error of its own. -/
theorem scanString_normalizes {sp : ScannerState} (hquote : sp.rest.head? = some dquote) (pool : Pool) :
    Outcome (fun r : Token F × ScannerState ↦ ∃ ps used, Quoted r.1 ps used ∧
      sp.rest = used ++ r.2.rest ∧ r.1.str = render ps ∧
      (pool.top + (r.1.str.length + 1) ≤ pool.max →
        (∀ v, denote ps = some v → v.length ≤ r.1.str.length ∧
          parseNorm pool r.1 = .ok (v, { pool with top := pool.top + (r.1.str.length + 1) })) ∧
        (denote ps = none → Refused r.1.lineno (parseNorm pool r.1))))
      Reported (scanString sp) := by
  refine (scanString_spec hquote).imp fun r hr ↦ ?_
  obtain ⟨ps, used, hq, hstr, hu, hread⟩ := hr
  refine ⟨ps, used, hq, hread.rest, hstr, fun hpool ↦ ?_⟩
  obtain ⟨ht, plain, hlegal⟩ := hq.spells
  obtain ⟨hok, herr⟩ := parseNorm_spells ⟨hlegal, hstr, hu⟩ ht hpool
  refine ⟨fun v hv ↦ ⟨?_, hok v hv⟩, herr⟩
  rw [hstr]
  exact denote_length_le hlegal hv

/-- A line feed as an escape, in a string with a blank behind it. -/
theorem scanString_normalizes_newline :
    [dquote, backslash, 0x6e, dquote, space].head? = some dquote ∧
    Outcome (fun r : Token ℕ × ScannerState ↦ ∃ ps used, Quoted r.1 ps used ∧
      [dquote, backslash, 0x6e, dquote, space] = used ++ r.2.rest ∧ r.1.str = render ps ∧
      (0 + (r.1.str.length + 1) ≤ 15 →
        (∀ v, denote ps = some v → v.length ≤ r.1.str.length ∧
          parseNorm ⟨15, 0⟩ r.1 = .ok (v, ⟨15, 0 + (r.1.str.length + 1)⟩)) ∧
        (denote ps = none → Refused r.1.lineno (parseNorm ⟨15, 0⟩ r.1))))
      Reported (scanString ⟨[dquote, backslash, 0x6e, dquote, space], 1⟩) :=
  ⟨rfl, @scanString_normalizes ℕ ⟨[dquote, backslash, 0x6e, dquote, space], 1⟩ rfl ⟨15, 0⟩⟩

section Quoting

def hexDigit (n : ℕ) : UInt8 := if n < 10 then .ofNat (0x30 + n) else .ofNat (0x61 + (n - 10))

/-- A byte in a string: as it is, or as an escape. -/
def pieceOf (c : UInt8) : Piece :=
  if c = dquote ∨ c = backslash then .simple c
  else if isValidChar c ∨ c = tab then .byte c
  else .hex 0x75 [0x30, 0x30, hexDigit (c.toNat / 16), hexDigit (c.toNat % 16)]

/-- Bytes as a string of a document. -/
def quote (s : Bytes) : Bytes := dquote :: render (s.map pieceOf) ++ [dquote]

theorem pieceOf_bytes (c : UInt8) : (pieceOf c).bytes = some [c] := by
  have htable : ∀ c : Fin 256, (pieceOf (.ofNat c.val)).bytes = some [.ofNat c.val] := by
    decide +kernel
  simpa using htable ⟨c.toNat, c.toNat_lt⟩

theorem pieceOf_legal (c : UInt8) : (pieceOf c).Legal basicPlain ∧
    (∀ b n w, pieceOf c ≠ .ending b n w) ∧ (pieceOf c).render.head? ≠ some dquote := by
  unfold pieceOf
  by_cases hspecial : c = dquote ∨ c = backslash
  · rw [if_pos hspecial]
    refine ⟨?_, (fun _ _ _ h ↦ by cases h), by simp [Piece.render, backslash, dquote]⟩
    rcases hspecial with rfl | rfl
    · exact (by decide : dquote ∈ simpleEscapes)
    · exact (by decide : backslash ∈ simpleEscapes)
  · rw [if_neg hspecial]
    have hne : c ≠ dquote ∧ c ≠ backslash := not_or.mp hspecial
    by_cases hvalid : isValidChar c ∨ c = tab
    · rw [if_pos hvalid]
      refine ⟨⟨⟨hvalid.imp id .inr, hne.1⟩, ?_, hne.2⟩, (fun _ _ _ h ↦ by cases h), ?_⟩
      · rintro rfl
        revert hvalid
        decide
      · simpa [Piece.render] using hne.1
    · rw [if_neg hvalid]
      refine ⟨⟨by decide, rfl, ?_⟩, (fun _ _ _ h ↦ by cases h), ?_⟩
      · have htable : ∀ n : Fin 16, isHexChar (hexDigit n.val) := by decide +kernel
        have hlt : c.toNat / 16 < 16 := Nat.div_lt_of_lt_mul c.toNat_lt
        simp only [List.mem_cons, List.not_mem_nil, or_false]
        rintro d (rfl | rfl | rfl | rfl)
        · decide
        · decide
        · exact htable ⟨c.toNat / 16, hlt⟩
        · exact htable ⟨c.toNat % 16, Nat.mod_lt _ (by decide)⟩
      · simp [Piece.render, backslash, dquote]

theorem denote_quote (s : Bytes) : denote (s.map pieceOf) = some s := by
  induction s with
  | nil => rfl
  | cons c s ih =>
    rw [List.map_cons, denote, pieceOf_bytes, ih]
    rfl

theorem basicText_quote (s : Bytes) : BasicText (s.map pieceOf) := by
  induction s with
  | nil => exact basicText_nil
  | cons c s ih =>
    obtain ⟨hlegal, hne, -⟩ := pieceOf_legal c
    exact ih.cons hlegal hne

theorem render_head (s : Bytes) : (render (s.map pieceOf)).head? ≠ some dquote := by
  cases s with
  | nil => simp [render]
  | cons c s =>
    have hpos := render_pos (pieceOf c)
    have hhead := (pieceOf_legal c).2.2
    rw [List.map_cons, render_cons, List.head?_append]
    cases h : (pieceOf c).render with
    | nil => simp [h] at hpos
    | cons x r => simpa [h] using hhead

/-- Bytes that are written as a string are read back, whatever they are and whatever follows
the closing quote, but for an empty string before a third quote. -/
theorem quote_round_trip {sp : ScannerState} {s r : Bytes} (hrest : sp.rest = quote s ++ r)
    (hr : s = [] → r.head? ≠ some dquote) :
    ∃ tok : Token F, scanString sp = .ok (tok, { sp with rest := r }) ∧ tok.toktyp = .string ∧
      tok.lineno = sp.lineno ∧ tok.str.length + 2 = (quote s).length ∧
      ∀ pool : Pool, pool.top + (tok.str.length + 1) ≤ pool.max →
        parseNorm pool tok = .ok (s, { pool with top := pool.top + (tok.str.length + 1) }) := by
  have hrest' : sp.rest = dquote :: (render (s.map pieceOf) ++ dquote :: r) := by
    rw [hrest, quote]
    simp
  have h3 : scanNmatch sp dquote 3 = false := by
    rw [scanNmatch, decide_eq_false_iff_not, hrest']
    cases s with
    | nil =>
      cases r with
      | nil => decide
      | cons x r =>
        have hx : x ≠ dquote := fun hx ↦ hr rfl (by rw [hx]; rfl)
        simp [render, List.replicate, hx]
    | cons c s =>
      have hhead := render_head (c :: s)
      cases h : render ((c :: s).map pieceOf) with
      | nil =>
        have hpos := render_pos (pieceOf c)
        rw [List.map_cons, render_cons] at h
        simp [(List.append_eq_nil_iff.mp h).1] at hpos
      | cons x t =>
        rw [h] at hhead
        have hx : x ≠ dquote := by simpa using hhead
        simp [List.replicate, hx]
  have hstart : (sp.skip 1).rest = render (s.map pieceOf) ++ dquote :: r := by
    rw [ScannerState.skip, hrest', List.drop_succ_cons, List.drop_zero]
  have hfuel : (s.map pieceOf).length < (sp.skip 1).rest.length + 1 := by
    have := length_le_render (s.map pieceOf)
    rw [hstart, List.length_append]
    omega
  have hloop := stringLoop_text (Reads.refl (sp.skip 1)) (basicText_quote s) hstart hfuel none
  have hread : Reads (sp.skip 1) (render (s.map pieceOf)) { sp.skip 1 with rest := dquote :: r } :=
    ⟨hstart⟩
  let tok : Token F := mktoken (sp.skip 1) .string
    (consumed (sp.skip 1) { sp.skip 1 with rest := dquote :: r })
    (escape (firstEscape (s.map pieceOf)))
  have hstr : tok.str = render (s.map pieceOf) := hread.take
  refine ⟨tok, ?_, rfl, rfl, ?_, fun pool hpool ↦ ?_⟩
  · rw [scanString, h3, if_neg (by simp)]
    simp only [hloop, ok_bind, Option.none_or, List.length_nil, Nat.add_zero, Option.map_id']
    rfl
  · rw [hstr, quote]
    simp
  · have hspells : Spells tok basicPlain (s.map pieceOf) := ⟨(basicText_quote s).legal, hstr, rfl⟩
    exact (parseNorm_spells hspells (.inl rfl) hpool).1 s (denote_quote s)

/-- A quote and a line feed, before the end of the line. -/
theorem quote_round_trip_special :
    quote [dquote, lf] ++ [lf] = ascii "\"\\\"\\u000a\"\n" ∧
    ∃ tok : Token ℕ, scanString ⟨quote [dquote, lf] ++ [lf], 1⟩ = .ok (tok, ⟨[lf], 1⟩) ∧
      tok.toktyp = .string ∧ tok.lineno = 1 ∧
      tok.str.length + 2 = (quote [dquote, lf]).length ∧
      ∀ pool : Pool, pool.top + (tok.str.length + 1) ≤ pool.max →
        parseNorm pool tok = .ok ([dquote, lf], { pool with top := pool.top + (tok.str.length + 1) }) :=
  ⟨by decide, @quote_round_trip ℕ ⟨quote [dquote, lf] ++ [lf], 1⟩ [dquote, lf] [lf] rfl
    fun h ↦ by cases h⟩

end Quoting

end Xfrpc.Toml.Strings
