import Xfrpc.Toml.Lookup

namespace Xfrpc.Toml.Sections

open Foundations.Fallible Foundations.RoseTree Scan Toml.Lex Toml.Tree Parse Strings Tokens Growth
  Documents Lookup

variable {F : Type}

/-- `xfrpc_toml_count_array_sections`. -/
def tomlCountArraySections (root : Datum F) (name : Bytes) : ℕ :=
  match tomlGet root name with
  | some arr => if isArray arr then arr.children.length else 0
  | none => 0

/-- `xfrpc_toml_find_array_section`. -/
def tomlFindArraySection (root : Datum F) (name : Bytes) (index : ℤ) : Option (Datum F) :=
  if index < 0 then some root
  else
    (if name = [] then some root else tomlGet root name).bind fun arr ↦
      if isArray arr then arr.children[index.toNat]? else none

theorem tomlGet_none {top : Datum F} {ks : List Bytes} {name : Bytes}
    (hks : top.label.kind = .table ks) (hj : indexOf ks name = none) : tomlGet top name = none := by
  have hindex : ks.findIdx? (· = name) = none := hj
  rw [tomlGet, hks]
  dsimp only
  rw [hindex, Option.bind_none]

/-- An array of the root, with its number of elements. -/
def ArrayAt (top : Datum F) (name : Bytes) (j : ℕ) (arr : Datum F) : Prop :=
  Follows top [] [name] [j] ∧ top.at? [j] = some arr

theorem ArrayAt.get {top arr : Datum F} {name : Bytes} {j : ℕ} (h : ArrayAt top name j arr) :
    tomlGet top name = some arr := by
  obtain ⟨hfollow, harr⟩ := h
  cases hfollow with
  | cons hp hks hj hrest =>
    cases hrest
    rw [Rose.at?_nil, Option.some.injEq] at hp
    subst hp
    rw [tomlGet_follows (Rose.at?_nil _) hks hj]
    exact harr

/-- The array that a header `[[name]]` adds to, with the elements that it has had. -/
theorem findArray_opens (lineno : ℕ) (name : Bytes) {top : Datum F} (hwf : WellFormed top)
    (htop : isTable top) :
    Outcome (fun r ↦ WellFormed r.1 ∧ ∃ arr, ArrayAt r.1 name r.2 arr ∧
        (isArray arr → arr.children.length = tomlCountArraySections top name)) Reported
      (findArray lineno name top []) := by
  obtain ⟨ks, values, htab⟩ := isTable_iff.mp htop
  have hroot : top.at? [] = some top := Rose.at?_nil top
  rw [findArray, deref_eq hroot, ok_bind, tabFind_eq htab, ok_bind]
  cases hj : indexOf ks name with
  | some j =>
    obtain ⟨value, -, hvalue⟩ := child_at hwf hroot htab hj
    have harr : ArrayAt top name j value := ⟨.cons hroot htab.1 hj (.nil _), hvalue⟩
    refine ⟨hwf, value, harr, fun hisarr ↦ ?_⟩
    rw [tomlCountArraySections, harr.get]
    exact (if_pos hisarr).symm
  | none =>
    dsimp only
    refine iteInduction (fun _ ↦ outcome_fail _ _) fun _ ↦ ?_
    have hempty : WellFormed (mkarray [] : Datum F) :=
      mkarray_ok (fun _ hd ↦ by cases hd) (Nat.zero_le _)
    refine (tabAddAt_spec lineno hwf hroot htab hempty name).bind fun top' _ h ↦ ?_
    obtain ⟨hwf', -, hp', hvalue, hfollow⟩ := h
    have hlen := (htab.ok hwf).2.1
    rw [deref_eq hp', ok_bind, tabFind_eq ⟨rfl, rfl⟩, indexOf_append (indexOf_eq_none hj), ok_bind]
    refine ⟨hwf', mkarray [], ?_, fun _ ↦ ?_⟩
    · rw [← hlen] at hfollow hvalue
      exact ⟨hfollow, hvalue⟩
    · rw [tomlCountArraySections, tomlGet_none htab.1 hj]
      rfl

/-- What a header `[[name]]` opens: the element behind those that the array has had. -/
def Opens (top : Datum F) (name : Bytes) (r : Datum F × Position) : Prop :=
  ∃ j arr, r.2 = [j, tomlCountArraySections top name] ∧ ArrayAt r.1 name j arr ∧ isArray arr ∧
    arr.children.length = tomlCountArraySections top name + 1

theorem addArrayTable_opens (lineno : ℕ) (name : Bytes) {top : Datum F} (hwf : WellFormed top)
    (htop : isTable top) :
    Outcome (Opens top name) Reported (addArrayTable lineno [] name top) := by
  rw [addArrayTable, descendKeypart, ok_bind]
  dsimp only
  refine (findArray_opens lineno name hwf htop).bind fun r _ h ↦ ?_
  obtain ⟨top2, j⟩ := r
  obtain ⟨hwf2, arr, ⟨hfollow, harr⟩, hcount⟩ := h
  dsimp only at hwf2 hfollow harr ⊢
  rw [List.nil_append, deref_eq harr, ok_bind]
  refine iteInduction (fun _ ↦ outcome_fail _ _) fun hisarr ↦ ?_
  refine iteInduction (fun _ ↦ outcome_fail _ _) fun _ ↦ ?_
  have hisarr : isArray arr := by simpa using hisarr
  have hkind := isArray_iff.mp hisarr
  simp only [arrEmplace, hkind]
  by_cases hfull : arrayMax ≤ arr.children.length
  · rw [if_pos hfull, ok_bind]
    exact outcome_fail _ _
  · rw [if_neg hfull, ok_bind]
    have hgrown := addElem_ok hkind (hwf2.below harr) (mktable_ok false) (Nat.lt_of_not_le hfull)
    obtain ⟨-, hext3⟩ := replace_ok hwf2 harr hgrown
    refine ⟨j, .node arr.label (arr.children ++ [mktable false]), ?_,
      ⟨hfollow.mono hext3, ?_⟩, ?_, ?_⟩
    · rw [← hcount hisarr]
      rfl
    · dsimp only
      rw [Rose.at?_update, harr]
      rfl
    · exact isArray_iff.mpr hkind
    · rw [Rose.children_node, List.length_append, hcount hisarr]
      rfl

section Sections

variable (strtod : Bytes → Option F)

/-- What is read of a line `[[keys]]`, or `[keys]`, up to the end of its key. -/
def ReadsHeader (pp : Parser F) (keys : List Bytes) : Prop :=
  ∃ tok sp tok' sp' sp'' pool, scanKey strtod pp.scanner = .ok (tok, sp) ∧
    scanKey strtod sp = .ok (tok', sp') ∧
    parseKey strtod sp' pp.pool tok' = .ok (keys, sp'', pool)

theorem arrayHeader_adds {pp pp' : Parser F} {keys : List Bytes}
    (hstep : parseStep strtod pp = .ok (.llbrack, pp')) (hread : ReadsHeader strtod pp keys) :
    ∃ lineno, addArrayTable lineno keys.dropLast (keys.getLastD []) pp.toptab =
      .ok (pp'.toptab, pp'.curtab) := by
  obtain ⟨tok, sp, tok2, sp2, sp3, pool, hscan, hscan2, hkeys⟩ := hread
  rw [parseStep, hscan, ok_bind] at hstep
  dsimp only at hstep
  split_ifs at hstep with hend
  · obtain ⟨htyp, -⟩ := Prod.mk.inj (Except.ok.inj hstep)
    rcases hend with h | h <;> rw [h] at htyp <;> cases htyp
  · obtain ⟨pp1, hexpr, hstep⟩ := bind_eq_ok.mp hstep
    obtain ⟨⟨nl, sp4⟩, -, hstep⟩ := bind_eq_ok.mp hstep
    dsimp only at hstep
    split_ifs at hstep
    · obtain ⟨htyp, rfl⟩ := Prod.mk.inj (Except.ok.inj hstep)
      have hstd : tok.toktyp ≠ .lbrack := by rw [htyp]; decide
      rw [parseExpr, if_neg hstd, if_pos htyp, parseArrayTableExpr, parseTableExpr] at hexpr
      dsimp only at hexpr
      rw [hscan2, ok_bind] at hexpr
      dsimp only at hexpr
      rw [hkeys, ok_bind] at hexpr
      obtain ⟨⟨rb, sp5⟩, -, hexpr⟩ := bind_eq_ok.mp hexpr
      dsimp only at hexpr
      split_ifs at hexpr
      · cases hexpr
      · obtain ⟨⟨top, p⟩, hadd, hexpr⟩ := bind_eq_ok.mp hexpr
        cases hexpr
        exact ⟨_, hadd⟩
    · cases hstep

theorem isArray_later {d d' : Datum F} (h : Extends d d') (hd : isArray d) : isArray d' := by
  obtain ⟨s, hs, hlater⟩ := h [] d (Rose.at?_nil d)
  rw [Rose.at?_nil, Option.some.injEq] at hs
  subst hs
  have hkind := hlater.kind
  simp only [Rose.shape, isArray_iff.mp hd] at hkind
  refine isArray_iff.mpr ?_
  cases hk : d'.label.kind with
  | array => rfl
  | scalar v => simp only [hk] at hkind
  | table ks => simp only [hk] at hkind

/-- The section stays where its header has put it. -/
theorem opened_found {top top' : Datum F} {name : Bytes} {r : Datum F × Position}
    (h : Opens top name r) (hname : name ≠ []) (hlater : Extends r.1 top') :
    tomlFindArraySection top' name (tomlCountArraySections top name) = top'.at? r.2 := by
  obtain ⟨j, arr, hr, ⟨hfollow, harr⟩, hisarr, -⟩ := h
  obtain ⟨arr', harr', hext⟩ := hlater.at? harr
  have hat : ArrayAt top' name j arr' := ⟨hfollow.mono hlater, harr'⟩
  have hsplit : [j, tomlCountArraySections top name] =
      [j] ++ [tomlCountArraySections top name] := rfl
  rw [tomlFindArraySection, if_neg (Int.not_lt.mpr (Int.natCast_nonneg _)), if_neg hname, hat.get,
    Option.bind_some, if_pos (isArray_later hext hisarr), Int.toNat_natCast, hr, hsplit,
    Rose.at?_append, harr', Option.bind_some, Rose.at?_cons]
  cases arr'.children[tomlCountArraySections top name]? <;> simp

/-- A value of an array of tables, such as a proxy of the configuration. The line stands under
the header `[[name]]`, with no other header between them: it is found in the section with the
number of the header, whatever lines come before and behind. -/
theorem section_value_is_found {src name : Bytes} {typs lines typs' : List Toktyp} {typ : Toktyp}
    {pp pp1 pp2 pp3 pp4 : Parser F} (hbefore : Run strtod (parserInit src) typs pp)
    (hread : ReadsHeader strtod pp [name]) (hname : name ≠ [])
    (hheader : parseStep strtod pp = .ok (.llbrack, pp1)) (hlines : Run strtod pp1 lines pp2)
    (hstd : .lbrack ∉ lines) (harr : .llbrack ∉ lines)
    (hstep : parseStep strtod pp2 = .ok (typ, pp3)) (hkv : IsKeyvalue typ)
    (hbehind : Run strtod pp3 typs' pp4) :
    ∃ tok sp keys value sec, scanKey strtod pp2.scanner = .ok (tok, sp) ∧
      Assigns strtod { pp2 with scanner := sp } tok keys value ∧
      tomlFindArraySection pp4.toptab name (tomlCountArraySections pp.toptab name) = some sec ∧
      (Seekable keys → ∃ v, tomlSeek sec (dotted keys) = some v ∧ Extends value v) := by
  have hpp := (hbefore.spec strtod (parserInit_ok src)).parser
  have hs1 := (parseStep_spec strtod hpp).value hheader
  have hr2 := hlines.spec strtod hs1.parser
  have hs3 := (parseStep_spec strtod hr2.parser).value hstep
  have hr4 := hbehind.spec strtod hs3.parser
  obtain ⟨tab, htop, htable⟩ := hpp.root
  rw [Rose.at?_nil, Option.some.injEq] at htop
  subst htop
  obtain ⟨lineno, hadd⟩ := arrayHeader_adds strtod hheader hread
  have hopens := (addArrayTable_opens lineno name hpp.ok (isTable_iff.mpr htable)).value hadd
  have hlater := (hr2.later.trans hs3.later).trans hr4.later
  have hfind := opened_found hopens hname hlater
  obtain ⟨tok, sp, keys, value, sec, hscan, hassigns, hsec, hseek⟩ :=
    keyvalue_found strtod hr2.parser hstep hkv hbehind
  rw [hr2.current hstd harr] at hsec
  exact ⟨tok, sp, keys, value, sec, hscan, hassigns, hfind.trans hsec, hseek⟩

end Sections
/-- What a header reads as its key, where it gets that far. -/
def headerKeys (strtod : Bytes → Option F) (pp : Parser F) : Option (List Bytes) :=
  match scanKey strtod pp.scanner with
  | .error _ => none
  | .ok r =>
    match scanKey strtod r.2 with
    | .error _ => none
    | .ok r =>
      match parseKey strtod r.2 pp.pool r.1 with
      | .error _ => none
      | .ok r => some r.1

theorem readsHeader_of {strtod : Bytes → Option F} {pp : Parser F} {keys : List Bytes}
    (h : headerKeys strtod pp = some keys) : ReadsHeader strtod pp keys := by
  rw [headerKeys] at h
  cases hscan : scanKey strtod pp.scanner with
  | error e =>
    rw [hscan] at h
    cases h
  | ok r =>
    rw [hscan] at h
    dsimp only at h
    cases hscan2 : scanKey strtod r.2 with
    | error e =>
      rw [hscan2] at h
      cases h
    | ok r2 =>
      rw [hscan2] at h
      dsimp only at h
      cases hkeys : parseKey strtod r2.2 pp.pool r2.1 with
      | error e =>
        rw [hkeys] at h
        cases h
      | ok r3 =>
        rw [hkeys] at h
        cases h
        exact ⟨r.1, r.2, r2.1, r2.2, r3.2.1, r3.2.2, hscan, hscan2, hkeys⟩

/-- A document with one section of two lines between other lines. -/
def oneSection : Parser ℕ := parserInit (ascii "n=1\n[[p]]\na=true\nb=false\n[d]")

/-- The second line of the section. -/
theorem section_value_is_found_second :
    ∃ pp pp1 pp2 pp3 pp4 : Parser ℕ, Run noFloats oneSection [.lit] pp ∧
      parseStep noFloats pp = .ok (.llbrack, pp1) ∧ Run noFloats pp1 [.lit] pp2 ∧
      parseStep noFloats pp2 = .ok (.lit, pp3) ∧ Run noFloats pp3 [.lbrack] pp4 ∧
      ∃ tok sp keys value sec, scanKey noFloats pp2.scanner = .ok (tok, sp) ∧
        Assigns noFloats { pp2 with scanner := sp } tok keys value ∧
        tomlFindArraySection pp4.toptab [0x70] (tomlCountArraySections pp.toptab [0x70]) =
          some sec ∧
        (Seekable keys → ∃ v, tomlSeek sec (dotted keys) = some v ∧ Extends value v) := by
  let pp := nextLine noFloats oneSection
  let pp1 := nextLine noFloats pp
  let pp2 := nextLine noFloats pp1
  let pp3 := nextLine noFloats pp2
  have hfirst : parseStep noFloats oneSection = .ok (.lit, pp) :=
    parseStep_nextLine noFloats (by decide +kernel)
  have hheader : parseStep noFloats pp = .ok (.llbrack, pp1) :=
    parseStep_nextLine noFloats (by decide +kernel)
  have hline : parseStep noFloats pp1 = .ok (.lit, pp2) :=
    parseStep_nextLine noFloats (by decide +kernel)
  have hstep : parseStep noFloats pp2 = .ok (.lit, pp3) :=
    parseStep_nextLine noFloats (by decide +kernel)
  have hlast : parseStep noFloats pp3 = .ok (.lbrack, nextLine noFloats pp3) :=
    parseStep_nextLine noFloats (by decide +kernel)
  have hread : ReadsHeader noFloats pp [[0x70]] := readsHeader_of (by decide +kernel)
  have hbefore : Run noFloats oneSection [.lit] pp := .cons hfirst (.nil pp)
  have hlines : Run noFloats pp1 [.lit] pp2 := .cons hline (.nil pp2)
  have hbehind : Run noFloats pp3 [.lbrack] (nextLine noFloats pp3) := .cons hlast (.nil _)
  exact ⟨pp, pp1, pp2, pp3, nextLine noFloats pp3, hbefore, hheader, hlines, hstep, hbehind,
    section_value_is_found noFloats hbefore hread (by decide) hheader hlines (by decide) (by decide)
      hstep (.inr (.inr rfl)) hbehind⟩

end Xfrpc.Toml.Sections
