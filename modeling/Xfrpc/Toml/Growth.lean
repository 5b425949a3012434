import Xfrpc.Toml.Tokens

namespace Xfrpc.Toml.Growth

open Foundations.Fallible Foundations.RoseTree Scan Toml.Tree Pieces Strings Tokens

variable {F : Type}

/-- A node of a document: a scalar has no children, the keys of a table are different and one
for each child, and only tables are made by headers. -/
def NodeOk (x : Node F × ℕ) : Prop :=
  match x.1.kind with
  | .scalar v => ScalarOk v ∧ x.2 = 0 ∧ x.1.flag.stdexpr = false
  | .array => x.2 ≤ arrayMax ∧ x.1.flag.stdexpr = false
  | .table keys => keys.Nodup ∧ keys.length = x.2 ∧ x.2 ≤ tableMax

abbrev WellFormed (d : Datum F) : Prop := d.Each NodeOk

/-- What a later statement may do to a node: further elements, further keys behind those there
are, and the mark of an explicit table. -/
structure Later (x y : Node F × ℕ) : Prop where
  inlined : y.1.flag.inlined = x.1.flag.inlined
  stdexpr : y.1.flag.stdexpr = x.1.flag.stdexpr
  explicit : x.1.flag.explicit → y.1.flag.explicit
  kind : match x.1.kind, y.1.kind with
    | .scalar v, .scalar w => v = w
    | .array, .array => x.2 ≤ y.2
    | .table ks, .table ks' => ks <+: ks'
    | _, _ => False

theorem Later.refl (x : Node F × ℕ) : Later x x := by
  refine ⟨rfl, rfl, id, ?_⟩
  cases x.1.kind with
  | scalar v => rfl
  | array => exact Nat.le_refl _
  | table ks => exact List.prefix_refl ks

theorem Later.trans (x y z : Node F × ℕ) (h : Later x y) (h' : Later y z) : Later x z := by
  refine ⟨h'.inlined.trans h.inlined, h'.stdexpr.trans h.stdexpr, h'.explicit ∘ h.explicit, ?_⟩
  have hk := h.kind
  have hk' := h'.kind
  cases hx : x.1.kind <;> cases hy : y.1.kind <;> cases hz : z.1.kind <;>
    simp only [hx, hy, hz] at hk hk' ⊢
  · exact hk.trans hk'
  · exact hk.trans hk'
  · exact hk.trans hk'

/-- Every node stays where it is, and only grows. -/
abbrev Extends (d d' : Datum F) : Prop := Rose.Grows Later d d'

theorem Extends.refl (d : Datum F) : Extends d d := Rose.Grows.refl Later.refl d

theorem Extends.trans {d d' d'' : Datum F} (h : Extends d d') (h' : Extends d' d'') :
    Extends d d'' := Rose.Grows.trans Later.trans h h'

/-- A datum that is a table with these keys and values. -/
def TableOf (d : Datum F) (keys : List Bytes) (values : List (Datum F)) : Prop :=
  d.label.kind = .table keys ∧ d.children = values

theorem isTable_iff {d : Datum F} : isTable d ↔ ∃ keys values, TableOf d keys values := by
  unfold isTable TableOf
  constructor
  · intro h
    split at h
    · rename_i keys hk
      exact ⟨keys, d.children, hk, rfl⟩
    · cases h
  · rintro ⟨keys, values, hk, -⟩
    rw [hk]

theorem TableOf.ok {d : Datum F} {keys : List Bytes} {values : List (Datum F)}
    (h : TableOf d keys values) (hwf : WellFormed d) :
    keys.Nodup ∧ keys.length = values.length ∧ values.length ≤ tableMax := by
  have hroot := hwf.root
  rw [NodeOk, Rose.shape] at hroot
  simp only [h.1, h.2] at hroot
  exact hroot

/-- Where a key is, as `tab_find` sees it. -/
def indexOf (keys : List Bytes) (key : Bytes) : Option ℕ := keys.findIdx? (· = key)

theorem tabFind_eq {d : Datum F} {keys : List Bytes} {values : List (Datum F)}
    (h : TableOf d keys values) (key : Bytes) : tabFind d key = .ok (indexOf keys key) := by
  rw [tabFind, h.1]
  rfl

theorem indexOf_eq_some {keys : List Bytes} {key : Bytes} {j : ℕ} (h : indexOf keys key = some j) :
    keys[j]? = some key := by
  obtain ⟨hj, hkey, -⟩ := List.findIdx?_eq_some_iff_getElem.mp h
  rw [List.getElem?_eq_getElem hj]
  simpa using hkey

theorem indexOf_eq_none {keys : List Bytes} {key : Bytes} (h : indexOf keys key = none) :
    key ∉ keys := by
  intro hmem
  have := List.findIdx?_eq_none_iff.mp h key hmem
  simp at this

theorem indexOf_mono {keys keys' : List Bytes} {key : Bytes} {j : ℕ}
    (h : indexOf keys key = some j) (hpre : keys <+: keys') : indexOf keys' key = some j := by
  obtain ⟨t, rfl⟩ := hpre
  rw [indexOf, List.findIdx?_append]
  rw [indexOf] at h
  rw [h]
  rfl

theorem indexOf_append {keys : List Bytes} {key : Bytes} (h : key ∉ keys) :
    indexOf (keys ++ [key]) key = some keys.length := by
  have hnone : keys.findIdx? (· = key) = none := by
    rw [List.findIdx?_eq_none_iff]
    rintro x hx
    simpa using ne_of_mem_of_not_mem hx h
  rw [indexOf, List.findIdx?_append, hnone]
  simp

/-- Following keys through tables, from one position to another. -/
inductive Follows (top : Datum F) : Position → List Bytes → Position → Prop
  | nil (p : Position) : Follows top p [] p
  | cons {p q : Position} {key : Bytes} {keys ks : List Bytes} {tab : Datum F} {j : ℕ} :
      top.at? p = some tab → tab.label.kind = .table ks → indexOf ks key = some j →
      Follows top (p ++ [j]) keys q → Follows top p (key :: keys) q

theorem Follows.append {top : Datum F} {p q r : Position} {ks ks' : List Bytes}
    (h : Follows top p ks q) (h' : Follows top q ks' r) : Follows top p (ks ++ ks') r := by
  induction h with
  | nil p => exact h'
  | cons hp hk hj _ ih => exact .cons hp hk hj (ih h')

/-- A later document follows the same keys to the same places. -/
theorem Follows.mono {top top' : Datum F} {p q : Position} {keys : List Bytes}
    (h : Follows top p keys q) (hext : Extends top top') : Follows top' p keys q := by
  induction h with
  | nil p => exact .nil p
  | cons hp hk hj _ ih =>
    obtain ⟨tab', hp', hlater⟩ := hext _ _ hp
    have hkind := hlater.kind
    simp only [Rose.shape, hk] at hkind
    split at hkind
    · cases ‹Kind.table _ = _›
    · cases ‹Kind.table _ = _›
    · rename_i ks ks' heq hk'
      cases heq
      exact .cons hp' hk' (indexOf_mono hj hkind) ih
    · exact hkind.elim

section Operations

variable {lineno : ℕ} {top : Datum F}

theorem outcome_failKey {α : Type} {P : α → Prop} (lineno : ℕ) {before : String}
    (h : (ascii before).head?.getD 0x6f ≠ 0x6f) (key : Bytes) (after : String) :
    Outcome P Reported (failKey lineno before key after) := by
  refine text_ne ?_
  rw [List.append_assoc]
  cases hb : ascii before with
  | nil =>
    rw [hb] at h
    exact absurd rfl h
  | cons c r =>
    rw [hb] at h
    simpa using h

theorem deref_eq {p : Position} {d : Datum F} (h : top.at? p = some d) : deref top p = .ok d := by
  rw [deref, h]

theorem mktable_ok (stdexpr : Bool) : WellFormed (mktable stdexpr : Datum F) :=
  Rose.each_node.mpr ⟨⟨List.nodup_nil, rfl, Nat.zero_le _⟩, fun s hs ↦ by cases hs⟩

theorem mkarray_ok {elem : List (Datum F)} (h : ∀ d ∈ elem, WellFormed d)
    (hmax : elem.length ≤ arrayMax) : WellFormed (mkarray elem) :=
  Rose.each_node.mpr ⟨⟨hmax, rfl⟩, h⟩

theorem mktable_isTable (stdexpr : Bool) : isTable (mktable stdexpr : Datum F) := rfl

/-- The table with one more key. -/
theorem addKey_ok {d value : Datum F} {keys : List Bytes} {values : List (Datum F)} {key : Bytes}
    (h : TableOf d keys values) (hwf : WellFormed d) (hvalue : WellFormed value)
    (hkey : key ∉ keys) (hroom : values.length < tableMax) :
    WellFormed (.node ⟨flagOf d, .table (keys ++ [key])⟩ (values ++ [value]) : Datum F) ∧
      Extends d (.node ⟨flagOf d, .table (keys ++ [key])⟩ (values ++ [value])) := by
  obtain ⟨hnodup, hlen, -⟩ := h.ok hwf
  constructor
  · refine Rose.each_node.mpr ⟨⟨?_, ?_, ?_⟩, fun s hs ↦ ?_⟩
    · exact List.nodup_append.mpr ⟨hnodup, List.pairwise_singleton _ key,
        fun a ha b hb ↦ by rintro rfl; exact hkey (List.mem_singleton.mp hb ▸ ha)⟩
    · rw [List.length_append, List.length_append, hlen]
      rfl
    · rw [List.length_append]
      exact hroom
    · rw [← Rose.node_eta d, h.2] at hwf
      rcases List.mem_append.mp hs with hs | hs
      · exact (Rose.each_node.mp hwf).2 s hs
      · rwa [List.mem_singleton.mp hs]
  · have hd : d = .node ⟨flagOf d, .table keys⟩ values := by
      conv_lhs => rw [← Rose.node_eta d, h.2]
      rw [← h.1]
      rfl
    conv_lhs => rw [hd]
    exact Rose.Grows.extend Later.refl ⟨rfl, rfl, id, List.prefix_append keys [key]⟩

/-- A tree after one of its nodes has grown. -/
theorem update_ok {p : Position} {f : Datum F → Datum F} (hwf : WellFormed top)
    (hf : ∀ s, top.at? p = some s → WellFormed (f s) ∧ Extends s (f s)) :
    WellFormed (top.update f p) ∧ Extends top (top.update f p) :=
  ⟨hwf.update fun s hs ↦ (hf s hs).1, Rose.Grows.update Later.refl fun s hs ↦ (hf s hs).2⟩

/-- A tree in which a node that has grown takes the place of the old one. -/
theorem replace_ok (hwf : WellFormed top) {p : Position} {d d' : Datum F} (hp : top.at? p = some d)
    (h : WellFormed d' ∧ Extends d d') :
    WellFormed (top.update (fun _ ↦ d') p) ∧ Extends top (top.update (fun _ ↦ d') p) := by
  refine update_ok hwf fun s hs ↦ ?_
  rw [hp] at hs
  cases hs
  exact h

/-- What `tab_add` does at a pointer to a table. -/
theorem tabAddAt_spec (lineno : ℕ) (hwf : WellFormed top) {p : Position} {tab value : Datum F}
    (hp : top.at? p = some tab) {keys : List Bytes} {values : List (Datum F)}
    (htab : TableOf tab keys values) (hvalue : WellFormed value) (key : Bytes) :
    Outcome (fun top' ↦ WellFormed top' ∧ Extends top top' ∧
        top'.at? p = some (.node ⟨flagOf tab, .table (keys ++ [key])⟩ (values ++ [value])) ∧
        top'.at? (p ++ [values.length]) = some value ∧
        Follows top' p [key] (p ++ [values.length])) Reported
      (tabAddAt lineno top p key value) := by
  have hlen := (htab.ok (hwf.below hp)).2.1
  rw [tabAddAt, deref_eq hp, ok_bind, tabAdd, tabFind_eq htab, ok_bind, htab.1, htab.2]
  cases hj : indexOf keys key with
  | some j => exact outcome_fail _ _
  | none =>
    have hkey := indexOf_eq_none hj
    dsimp only
    by_cases hfull : tableMax ≤ keys.length
    · rw [if_pos hfull]
      exact outcome_fail _ _
    · rw [if_neg hfull]
      obtain ⟨hok, hext⟩ := addKey_ok htab (hwf.below hp) hvalue hkey (by omega)
      have hnew : (top.update (fun _ ↦ .node ⟨flagOf tab, .table (keys ++ [key])⟩
          (values ++ [value])) p).at? p =
            some (.node ⟨flagOf tab, .table (keys ++ [key])⟩ (values ++ [value])) := by
        rw [Rose.at?_update, hp]
        rfl
      obtain ⟨hwf', hext'⟩ := replace_ok hwf hp ⟨hok, hext⟩
      refine ⟨hwf', hext', hnew, ?_, .cons hnew rfl ?_ (.nil _)⟩
      · rw [Rose.at?_append]
        simp only [flagOf] at hnew
        rw [hnew, Option.bind_some, Rose.at?_cons, Rose.children_node, List.getElem?_concat_length]
        rfl
      · rw [← hlen]
        exact indexOf_append hkey

theorem setExplicit_ok {d : Datum F} (hwf : WellFormed d) :
    WellFormed (setExplicit d) ∧ Extends d (setExplicit d) := by
  constructor
  · refine Rose.each_node.mpr ⟨?_, fun s hs ↦ ?_⟩
    · have hroot := hwf.root
      rw [NodeOk, Rose.shape] at hroot
      exact hroot
    · rw [← Rose.node_eta d] at hwf
      exact (Rose.each_node.mp hwf).2 s hs
  · have hgrow : Extends (.node d.label d.children)
        (.node { d.label with flag := { d.label.flag with explicit := true } }
          (d.children ++ [])) :=
      Rose.Grows.extend Later.refl ⟨rfl, rfl, fun _ ↦ rfl, by
        dsimp only
        cases d.label.kind with
        | scalar v => rfl
        | array => simp
        | table ks => exact List.prefix_refl ks⟩
    rwa [Rose.node_eta, List.append_nil] at hgrow

/-- A pointer to a table. -/
def IsTableAt (top : Datum F) (p : Position) : Prop :=
  ∃ tab, top.at? p = some tab ∧ ∃ keys values, TableOf tab keys values

theorem IsTableAt.mono {top' : Datum F} {p : Position} (h : IsTableAt top p)
    (hext : Extends top top') : IsTableAt top' p := by
  obtain ⟨tab, hp, keys, values, htab⟩ := h
  obtain ⟨tab', hp', hlater⟩ := hext p tab hp
  have hkind := hlater.kind
  simp only [Rose.shape, htab.1] at hkind
  split at hkind
  · cases ‹Kind.table _ = _›
  · cases ‹Kind.table _ = _›
  · exact ⟨tab', hp', _, _, ‹_›, rfl⟩
  · exact hkind.elim

theorem isTableAt_of {p : Position} {d : Datum F} (hp : top.at? p = some d) (h : isTable d) :
    IsTableAt top p := ⟨d, hp, isTable_iff.mp h⟩

theorem extends_explicit (hwf : WellFormed top) (p : Position) :
    WellFormed (top.update setExplicit p) ∧ Extends top (top.update setExplicit p) :=
  update_ok hwf fun _ hs ↦ setExplicit_ok (hwf.below hs)

/-- The value of a key that a table has. -/
theorem child_at (hwf : WellFormed top) {p : Position} {tab : Datum F} (hp : top.at? p = some tab)
    {keys : List Bytes} {values : List (Datum F)} (htab : TableOf tab keys values) {key : Bytes}
    {j : ℕ} (hj : indexOf keys key = some j) :
    ∃ value, values[j]? = some value ∧ top.at? (p ++ [j]) = some value := by
  have hlen := (htab.ok (hwf.below hp)).2.1
  have hlt : j < values.length := hlen ▸ (List.getElem?_eq_some_iff.mp (indexOf_eq_some hj)).1
  refine ⟨values[j], List.getElem?_eq_getElem hlt, ?_⟩
  rw [Rose.at?_append, hp, Option.bind_some, Rose.at?_cons, htab.2, List.getElem?_eq_getElem hlt]
  exact Rose.at?_nil _

/-- What the operations on a document give back: a document that has grown, and a pointer to
a table in it. -/
structure Grown (top : Datum F) (r : Datum F × Position) : Prop where
  ok : WellFormed r.1
  later : Extends top r.1
  table : IsTableAt r.1 r.2

theorem Grown.after {top' : Datum F} {r : Datum F × Position} (hext : Extends top top')
    (h : Grown top' r) : Grown top r := ⟨h.ok, hext.trans h.later, h.table⟩

theorem descendKeypart_spec (lineno : ℕ) (stdtabexpr : Bool) (keys : List Bytes)
    (hwf : WellFormed top) {p : Position} (hp : IsTableAt top p) :
    Outcome (Grown top) Reported (descendKeypart lineno stdtabexpr keys top p) := by
  induction keys generalizing top p with
  | nil => exact ⟨hwf, Extends.refl top, hp⟩
  | cons key keys ih =>
    obtain ⟨tab, hp, ks, values, htab⟩ := hp
    rw [descendKeypart, deref_eq hp, ok_bind, tabFind_eq htab, ok_bind]
    cases hj : indexOf ks key with
    | none =>
      dsimp only
      rw [htab.2]
      refine (tabAddAt_spec lineno hwf hp htab (mktable_ok stdtabexpr) key).bind fun top' _ h ↦ ?_
      obtain ⟨hwf', hext, -, hvalue, -⟩ := h
      exact (ih hwf' (isTableAt_of hvalue rfl)).imp fun r hr ↦ hr.after hext
    | some j =>
      obtain ⟨value, -, hvalue⟩ := child_at hwf hp htab hj
      dsimp only
      rw [deref_eq hvalue, ok_bind]
      refine iteInduction (fun ht ↦ ih hwf (isTableAt_of hvalue ht)) fun _ ↦ ?_
      refine iteInduction (fun _ ↦ ?_) fun _ ↦ outcome_failKey _ (by decide) _ _
      cases hlast : value.children.getLast? with
      | none => exact outcome_failKey _ (by decide) _ _
      | some last =>
        dsimp only
        refine iteInduction (fun ht ↦ ih hwf ?_) fun _ ↦ outcome_failKey _ (by decide) _ _
        refine isTableAt_of (d := last) ?_ ht
        have hsplit : p ++ [j, value.children.length - 1] =
            p ++ [j] ++ [value.children.length - 1] := by simp
        rw [hsplit, Rose.at?_append, hvalue, Option.bind_some, Rose.at?_cons,
          ← List.getLast?_eq_getElem?, hlast]
        exact Rose.at?_nil _

theorem addStdTable_spec (lineno : ℕ) (keys : List Bytes) (last : Bytes) (hwf : WellFormed top)
    (htop : IsTableAt top []) :
    Outcome (Grown top) Reported (addStdTable lineno keys last top) := by
  rw [addStdTable]
  refine (descendKeypart_spec lineno true keys hwf htop).bind fun r _ h ↦ ?_
  obtain ⟨top1, p⟩ := r
  obtain ⟨hwf1, hext1, tab, hp, ks, values, htab⟩ := h
  dsimp only at hwf1 hext1 hp ⊢
  rw [deref_eq hp, ok_bind, tabFind_eq htab, ok_bind]
  cases hj : indexOf ks last with
  | none =>
    dsimp only
    refine iteInduction (fun _ ↦ outcome_fail _ _) fun _ ↦ ?_
    rw [htab.2]
    refine (tabAddAt_spec lineno hwf1 hp htab (mktable_ok true) last).bind fun top2 _ h ↦ ?_
    obtain ⟨hwf2, hext2, -, hvalue, -⟩ := h
    obtain ⟨hwf3, hext3⟩ := extends_explicit hwf2 (p ++ [values.length])
    exact ⟨hwf3, (hext1.trans hext2).trans hext3, (isTableAt_of hvalue rfl).mono hext3⟩
  | some j =>
    obtain ⟨value, -, hvalue⟩ := child_at hwf1 hp htab hj
    dsimp only
    rw [deref_eq hvalue, ok_bind]
    refine iteInduction (fun _ ↦ outcome_fail _ _) fun _ ↦ ?_
    refine iteInduction (fun _ ↦ outcome_fail _ _) fun hstd ↦ ?_
    -- only tables carry the flag of a header
    have htable : isTable value := by
      have hroot := (hwf1.below hvalue).root
      have hflag : value.label.flag.stdexpr = true := by simpa [flagOf] using hstd
      rw [NodeOk, Rose.shape] at hroot
      rw [isTable]
      dsimp only at hroot
      split at hroot
      · rw [hroot.2.2] at hflag
        cases hflag
      · rw [hroot.2] at hflag
        cases hflag
      · rename_i keys hk
        rw [hk]
    obtain ⟨hwf3, hext3⟩ := extends_explicit hwf1 (p ++ [j])
    exact ⟨hwf3, hext1.trans hext3, (isTableAt_of hvalue htable).mono hext3⟩

theorem findArray_spec (lineno : ℕ) (last : Bytes) (hwf : WellFormed top) {p : Position}
    (hp : IsTableAt top p) :
    Outcome (fun r ↦ WellFormed r.1 ∧ Extends top r.1 ∧ ∃ arr, r.1.at? (p ++ [r.2]) = some arr)
      Reported (findArray lineno last top p) := by
  obtain ⟨tab, hp, ks, values, htab⟩ := hp
  rw [findArray, deref_eq hp, ok_bind, tabFind_eq htab, ok_bind]
  cases hj : indexOf ks last with
  | some j =>
    obtain ⟨value, -, hvalue⟩ := child_at hwf hp htab hj
    exact ⟨hwf, Extends.refl top, value, hvalue⟩
  | none =>
    dsimp only
    refine iteInduction (fun _ ↦ outcome_fail _ _) fun _ ↦ ?_
    have harr : WellFormed (mkarray [] : Datum F) :=
      mkarray_ok (fun _ hd ↦ by cases hd) (Nat.zero_le _)
    refine (tabAddAt_spec lineno hwf hp htab harr last).bind fun top' _ h ↦ ?_
    obtain ⟨hwf', hext, hp', hvalue, -⟩ := h
    have hlen := (htab.ok (hwf.below hp)).2.1
    rw [deref_eq hp', ok_bind, tabFind_eq ⟨rfl, rfl⟩, indexOf_append (indexOf_eq_none hj), ok_bind]
    refine ⟨hwf', hext, mkarray [], ?_⟩
    rw [hlen]
    exact hvalue

theorem isArray_iff {d : Datum F} : isArray d ↔ d.label.kind = .array := by
  unfold isArray
  constructor
  · intro h
    split at h
    · assumption
    · cases h
  · intro h
    rw [h]

/-- An array with one more element. -/
theorem addElem_ok {arr elem : Datum F} (hkind : arr.label.kind = .array) (hwf : WellFormed arr)
    (helem : WellFormed elem) (hroom : arr.children.length < arrayMax) :
    WellFormed (.node arr.label (arr.children ++ [elem]) : Datum F) ∧
      Extends arr (.node arr.label (arr.children ++ [elem])) := by
  have hroot := hwf.root
  rw [NodeOk, Rose.shape] at hroot
  simp only [hkind] at hroot
  constructor
  · refine Rose.each_node.mpr ⟨?_, fun s hs ↦ ?_⟩
    · rw [NodeOk]
      simp only [hkind]
      exact ⟨by rw [List.length_append]; exact hroom, hroot.2⟩
    · rw [← Rose.node_eta arr] at hwf
      rcases List.mem_append.mp hs with hs | hs
      · exact (Rose.each_node.mp hwf).2 s hs
      · rwa [List.mem_singleton.mp hs]
  · have hgrow : Extends (.node arr.label arr.children)
        (.node arr.label (arr.children ++ [elem])) :=
      Rose.Grows.extend Later.refl ⟨rfl, rfl, id, by
        simp only [hkind, List.length_append]
        exact Nat.le_add_right _ _⟩
    rwa [Rose.node_eta] at hgrow

theorem addArrayTable_spec (lineno : ℕ) (keys : List Bytes) (last : Bytes) (hwf : WellFormed top)
    (htop : IsTableAt top []) :
    Outcome (Grown top) Reported (addArrayTable lineno keys last top) := by
  rw [addArrayTable]
  refine (descendKeypart_spec lineno true keys hwf htop).bind fun r _ h ↦ ?_
  obtain ⟨top1, p⟩ := r
  obtain ⟨hwf1, hext1, hp⟩ := h
  dsimp only at hwf1 hext1 hp ⊢
  refine (findArray_spec lineno last hwf1 hp).bind fun r _ h ↦ ?_
  obtain ⟨top2, j⟩ := r
  obtain ⟨hwf2, hext2, arr, harr⟩ := h
  dsimp only at hwf2 hext2 harr ⊢
  rw [deref_eq harr, ok_bind]
  refine iteInduction (fun _ ↦ outcome_fail _ _) fun hisarr ↦ ?_
  refine iteInduction (fun _ ↦ outcome_fail _ _) fun _ ↦ ?_
  have hkind : arr.label.kind = .array := isArray_iff.mp (by simpa using hisarr)
  simp only [arrEmplace, hkind]
  by_cases hfull : arrayMax ≤ arr.children.length
  · rw [if_pos hfull, ok_bind]
    exact outcome_fail _ _
  · rw [if_neg hfull, ok_bind]
    obtain ⟨hok, hgrow⟩ := addElem_ok hkind (hwf2.below harr) (mktable_ok false)
      (Nat.lt_of_not_le hfull)
    obtain ⟨hwf3, hext3⟩ := replace_ok hwf2 harr ⟨hok, hgrow⟩
    refine ⟨hwf3, (hext1.trans hext2).trans hext3, isTableAt_of (d := mktable false) ?_ rfl⟩
    have hsplit : p ++ [j, arr.children.length] = p ++ [j] ++ [arr.children.length] := by simp
    dsimp only
    rw [hsplit, Rose.at?_append, Rose.at?_update, harr, Option.map_some, Option.bind_some,
      Rose.at?_cons, Rose.children_node, List.getElem?_concat_length]
    exact Rose.at?_nil _

theorem locate_spec (lineno i : ℕ) (keys : List Bytes) (hwf : WellFormed top) {p : Position}
    (hp : IsTableAt top p) :
    Outcome (fun r ↦ Grown top r ∧ Follows r.1 p keys r.2) Reported
      (locate lineno i keys top p) := by
  induction keys generalizing i top p with
  | nil => exact ⟨⟨hwf, Extends.refl top, hp⟩, .nil p⟩
  | cons key keys ih =>
    obtain ⟨tab, hp, ks, values, htab⟩ := hp
    rw [locate, deref_eq hp, ok_bind, tabFind_eq htab, ok_bind]
    cases hj : indexOf ks key with
    | none =>
      dsimp only
      refine iteInduction (fun _ ↦ outcome_fail _ _) fun _ ↦ ?_
      rw [htab.2]
      refine (tabAddAt_spec lineno hwf hp htab (mktable_ok false) key).bind fun top' _ h ↦ ?_
      obtain ⟨hwf', hext, -, hvalue, hfollow⟩ := h
      refine (ih (i + 1) hwf' (isTableAt_of hvalue rfl)).imp fun r hr ↦ ⟨hr.1.after hext, ?_⟩
      exact (hfollow.mono hr.1.later).append hr.2
    | some j =>
      obtain ⟨value, -, hvalue⟩ := child_at hwf hp htab hj
      dsimp only
      rw [deref_eq hvalue, ok_bind]
      refine iteInduction (fun ht ↦ ?_) fun _ ↦ ?_
      · have hfollow : Follows top p [key] (p ++ [j]) := .cons hp htab.1 hj (.nil _)
        refine (ih (i + 1) hwf (isTableAt_of hvalue ht)).imp fun r hr ↦ ⟨hr.1, ?_⟩
        exact (hfollow.mono hr.1.later).append hr.2
      · exact iteInduction (fun _ ↦ outcome_failKey _ (by decide) _ _)
          fun _ ↦ outcome_failKey _ (by decide) _ _

theorem locateTable_spec (lineno : ℕ) (keys : List Bytes) (hwf : WellFormed top) {p : Position}
    (hp : IsTableAt top p) :
    Outcome (fun r ↦ Grown top r ∧ Follows r.1 p keys r.2) Reported
      (locateTable lineno keys top p) := by
  rw [locateTable]
  refine (locate_spec lineno 0 keys hwf hp).bind fun r _ h ↦ ?_
  obtain ⟨tab, htab, -⟩ := h.1.table
  dsimp only
  rw [deref_eq htab, ok_bind]
  refine iteInduction (fun _ ↦ outcome_fail _ _) fun _ ↦ ?_
  exact iteInduction (fun _ ↦ outcome_fail _ _) fun _ ↦ h

theorem locateInline_spec (lineno : ℕ) (keys : List Bytes) (hwf : WellFormed top)
    (htop : IsTableAt top []) :
    Outcome (Grown top) Reported (locateInline lineno keys top) := by
  rw [locateInline]
  refine (descendKeypart_spec lineno false keys hwf htop).bind fun r _ h ↦ ?_
  obtain ⟨top1, p⟩ := r
  obtain ⟨tab, htab, -⟩ := h.table
  dsimp only at htab ⊢
  rw [deref_eq htab, ok_bind]
  refine iteInduction (fun _ ↦ outcome_fail _ _) fun _ ↦ ?_
  obtain ⟨hwf', hext⟩ := extends_explicit h.ok p
  exact ⟨hwf', h.later.trans hext, h.table.mono hext⟩

end Operations

end Xfrpc.Toml.Growth
