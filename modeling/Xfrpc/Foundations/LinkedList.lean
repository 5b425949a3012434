import Mathlib.Data.List.Basic
import Mathlib.Logic.Function.Basic

namespace Xfrpc.Foundations.LinkedList

variable {α : Type}

/-- A cell with a pointer to an element: the head of the list, or a field of an
element. -/
inductive Ref (α : Type)
  | head
  | next (a : α)
  deriving DecidableEq, Repr

/-- A list of elements that carry the pointers themselves: to the next one, and back to
the cell that points to them. -/
structure Links (α : Type) where
  head : Option α
  next : α → Option α
  prevNext : α → Option (Ref α)

def Links.empty : Links α := ⟨none, fun _ ↦ none, fun _ ↦ none⟩

def Links.load (L : Links α) : Ref α → Option α
  | .head => L.head
  | .next a => L.next a

/-- The loop that walks along the pointers to the first element with `p`; none is too
little fuel. -/
def Links.scan (L : Links α) (p : α → Bool) : ℕ → Option α → Option (Option α)
  | 0, _ => none
  | _ + 1, none => some none
  | n + 1, some a => if p a then some (some a) else L.scan p n (L.next a)

/-- From the cell `r` on, the elements of `l` follow one another, each with the pointer
back. -/
def Links.Chain (L : Links α) : Ref α → List α → Prop
  | r, [] => L.load r = none
  | r, a :: l => L.load r = some a ∧ L.prevNext a = some r ∧ L.Chain (.next a) l

structure Links.WellLinked (L : Links α) (l : List α) : Prop where
  chain : L.Chain .head l
  nodup : l.Nodup
  linked : ∀ a, a ∈ l ↔ L.prevNext a ≠ none

theorem next_ne_head (a : α) : Ref.next a ≠ .head := by
  intro h
  cases h

theorem next_eq_load (L : Links α) (a : α) : L.next a = L.load (.next a) := rfl

section Shape

variable {L L' : Links α} {r : Ref α} {l : List α} {a c : α}

/-- Only the cells and the pointers back of the chain itself matter. -/
theorem Links.Chain.congr (h : L.Chain r l) (hr : L'.load r = L.load r)
    (hnext : ∀ x ∈ l, L'.load (.next x) = L.load (.next x))
    (hprev : ∀ x ∈ l, L'.prevNext x = L.prevNext x) : L'.Chain r l := by
  induction l generalizing r with
  | nil => exact hr.trans h
  | cons x l ih =>
    obtain ⟨hload, hback, hrest⟩ := h
    refine ⟨hr.trans hload, (hprev x List.mem_cons_self).trans hback, ?_⟩
    exact ih hrest (hnext x List.mem_cons_self) (fun y hy ↦ hnext y (List.mem_cons_of_mem _ hy))
      (fun y hy ↦ hprev y (List.mem_cons_of_mem _ hy))

theorem Links.Chain.prevNext_mem {x : α} (h : L.Chain r (x :: l)) (hnd : (x :: l).Nodup)
    (ha : a ∈ l) : ∃ y ∈ x :: l, y ≠ a ∧ L.prevNext a = some (.next y) := by
  induction l generalizing r x with
  | nil => exact absurd ha List.not_mem_nil
  | cons b l ih =>
    obtain ⟨-, -, hrest⟩ := h
    obtain ⟨hx, hl⟩ := List.nodup_cons.mp hnd
    obtain rfl | ha := List.mem_cons.mp ha
    · exact ⟨x, List.mem_cons_self, fun he ↦ hx (he ▸ List.mem_cons_self), hrest.2.1⟩
    · obtain ⟨y, hy, hya, hprev⟩ := ih hrest hl ha
      exact ⟨y, List.mem_cons_of_mem _ hy, hya, hprev⟩

theorem Links.Chain.load_mem (h : L.Chain r l) (hc : L.load r = some c) : c ∈ l := by
  cases l with
  | nil =>
    have hnone : L.load r = none := h
    rw [hnone] at hc
    cases hc
  | cons b l =>
    obtain rfl := Option.some.inj (h.1.symm.trans hc)
    exact List.mem_cons_self

theorem Links.Chain.next_mem (h : L.Chain r l) (ha : a ∈ l) (hc : L.next a = some c) : c ∈ l := by
  induction l generalizing r with
  | nil => exact absurd ha List.not_mem_nil
  | cons b l ih =>
    obtain ⟨-, -, hrest⟩ := h
    obtain rfl | ha := List.mem_cons.mp ha
    · exact List.mem_cons_of_mem _ (Links.Chain.load_mem hrest hc)
    · exact List.mem_cons_of_mem _ (ih hrest ha)

/-- A chain that hangs on another cell now: only its first element points back to it. -/
theorem Links.Chain.move [DecidableEq α] (h : L.Chain r l) (hnd : l.Nodup) {r' : Ref α}
    (hload : L'.load r' = L.load r) (hnext : ∀ x ∈ l, L'.load (.next x) = L.load (.next x))
    (hprev : ∀ x ∈ l, L'.prevNext x = if L.load r = some x then some r' else L.prevNext x) :
    L'.Chain r' l := by
  cases l with
  | nil => exact hload.trans h
  | cons b l =>
    obtain ⟨hb, -, hrest⟩ := h
    obtain ⟨hbl, -⟩ := List.nodup_cons.mp hnd
    refine ⟨hload.trans hb, ?_, ?_⟩
    · rw [hprev b List.mem_cons_self, if_pos hb]
    · apply Links.Chain.congr hrest (hnext b List.mem_cons_self)
        (fun x hx ↦ hnext x (List.mem_cons_of_mem _ hx))
      intro x hx
      have hne : L.load r ≠ some x := by
        rw [hb]
        intro he
        exact hbl (Option.some.inj he ▸ hx)
      rw [hprev x (List.mem_cons_of_mem _ hx), if_neg hne]

theorem Links.Chain.scan (h : L.Chain r l) (p : α → Bool) {n : ℕ} (hn : l.length < n) :
    L.scan p n (L.load r) = some (l.find? p) := by
  obtain ⟨n, rfl⟩ : ∃ k, n = k + 1 := ⟨n - 1, by omega⟩
  induction l generalizing r n with
  | nil =>
    have hnone : L.load r = none := h
    rw [hnone]
    rfl
  | cons a l ih =>
    obtain ⟨hload, -, hrest⟩ := h
    rw [hload, Links.scan]
    by_cases hp : p a = true
    · rw [if_pos hp, List.find?_cons_of_pos hp]
    · rw [List.length_cons] at hn
      obtain ⟨k, rfl⟩ : ∃ k, n = k + 1 := ⟨n - 1, by omega⟩
      rw [if_neg hp, List.find?_cons_of_neg hp, next_eq_load]
      exact ih hrest k (by omega)

theorem Links.WellLinked.nil : (Links.empty : Links α).WellLinked [] where
  chain := rfl
  nodup := List.nodup_nil
  linked _ := iff_of_false List.not_mem_nil (fun h ↦ h rfl)

theorem Links.WellLinked.prevNext_ne (h : L.WellLinked l) (ha : L.prevNext a = some r) :
    r ≠ .next a := by
  have hmem : a ∈ l := (h.linked a).mpr (by rw [ha]; exact Option.some_ne_none _)
  cases l with
  | nil => exact absurd hmem List.not_mem_nil
  | cons x l =>
    obtain rfl | hal := List.mem_cons.mp hmem
    · have hback := h.chain.2.1
      rw [ha] at hback
      rw [Option.some.inj hback]
      exact (next_ne_head a).symm
    · obtain ⟨y, -, hya, hback⟩ := Links.Chain.prevNext_mem h.chain h.nodup hal
      rw [ha] at hback
      rw [Option.some.inj hback]
      exact fun he ↦ hya (Ref.next.inj he)

end Shape

variable [DecidableEq α]

def Links.store (L : Links α) (r : Ref α) (v : Option α) : Links α :=
  match r with
  | .head => { L with head := v }
  | .next a => { L with next := Function.update L.next a v }

def Links.setPrev (L : Links α) (e : Option α) (r : Option (Ref α)) : Links α :=
  match e with
  | none => L
  | some a => { L with prevNext := Function.update L.prevNext a r }

def Links.pushFront (L : Links α) (a : α) : Links α :=
  let L₁ := L.store (.next a) L.head
  let L₂ := L₁.setPrev (L₁.next a) (some (.next a))
  let L₃ := L₂.store .head (some a)
  L₃.setPrev (some a) (some .head)

def Links.unlink (L : Links α) (a : α) : Links α :=
  match L.prevNext a with
  | none => L
  | some r =>
    let L₁ := L.store r (L.next a)
    let L₂ := L₁.setPrev (L₁.next a) (some r)
    let L₃ := L₂.store (.next a) none
    L₃.setPrev (some a) none

/-- The pointers of an element that was just made. -/
def Links.clear (L : Links α) (a : α) : Links α := (L.store (.next a) none).setPrev (some a) none

section Cells

variable (L : Links α)

@[simp] theorem load_store (r q : Ref α) (v : Option α) :
    (L.store r v).load q = if q = r then v else L.load q := by
  cases r with
  | head =>
    cases q with
    | head => rfl
    | next b => rfl
  | next a =>
    cases q with
    | head => rfl
    | next b =>
      simp only [Links.store, Links.load, Function.update_apply, Ref.next.injEq]

@[simp] theorem prevNext_store (r : Ref α) (v : Option α) (c : α) :
    (L.store r v).prevNext c = L.prevNext c := by
  cases r with
  | head => rfl
  | next a => rfl

@[simp] theorem load_setPrev (e : Option α) (r : Option (Ref α)) (q : Ref α) :
    (L.setPrev e r).load q = L.load q := by
  cases e with
  | none => rfl
  | some a =>
    cases q with
    | head => rfl
    | next b => rfl

@[simp] theorem prevNext_setPrev (e : Option α) (r : Option (Ref α)) (c : α) :
    (L.setPrev e r).prevNext c = if e = some c then r else L.prevNext c := by
  cases e with
  | none => rfl
  | some a =>
    simp only [Links.setPrev, Function.update_apply, Option.some.injEq, eq_comm]

theorem load_pushFront (a : α) (q : Ref α) :
    (L.pushFront a).load q =
      if q = .head then some a else if q = .next a then L.head else L.load q := by
  simp only [Links.pushFront, load_setPrev, load_store]

theorem prevNext_pushFront (a c : α) :
    (L.pushFront a).prevNext c =
      if a = c then some .head else if L.head = some c then some (.next a) else L.prevNext c := by
  have hnext : (L.store (.next a) L.head).next a = L.head := by
    rw [next_eq_load, load_store, if_pos rfl]
  simp only [Links.pushFront, prevNext_setPrev, prevNext_store, hnext, Option.some.injEq]

variable {L} {a : α} {r : Ref α}

theorem unlink_of_none (h : L.prevNext a = none) : L.unlink a = L := by
  rw [Links.unlink, h]

theorem load_unlink (h : L.prevNext a = some r) (q : Ref α) :
    (L.unlink a).load q =
      if q = .next a then none else if q = r then L.next a else L.load q := by
  rw [Links.unlink, h]
  simp only [load_setPrev, load_store]

theorem prevNext_unlink (h : L.prevNext a = some r) (hr : r ≠ .next a) (c : α) :
    (L.unlink a).prevNext c =
      if a = c then none else if L.next a = some c then some r else L.prevNext c := by
  have hnext : (L.store r (L.next a)).next a = L.next a := by
    rw [next_eq_load, load_store, if_neg hr.symm, next_eq_load]
  rw [Links.unlink, h]
  simp only [prevNext_setPrev, prevNext_store, hnext, Option.some.injEq]

end Cells

section Chains

variable {L : Links α} {r : Ref α} {l : List α} {a : α}

/-- Taking out the first element of a chain. -/
theorem Links.Chain.unlink_first (h : L.Chain r (a :: l)) (hnd : (a :: l).Nodup)
    (hr : ∀ x ∈ a :: l, r ≠ .next x) : (L.unlink a).Chain r l := by
  obtain ⟨-, hback, hrest⟩ := h
  obtain ⟨hal, hl⟩ := List.nodup_cons.mp hnd
  have hra : r ≠ .next a := hr a List.mem_cons_self
  apply Links.Chain.move hrest hl
  · rw [load_unlink hback, if_neg hra, if_pos rfl, next_eq_load]
  · intro x hx
    have hxa : Ref.next x ≠ .next a := fun he ↦ hal (Ref.next.inj he ▸ hx)
    have hxr : Ref.next x ≠ r := (hr x (List.mem_cons_of_mem _ hx)).symm
    rw [load_unlink hback, if_neg hxa, if_neg hxr]
  · intro x hx
    have hax : a ≠ x := fun he ↦ hal (he ▸ hx)
    rw [prevNext_unlink hback hra, if_neg hax, next_eq_load]

theorem Links.Chain.unlink (h : L.Chain r l) (hnd : l.Nodup) (hr : ∀ x ∈ l, r ≠ .next x)
    (ha : a ∈ l) : (L.unlink a).Chain r (l.erase a) := by
  induction l generalizing r with
  | nil => exact absurd ha List.not_mem_nil
  | cons x l ih =>
    by_cases hxa : x = a
    · obtain rfl := hxa
      rw [List.erase_cons_head]
      exact Links.Chain.unlink_first h hnd hr
    · obtain ha | ha := List.mem_cons.mp ha
      · exact absurd ha.symm hxa
      obtain ⟨y, hy, hya, hprev⟩ := Links.Chain.prevNext_mem h hnd ha
      obtain ⟨hload, hback, hrest⟩ := h
      obtain ⟨hxl, hl⟩ := List.nodup_cons.mp hnd
      have hcell : (Ref.next y) ≠ .next a := fun he ↦ hya (Ref.next.inj he)
      have hra : r ≠ .next a := hr a (List.mem_cons_of_mem _ ha)
      have hnext : L.next a ≠ some x := fun he ↦ hxl (Links.Chain.next_mem hrest ha he)
      rw [List.erase_cons_tail (by simpa using hxa)]
      refine ⟨?_, ?_, ih hrest hl (fun z hz he ↦ hxl (Ref.next.inj he ▸ hz)) ha⟩
      · rw [load_unlink hprev, if_neg hra, if_neg (hr y hy)]
        exact hload
      · rw [prevNext_unlink hprev hcell, if_neg (Ne.symm hxa), if_neg hnext]
        exact hback

end Chains

namespace Links.WellLinked

variable {L : Links α} {l : List α} {a : α}

theorem pushFront (h : L.WellLinked l) (ha : L.prevNext a = none) :
    (L.pushFront a).WellLinked (a :: l) := by
  have hal : a ∉ l := fun hm ↦ (h.linked a).mp hm ha
  refine ⟨⟨?_, ?_, ?_⟩, List.nodup_cons.mpr ⟨hal, h.nodup⟩, fun c ↦ ?_⟩
  · rw [load_pushFront, if_pos rfl]
  · rw [prevNext_pushFront, if_pos rfl]
  · apply Links.Chain.move h.chain h.nodup
    · rw [load_pushFront, if_neg (next_ne_head a), if_pos rfl]
      rfl
    · intro x hx
      have hxa : Ref.next x ≠ .next a := fun he ↦ hal (Ref.next.inj he ▸ hx)
      rw [load_pushFront, if_neg (next_ne_head x), if_neg hxa]
    · intro x hx
      have hax : a ≠ x := fun he ↦ hal (he ▸ hx)
      rw [prevNext_pushFront, if_neg hax]
      rfl
  · rw [prevNext_pushFront, List.mem_cons]
    by_cases hac : a = c
    · rw [if_pos hac]
      exact iff_of_true (Or.inl hac.symm) (Option.some_ne_none _)
    · rw [if_neg hac, or_iff_right (Ne.symm hac)]
      by_cases hhead : L.head = some c
      · rw [if_pos hhead]
        exact iff_of_true (Links.Chain.load_mem h.chain hhead) (Option.some_ne_none _)
      · rw [if_neg hhead]
        exact h.linked c

theorem clear (h : L.WellLinked l) (ha : a ∉ l) : (L.clear a).WellLinked l := by
  have hback : ∀ c, c ≠ a → (L.clear a).prevNext c = L.prevNext c := by
    intro c hc
    have hac : some a ≠ some c := fun he ↦ hc (Option.some.inj he).symm
    rw [Links.clear, prevNext_setPrev, if_neg hac, prevNext_store]
  refine ⟨?_, h.nodup, fun c ↦ ?_⟩
  · apply Links.Chain.congr h.chain
    · rw [Links.clear, load_setPrev, load_store, if_neg (next_ne_head a).symm]
    · intro x hx
      have hxa : Ref.next x ≠ .next a := fun he ↦ ha (Ref.next.inj he ▸ hx)
      rw [Links.clear, load_setPrev, load_store, if_neg hxa]
    · exact fun x hx ↦ hback x (fun he ↦ ha (he ▸ hx))
  · by_cases hc : c = a
    · obtain rfl := hc
      rw [Links.clear, prevNext_setPrev, if_pos rfl]
      exact iff_of_false ha (fun hne ↦ hne rfl)
    · rw [hback c hc]
      exact h.linked c

theorem unlink (h : L.WellLinked l) (a : α) : (L.unlink a).WellLinked (l.erase a) := by
  cases hprev : L.prevNext a with
  | none =>
    have hal : a ∉ l := fun hm ↦ (h.linked a).mp hm hprev
    rw [unlink_of_none hprev, List.erase_of_not_mem hal]
    exact h
  | some r =>
    have hal : a ∈ l := (h.linked a).mpr (by rw [hprev]; exact Option.some_ne_none _)
    have hra := h.prevNext_ne hprev
    refine ⟨Links.Chain.unlink h.chain h.nodup (fun x _ ↦ (next_ne_head x).symm) hal,
      h.nodup.erase a, fun c ↦ ?_⟩
    rw [prevNext_unlink hprev hra]
    by_cases hac : a = c
    · obtain rfl := hac
      rw [if_pos rfl]
      exact iff_of_false (h.nodup.not_mem_erase) (fun hne ↦ hne rfl)
    · rw [if_neg hac, List.mem_erase_of_ne (Ne.symm hac)]
      by_cases hnext : L.next a = some c
      · rw [if_pos hnext]
        exact iff_of_true (Links.Chain.next_mem h.chain hal hnext) (Option.some_ne_none _)
      · rw [if_neg hnext]
        exact h.linked c

end Links.WellLinked

end Xfrpc.Foundations.LinkedList
