import Mathlib.Data.List.Nodup
import Mathlib.Logic.Function.Basic

namespace Xfrpc.Foundations.DoublyLinked

variable {α : Type}

/-- The two pointers each element carries. -/
structure Links (α : Type) where
  prev : α → Option α
  next : α → Option α

/-- The element before the end of `l`, or `b` where it is empty. -/
def lastOf (b : Option α) : List α → Option α
  | [] => b
  | a :: l => lastOf (some a) l

/-- From the pointer `f` on, the elements of `l` follow one another up to the pointer `r`, and
point back, the first one to `b`. -/
def Links.Segment (L : Links α) : Option α → Option α → List α → Option α → Prop
  | _, f, [], r => f = r
  | b, f, a :: l, r => f = some a ∧ L.prev a = b ∧ L.Segment (some a) (L.next a) l r

/-- A whole list that begins with `f`. -/
structure Links.IsList (L : Links α) (f : Option α) (l : List α) : Prop where
  segment : L.Segment none f l none
  nodup : l.Nodup

/-- The elements of `l` follow one another from `f` on, whatever they point back to. -/
def Links.Path (L : Links α) : Option α → List α → Prop
  | f, [] => f = none
  | f, a :: l => f = some a ∧ L.Path (L.next a) l

/-- The loop that follows `next` to the first element with `p`; the outer `none` is too little
fuel. -/
def Links.scan (L : Links α) (p : α → Bool) : ℕ → Option α → Option (Option α)
  | 0, _ => none
  | _ + 1, none => some none
  | fuel + 1, some a => if p a then some (some a) else L.scan p fuel (L.next a)

section Updates

variable [DecidableEq α]

/-- A store through a pointer, if it is not null. -/
def Links.setNext (L : Links α) (p v : Option α) : Links α :=
  match p with
  | none => L
  | some a => { L with next := Function.update L.next a v }

def Links.setPrev (L : Links α) (p v : Option α) : Links α :=
  match p with
  | none => L
  | some a => { L with prev := Function.update L.prev a v }

/-- The neighbours of `a` are made to point to one another. -/
def Links.unlink (L : Links α) (a : α) : Links α :=
  let L₁ := L.setNext (L.prev a) (L.next a)
  L₁.setPrev (L₁.next a) (L₁.prev a)

/-- `a` is put before the first element `f`. -/
def Links.pushFront (L : Links α) (f : Option α) (a : α) : Links α :=
  ((L.setNext (some a) f).setPrev (some a) none).setPrev f (some a)

/-- `a` is put behind the last element `t`. -/
def Links.pushBack (L : Links α) (t a : α) : Links α :=
  ((L.setNext (some a) none).setNext (some t) (some a)).setPrev (some a) (some t)

theorem prev_setNext (L : Links α) (p v : Option α) : (L.setNext p v).prev = L.prev := by
  cases p <;> rfl

theorem next_setPrev (L : Links α) (p v : Option α) : (L.setPrev p v).next = L.next := by
  cases p <;> rfl

theorem next_setNext (L : Links α) (p v : Option α) (x : α) :
    (L.setNext p v).next x = if p = some x then v else L.next x := by
  cases p with
  | none => rw [if_neg (by simp)]; rfl
  | some a =>
    change Function.update L.next a v x = _
    rw [Function.update_apply]
    simp only [Option.some.injEq, eq_comm]

theorem prev_setPrev (L : Links α) (p v : Option α) (x : α) :
    (L.setPrev p v).prev x = if p = some x then v else L.prev x := by
  cases p with
  | none => rw [if_neg (by simp)]; rfl
  | some a =>
    change Function.update L.prev a v x = _
    rw [Function.update_apply]
    simp only [Option.some.injEq, eq_comm]

end Updates

section Shape

variable {L L' : Links α} {b f r m : Option α} {l l₁ l₂ : List α} {a c : α}

theorem lastOf_append (b : Option α) (l₁ l₂ : List α) :
    lastOf b (l₁ ++ l₂) = lastOf (lastOf b l₁) l₂ := by
  induction l₁ generalizing b with
  | nil => rfl
  | cons a l₁ ih => exact ih (some a)

theorem lastOf_snoc (b : Option α) (l : List α) (a : α) : lastOf b (l ++ [a]) = some a :=
  lastOf_append b l [a]

theorem lastOf_mem (h : lastOf none l = some a) : a ∈ l := by
  obtain rfl | ⟨l', x, rfl⟩ := l.eq_nil_or_concat
  · cases h
  · rw [List.concat_eq_append, lastOf_snoc] at h
    rw [← Option.some.inj h, List.concat_eq_append]
    exact List.mem_append_right _ (List.mem_singleton_self x)

theorem lastOf_some_mem (h : lastOf (some a) l = some c) : c ∈ a :: l :=
  @lastOf_mem _ (a :: l) c h

theorem lastOf_eq_none (h : lastOf none l = none) : l = [] := by
  obtain rfl | ⟨l', x, rfl⟩ := l.eq_nil_or_concat
  · rfl
  · rw [List.concat_eq_append, lastOf_snoc] at h
    cases h

/-- Only the pointers of the segment's own elements matter. -/
theorem Links.Segment.congr (h : L.Segment b f l r) (hprev : ∀ x ∈ l, L'.prev x = L.prev x)
    (hnext : ∀ x ∈ l, L'.next x = L.next x) : L'.Segment b f l r := by
  induction l generalizing b f with
  | nil => exact h
  | cons a l ih =>
    obtain ⟨hf, hb, hrest⟩ := h
    refine ⟨hf, (hprev a List.mem_cons_self).trans hb, ?_⟩
    rw [hnext a List.mem_cons_self]
    exact ih hrest (fun x hx ↦ hprev x (List.mem_cons_of_mem _ hx))
      fun x hx ↦ hnext x (List.mem_cons_of_mem _ hx)

theorem segment_append : L.Segment b f (l₁ ++ l₂) r ↔
    ∃ m, L.Segment b f l₁ m ∧ L.Segment (lastOf b l₁) m l₂ r := by
  induction l₁ generalizing b f with
  | nil =>
    constructor
    · intro h
      exact ⟨f, rfl, h⟩
    · rintro ⟨m, hf, h⟩
      obtain rfl : f = m := hf
      exact h
  | cons a l₁ ih =>
    constructor
    · rintro ⟨hf, hb, hrest⟩
      obtain ⟨m, hfront, hback⟩ := ih.mp hrest
      exact ⟨m, ⟨hf, hb, hfront⟩, hback⟩
    · rintro ⟨m, ⟨hf, hb, hfront⟩, hback⟩
      exact ⟨hf, hb, ih.mpr ⟨m, hfront, hback⟩⟩

/-- The last element is made to point elsewhere; so is the pointer to the first one, where
there is none. -/
theorem Links.Segment.redirect [DecidableEq α] (h : L.Segment b f l r) (hnd : l.Nodup)
    (hprev : ∀ x ∈ l, L'.prev x = L.prev x)
    (hnext : ∀ x ∈ l, L'.next x = if lastOf none l = some x then m else L.next x) :
    L'.Segment b (if l = [] then m else f) l m := by
  induction l generalizing b f with
  | nil => exact if_pos rfl
  | cons a l ih =>
    obtain ⟨hf, hb, hrest⟩ := h
    obtain ⟨ha, hl⟩ := List.nodup_cons.mp hnd
    refine ⟨(if_neg (List.cons_ne_nil a l)).trans hf, (hprev a List.mem_cons_self).trans hb, ?_⟩
    rw [hnext a List.mem_cons_self]
    cases l with
    | nil => exact if_pos rfl
    | cons c l =>
      have hlast : lastOf none (a :: c :: l) = lastOf none (c :: l) := rfl
      rw [if_neg (fun he ↦ ha (lastOf_mem (hlast ▸ he)))]
      have htail := ih hrest hl (fun x hx ↦ hprev x (List.mem_cons_of_mem _ hx))
        fun x hx ↦ by rw [hnext x (List.mem_cons_of_mem _ hx), hlast]
      rwa [if_neg (List.cons_ne_nil c l)] at htail

/-- The first element is made to point back elsewhere. -/
theorem Links.Segment.rehang [DecidableEq α] (h : L.Segment b f l r) (hnd : l.Nodup)
    {b' : Option α}
    (hprev : ∀ x ∈ l, L'.prev x = if f = some x then b' else L.prev x)
    (hnext : ∀ x ∈ l, L'.next x = L.next x) : L'.Segment b' f l r := by
  cases l with
  | nil => exact h
  | cons a l =>
    obtain ⟨hf, -, hrest⟩ := h
    obtain ⟨ha, -⟩ := List.nodup_cons.mp hnd
    refine ⟨hf, (hprev a List.mem_cons_self).trans (if_pos hf), ?_⟩
    rw [hnext a List.mem_cons_self]
    refine hrest.congr (fun x hx ↦ ?_) fun x hx ↦ hnext x (List.mem_cons_of_mem _ hx)
    rw [hprev x (List.mem_cons_of_mem _ hx), if_neg]
    intro he
    rw [hf] at he
    exact ha (Option.some.inj he ▸ hx)

theorem Links.Segment.first (h : L.Segment b f (a :: l) r) : f = some a := h.1

theorem Links.Segment.eq_nil (h : L.Segment b f l none) (hf : f = none) : l = [] := by
  cases l with
  | nil => rfl
  | cons a l =>
    rw [h.first] at hf
    cases hf

theorem Links.Segment.first_mem (h : L.Segment b f l none) (hf : f = some a) : a ∈ l := by
  cases l with
  | nil =>
    have hnone : f = none := h
    rw [hnone] at hf
    cases hf
  | cons c l =>
    rw [h.first] at hf
    exact Option.some.inj hf ▸ List.mem_cons_self

theorem Links.Segment.next_mem (h : L.Segment b f l none) (ha : a ∈ l)
    (hc : L.next a = some c) : c ∈ l := by
  induction l generalizing b f with
  | nil => cases ha
  | cons x l ih =>
    obtain ⟨-, -, hrest⟩ := h
    obtain rfl | ha := List.mem_cons.mp ha
    · exact List.mem_cons_of_mem _ (hrest.first_mem hc)
    · exact List.mem_cons_of_mem _ (ih hrest ha)

theorem Links.Segment.prev_mem (h : L.Segment none f l r) (ha : a ∈ l)
    (hc : L.prev a = some c) : c ∈ l := by
  obtain ⟨pre, post, rfl⟩ := List.append_of_mem ha
  obtain ⟨m, -, -, hb, -⟩ := segment_append.mp h
  rw [hc] at hb
  exact List.mem_append_left _ (lastOf_mem hb.symm)

theorem Links.Segment.path (h : L.Segment b f l none) : L.Path f l := by
  induction l generalizing b f with
  | nil => exact h
  | cons a l ih =>
    obtain ⟨hf, -, hrest⟩ := h
    exact ⟨hf, ih hrest⟩

theorem Links.Path.congr (h : L.Path f l) (hnext : ∀ x ∈ l, L'.next x = L.next x) :
    L'.Path f l := by
  induction l generalizing f with
  | nil => exact h
  | cons a l ih =>
    obtain ⟨hf, hrest⟩ := h
    refine ⟨hf, ?_⟩
    rw [hnext a List.mem_cons_self]
    exact ih hrest fun x hx ↦ hnext x (List.mem_cons_of_mem _ hx)

theorem Links.Segment.scan (h : L.Segment b f l none) (p : α → Bool) {fuel : ℕ}
    (hfuel : l.length < fuel) : L.scan p fuel f = some (l.find? p) := by
  induction l generalizing b f fuel with
  | nil =>
    obtain ⟨n, rfl⟩ : ∃ n, fuel = n + 1 := ⟨fuel - 1, by omega⟩
    have hf : f = none := h
    rw [hf]
    rfl
  | cons a l ih =>
    obtain ⟨n, rfl⟩ : ∃ n, fuel = n + 1 := ⟨fuel - 1, by omega⟩
    obtain ⟨hf, -, hrest⟩ := h
    rw [List.length_cons] at hfuel
    rw [hf, Links.scan]
    by_cases hp : p a = true
    · rw [if_pos hp, List.find?_cons_of_pos hp]
    · rw [if_neg hp, List.find?_cons_of_neg hp]
      exact ih hrest (by omega)

end Shape

section Lists

variable {L : Links α} {f : Option α} {l : List α} {a : α}

theorem Links.IsList.nil (L : Links α) : L.IsList none [] := ⟨rfl, List.nodup_nil⟩

theorem Links.IsList.congr {L' : Links α} (h : L.IsList f l)
    (hprev : ∀ x ∈ l, L'.prev x = L.prev x) (hnext : ∀ x ∈ l, L'.next x = L.next x) :
    L'.IsList f l :=
  ⟨h.segment.congr hprev hnext, h.nodup⟩

/-- The two neighbours of an element. -/
theorem Links.IsList.neighbours {pre post : List α} (h : L.IsList f (pre ++ a :: post)) :
    L.prev a = lastOf none pre ∧ L.Segment none f pre (some a) ∧
      L.Segment (some a) (L.next a) post none := by
  obtain ⟨m, hpre, hm, hprev, hpost⟩ := segment_append.mp h.segment
  exact ⟨hprev, hm ▸ hpre, hpost⟩

theorem Links.IsList.next_eq_head {pre post : List α} (h : L.IsList f (pre ++ a :: post)) :
    L.next a = post.head? := by
  obtain ⟨-, -, hpost⟩ := h.neighbours
  cases post with
  | nil => exact hpost
  | cons c post => exact hpost.first

theorem Links.IsList.first_eq_head (h : L.IsList f l) : f = l.head? := by
  cases l with
  | nil => exact h.segment
  | cons c l => exact h.segment.first

theorem Links.IsList.prev_ne (h : L.IsList f l) (ha : a ∈ l) : L.prev a ≠ some a := by
  intro he
  obtain ⟨pre, post, rfl⟩ := List.append_of_mem ha
  rw [h.neighbours.1] at he
  exact (List.disjoint_of_nodup_append h.nodup) (lastOf_mem he) List.mem_cons_self

/-- The first element is the one that does not point back. -/
theorem Links.IsList.prev_eq_none (h : L.IsList f l) (ha : a ∈ l) :
    L.prev a = none ↔ f = some a := by
  obtain ⟨pre, post, rfl⟩ := List.append_of_mem ha
  obtain ⟨hprev, hpre, -⟩ := h.neighbours
  rw [hprev]
  cases pre with
  | nil => exact ⟨fun _ ↦ hpre, fun _ ↦ rfl⟩
  | cons c pre =>
    constructor
    · intro he
      exact absurd (lastOf_eq_none he) (List.cons_ne_nil c pre)
    · intro he
      rw [hpre.first] at he
      obtain rfl := Option.some.inj he
      exact ((List.disjoint_of_nodup_append h.nodup) List.mem_cons_self List.mem_cons_self).elim

variable [DecidableEq α]

theorem Links.IsList.pushFront (h : L.IsList f l) (ha : a ∉ l) :
    (L.pushFront f a).IsList (some a) (a :: l) := by
  have hne : f ≠ some a := fun he ↦ ha (h.segment.first_mem he)
  have hother : ∀ x ∈ l, some a ≠ some x := fun x hx he ↦ ha (Option.some.inj he ▸ hx)
  refine ⟨⟨rfl, ?_, ?_⟩, List.nodup_cons.mpr ⟨ha, h.nodup⟩⟩
  · rw [Links.pushFront, prev_setPrev, if_neg hne, prev_setPrev, if_pos rfl]
  · rw [Links.pushFront, next_setPrev, next_setPrev, next_setNext, if_pos rfl]
    refine h.segment.rehang h.nodup (fun x hx ↦ ?_) fun x hx ↦ ?_
    · rw [prev_setPrev, prev_setPrev, prev_setNext, if_neg (hother x hx)]
    · rw [next_setPrev, next_setPrev, next_setNext, if_neg (hother x hx)]

theorem pushFront_next {x : α} (hx : x ≠ a) : (L.pushFront f a).next x = L.next x := by
  rw [Links.pushFront, next_setPrev, next_setPrev, next_setNext,
    if_neg fun he ↦ hx (Option.some.inj he).symm]

theorem pushFront_frame {x : α} (hx : x ≠ a) (hf : f ≠ some x) :
    (L.pushFront f a).prev x = L.prev x ∧ (L.pushFront f a).next x = L.next x := by
  have hne : some a ≠ some x := fun he ↦ hx (Option.some.inj he).symm
  refine ⟨?_, pushFront_next hx⟩
  rw [Links.pushFront, prev_setPrev, if_neg hf, prev_setPrev, if_neg hne, prev_setNext]

theorem Links.IsList.pushBack (h : L.IsList f l) {t : α} (ht : lastOf none l = some t)
    (ha : a ∉ l) : (L.pushBack t a).IsList f (l ++ [a]) := by
  have hta : t ≠ a := fun he ↦ ha (he ▸ lastOf_mem ht)
  have hne : ∀ x ∈ l, some a ≠ some x := fun x hx he ↦ ha (Option.some.inj he ▸ hx)
  have hl : l ≠ [] := by
    rintro rfl
    cases ht
  refine ⟨segment_append.mpr ⟨some a, ?_, rfl, ?_, ?_⟩, ?_⟩
  · have hfront := @Links.Segment.redirect _ L (L.pushBack t a) none f none (some a) l _
      h.segment h.nodup (fun x hx ↦ ?_) fun x hx ↦ ?_
    · rwa [if_neg hl] at hfront
    · rw [Links.pushBack, prev_setPrev, if_neg (hne x hx), prev_setNext, prev_setNext]
    · rw [Links.pushBack, next_setPrev, next_setNext, ht, next_setNext, if_neg (hne x hx)]
  · rw [Links.pushBack, prev_setPrev, if_pos rfl, ht]
  · rw [Links.pushBack]
    change _ = none
    rw [next_setPrev, next_setNext, if_neg (fun he ↦ hta (Option.some.inj he)), next_setNext,
      if_pos rfl]
  · exact List.nodup_append.mpr ⟨h.nodup, List.nodup_singleton a, fun x hx y hy he ↦
      ha (List.mem_singleton.mp hy ▸ he ▸ hx)⟩

/-- What `unlink` writes, as long as the element does not point back to itself. -/
theorem unlink_apply (h : L.prev a ≠ some a) (x : α) :
    (L.unlink a).prev x = (if L.next a = some x then L.prev a else L.prev x) ∧
      (L.unlink a).next x = (if L.prev a = some x then L.next a else L.next x) := by
  unfold Links.unlink
  dsimp only
  rw [next_setPrev, next_setNext, next_setNext, if_neg h, prev_setPrev, prev_setNext]
  exact ⟨rfl, rfl⟩

theorem Links.IsList.unlink {pre post : List α} (h : L.IsList f (pre ++ a :: post)) :
    (L.unlink a).IsList (if f = some a then L.next a else f) (pre ++ post) := by
  have ha : a ∈ pre ++ a :: post := List.mem_append_right _ List.mem_cons_self
  obtain ⟨hprev, hpre, hpost⟩ := h.neighbours
  obtain ⟨hndPre, hndPost, hdisj⟩ := List.nodup_append'.mp h.nodup
  obtain ⟨-, hndPost⟩ := List.nodup_cons.mp hndPost
  have hwrites := fun x ↦ unlink_apply (x := x) (h.prev_ne ha)
  have hnot : ∀ x ∈ pre, L.next a ≠ some x := fun x hx he ↦
    hdisj hx (List.mem_cons_of_mem _ (hpost.first_mem he))
  have hhead : (if f = some a then L.next a else f) = if pre = [] then L.next a else f := by
    by_cases hnil : pre = []
    · rw [if_pos hnil, if_pos ((h.prev_eq_none ha).mp (by rw [hprev, hnil]; rfl))]
    · rw [if_neg hnil, if_neg]
      intro he
      rw [(h.prev_eq_none ha).mpr he] at hprev
      exact hnil (lastOf_eq_none hprev.symm)
  refine ⟨segment_append.mpr ⟨L.next a, ?_, ?_⟩, h.nodup.sublist
    ((List.Sublist.refl pre).append (List.sublist_cons_self a post))⟩
  · rw [hhead]
    refine hpre.redirect hndPre (fun x hx ↦ ?_) fun x hx ↦ ?_
    · rw [(hwrites x).1, if_neg (hnot x hx)]
    · rw [(hwrites x).2, hprev]
  · refine hpost.rehang hndPost (fun x hx ↦ ?_) fun x hx ↦ ?_
    · rw [(hwrites x).1, hprev]
    · rw [(hwrites x).2, if_neg]
      intro he
      rw [hprev] at he
      exact hdisj (lastOf_mem he) (List.mem_cons_of_mem _ hx)

/-- Elements outside of the list keep their pointers. -/
theorem Links.IsList.unlink_frame (h : L.IsList f l) (ha : a ∈ l) {x : α} (hx : x ∉ l) :
    (L.unlink a).prev x = L.prev x ∧ (L.unlink a).next x = L.next x := by
  have hwrites := unlink_apply (h.prev_ne ha) x
  rw [hwrites.1, hwrites.2, if_neg fun he ↦ hx (h.segment.next_mem ha he),
    if_neg fun he ↦ hx (h.segment.prev_mem ha he)]
  exact ⟨rfl, rfl⟩

end Lists

end Xfrpc.Foundations.DoublyLinked
