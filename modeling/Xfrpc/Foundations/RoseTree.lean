import Mathlib.Data.List.Basic
import Mathlib.Data.List.Infix
import Mathlib.Data.Nat.Notation

namespace Xfrpc.Foundations.RoseTree

variable {α β : Type}

/-- A tree with labelled nodes, each with a list of subtrees. -/
inductive Rose (α : Type)
  | node (label : α) (children : List (Rose α))

/-- A node, by the numbers of the children on the way to it from the root. -/
abbrev Position := List ℕ

namespace Rose

def label : Rose α → α
  | node a _ => a

def children : Rose α → List (Rose α)
  | node _ ts => ts

@[simp] theorem label_node (a : α) (ts : List (Rose α)) : (node a ts).label = a := rfl

@[simp] theorem children_node (a : α) (ts : List (Rose α)) : (node a ts).children = ts := rfl

@[simp] theorem node_eta (t : Rose α) : node t.label t.children = t := by cases t; rfl

/-- What a node has of its own: its label and the number of its children. -/
def shape (t : Rose α) : α × ℕ := (t.label, t.children.length)

@[simp] theorem shape_node (a : α) (ts : List (Rose α)) : (node a ts).shape = (a, ts.length) := rfl

/-- The subtree at a position. -/
def at? : Rose α → Position → Option (Rose α)
  | t, [] => some t
  | t, i :: p => t.children[i]?.bind fun s ↦ at? s p

/-- The tree with `f` applied to its subtree at a position. -/
def update (f : Rose α → Rose α) : Position → Rose α → Rose α
  | [], t => f t
  | i :: p, t => node t.label (t.children.modify i (update f p))

@[simp] theorem at?_nil (t : Rose α) : t.at? [] = some t := by cases t; rfl

@[simp] theorem at?_cons (t : Rose α) (i : ℕ) (p : Position) :
    t.at? (i :: p) = t.children[i]?.bind fun s ↦ s.at? p := by cases t; rfl

@[simp] theorem update_nil (f : Rose α → Rose α) (t : Rose α) : update f [] t = f t := rfl

theorem at?_append (t : Rose α) (p q : Position) :
    t.at? (p ++ q) = (t.at? p).bind fun s ↦ s.at? q := by
  induction p generalizing t with
  | nil => simp
  | cons i p ih =>
    rw [List.cons_append, at?_cons, at?_cons, Option.bind_assoc]
    exact congrArg _ (funext fun s ↦ ih s)

theorem at?_prefix {t s : Rose α} {p q : Position} (h : t.at? (p ++ q) = some s) :
    ∃ u, t.at? p = some u ∧ u.at? q = some s := by
  rwa [at?_append, Option.bind_eq_some_iff] at h

/-- At and below the place of an update, the new subtree. -/
theorem at?_update_append (f : Rose α → Rose α) (t : Rose α) (q r : Position) :
    (update f q t).at? (q ++ r) = (t.at? q).bind fun s ↦ (f s).at? r := by
  induction q generalizing t with
  | nil => simp
  | cons i q ih =>
    rw [List.cons_append, at?_cons, at?_cons, update, children_node, List.getElem?_modify_eq]
    cases t.children[i]? with
    | none => rfl
    | some s => simpa using ih s

theorem at?_update (f : Rose α → Rose α) (t : Rose α) (q : Position) :
    (update f q t).at? q = (t.at? q).map f := by
  have h := at?_update_append f t q []
  rw [List.append_nil] at h
  rw [h]
  cases t.at? q <;> simp

/-- Elsewhere a node stays as it is, and the nodes above the update keep their shape. -/
theorem shape_at?_update (f : Rose α → Rose α) (t : Rose α) {p q : Position} (h : ¬ q <+: p) :
    ((update f q t).at? p).map shape = (t.at? p).map shape := by
  induction q generalizing t p with
  | nil => exact absurd List.nil_prefix h
  | cons i q ih =>
    cases p with
    | nil => simp [update, shape]
    | cons j p =>
      rw [at?_cons, at?_cons, update, children_node]
      by_cases hij : i = j
      · subst hij
        have hp : ¬ q <+: p := fun hp ↦ h (by simpa using hp)
        rw [List.getElem?_modify_eq]
        cases t.children[i]? with
        | none => rfl
        | some s => simpa using ih s hp
      · rw [List.getElem?_modify_ne _ _ hij]

/-- Every node has a shape that `P` holds of. -/
def Each (P : α × ℕ → Prop) (t : Rose α) : Prop := ∀ p s, t.at? p = some s → P s.shape

theorem Each.root {P : α × ℕ → Prop} {t : Rose α} (h : t.Each P) : P t.shape := h [] t (at?_nil t)

theorem Each.below {P : α × ℕ → Prop} {t s : Rose α} {p : Position} (h : t.Each P)
    (hs : t.at? p = some s) : s.Each P := by
  intro q u hu
  refine h (p ++ q) u ?_
  rw [at?_append, hs]
  exact hu

theorem each_node {P : α × ℕ → Prop} {a : α} {ts : List (Rose α)} :
    (node a ts).Each P ↔ P (a, ts.length) ∧ ∀ s ∈ ts, s.Each P := by
  constructor
  · intro h
    refine ⟨h.root, fun s hs ↦ ?_⟩
    obtain ⟨i, hi⟩ := List.mem_iff_getElem?.mp hs
    exact h.below (p := [i]) (by simp [hi])
  · rintro ⟨ha, hts⟩ p s hs
    cases p with
    | nil =>
      rw [at?_nil, Option.some.injEq] at hs
      rwa [← hs]
    | cons i p =>
      rw [at?_cons, Option.bind_eq_some_iff] at hs
      obtain ⟨u, hu, hs⟩ := hs
      exact hts u (List.mem_of_getElem? hu) p s hs

theorem Each.update {P : α × ℕ → Prop} {f : Rose α → Rose α} {t : Rose α} {q : Position}
    (h : t.Each P) (hf : ∀ s, t.at? q = some s → (f s).Each P) : (update f q t).Each P := by
  intro p s hs
  by_cases hp : q <+: p
  · obtain ⟨r, rfl⟩ := hp
    rw [at?_update_append, Option.bind_eq_some_iff] at hs
    obtain ⟨u, hu, hs⟩ := hs
    exact hf u hu r s hs
  · have hshape := shape_at?_update f t hp
    rw [hs, Option.map_some, eq_comm, Option.map_eq_some_iff] at hshape
    obtain ⟨u, hu, hus⟩ := hshape
    rw [← hus]
    exact h p u hu

/-- Every node of `t` is in `t'` at the same position, with a shape that `R` relates to its
own. -/
def Grows (R : α × ℕ → α × ℕ → Prop) (t t' : Rose α) : Prop :=
  ∀ p s, t.at? p = some s → ∃ s', t'.at? p = some s' ∧ R s.shape s'.shape

section Growth

variable {R : α × ℕ → α × ℕ → Prop}

theorem Grows.refl (hR : ∀ x, R x x) (t : Rose α) : Grows R t t := fun _ s hs ↦ ⟨s, hs, hR _⟩

theorem Grows.trans (hR : ∀ x y z, R x y → R y z → R x z) {t t' t'' : Rose α}
    (h : Grows R t t') (h' : Grows R t' t'') : Grows R t t'' := by
  intro p s hs
  obtain ⟨s', hs', hr⟩ := h p s hs
  obtain ⟨s'', hs'', hr'⟩ := h' p s' hs'
  exact ⟨s'', hs'', hR _ _ _ hr hr'⟩

theorem Grows.update (hR : ∀ x, R x x) {f : Rose α → Rose α} {t : Rose α} {q : Position}
    (hf : ∀ s, t.at? q = some s → Grows R s (f s)) : Grows R t (update f q t) := by
  intro p s hs
  by_cases hp : q <+: p
  · obtain ⟨r, rfl⟩ := hp
    obtain ⟨u, hu, hs⟩ := at?_prefix hs
    obtain ⟨s', hs', hr⟩ := hf u hu r s hs
    refine ⟨s', ?_, hr⟩
    rw [at?_update_append, hu]
    exact hs'
  · have hshape := shape_at?_update f t hp
    rw [hs, Option.map_some, Option.map_eq_some_iff] at hshape
    obtain ⟨s', hs', hss⟩ := hshape
    exact ⟨s', hs', hss ▸ hR _⟩

/-- A node that only gets a new label and further children. -/
theorem Grows.extend (hR : ∀ x, R x x) {a a' : α} {ts us : List (Rose α)}
    (h : R (a, ts.length) (a', (ts ++ us).length)) :
    Grows R (node a ts) (node a' (ts ++ us)) := by
  intro p s hs
  cases p with
  | nil =>
    rw [at?_nil, Option.some.injEq] at hs
    exact ⟨node a' (ts ++ us), at?_nil _, hs ▸ h⟩
  | cons i p =>
    rw [at?_cons, children_node, Option.bind_eq_some_iff] at hs
    obtain ⟨u, hu, hs⟩ := hs
    refine ⟨s, ?_, hR _⟩
    rw [at?_cons, children_node, List.getElem?_append_left (List.getElem?_eq_some_iff.mp hu).1, hu]
    exact hs

theorem Grows.at? {t t' s : Rose α} {p : Position} (h : Grows R t t') (hs : t.at? p = some s) :
    ∃ s', t'.at? p = some s' ∧ Grows R s s' := by
  obtain ⟨s', hs', -⟩ := h p s hs
  refine ⟨s', hs', fun q u hu ↦ ?_⟩
  obtain ⟨u', hu', hr⟩ := h (p ++ q) u (by rw [at?_append, hs]; exact hu)
  rw [at?_append, hs'] at hu'
  exact ⟨u', hu', hr⟩

end Growth

/-- The tree with `g` applied to every label. -/
def map (g : α → β) : Rose α → Rose β
  | node a ts => node (g a) (ts.map (map g))

@[simp] theorem label_map (g : α → β) (t : Rose α) : (t.map g).label = g t.label := by
  cases t; simp [map]

@[simp] theorem children_map (g : α → β) (t : Rose α) :
    (t.map g).children = t.children.map (map g) := by
  cases t; simp [map]

theorem at?_map (g : α → β) (t : Rose α) (p : Position) :
    (t.map g).at? p = (t.at? p).map (map g) := by
  induction p generalizing t with
  | nil => simp
  | cons i p ih =>
    rw [at?_cons, at?_cons, children_map, List.getElem?_map]
    cases t.children[i]? with
    | none => rfl
    | some s => exact ih s

theorem Each.map {P : α × ℕ → Prop} {Q : β × ℕ → Prop} {g : α → β} {t : Rose α}
    (hg : ∀ a n, P (a, n) → Q (g a, n)) (h : t.Each P) : (t.map g).Each Q := by
  intro p s hs
  rw [at?_map, Option.map_eq_some_iff] at hs
  obtain ⟨u, hu, rfl⟩ := hs
  have := hg _ _ (h p u hu)
  simpa [shape] using this

end Rose

end Xfrpc.Foundations.RoseTree
