import Mathlib.Data.List.Infix

namespace Xfrpc.Foundations.Chunks

variable {α β : Type}

/-- A parser that reads at most one value from a word, next to the words the
values are written as. -/
structure Reader (α β : Type) where
  parse : List α → Option β
  enc : β → List α
  enc_ne_nil : ∀ b, enc b ≠ []
  enc_le : ∀ p b, parse p = some b → (enc b).length ≤ p.length

def sizes (ps : List (List α)) : List ℕ := (ps.map List.length).filter (· ≠ 0)

@[simp] theorem sizes_nil : sizes ([] : List (List α)) = [] := rfl

theorem sizes_cons_nil (ps : List (List α)) : sizes ([] :: ps) = sizes ps := rfl

theorem sizes_cons {p : List α} (h : p ≠ []) (ps : List (List α)) :
    sizes (p :: ps) = p.length :: sizes ps := by
  have hne : p.length ≠ 0 := fun h0 ↦ h (List.length_eq_zero_iff.mp h0)
  simp [sizes, hne]

theorem sizes_congr {γ : Type} {ps : List (List α)} {qs : List (List γ)}
    (h : ps.map List.length = qs.map List.length) : sizes ps = sizes qs := by
  rw [sizes, sizes, h]

variable (R : Reader α β)

def Reader.written (ms : List β) : List (List α) := ms.map R.enc

theorem Reader.parse_nil : R.parse [] = none := by
  cases h : R.parse [] with
  | none => rfl
  | some b =>
    have hle := R.enc_le [] b h
    have hpos := List.length_pos_of_ne_nil (R.enc_ne_nil b)
    rw [List.length_nil] at hle
    omega

theorem Reader.written_length_le (ps : List (List α)) :
    (R.written (ps.filterMap R.parse)).flatten.length ≤ ps.flatten.length := by
  induction ps with
  | nil => exact Nat.le_refl 0
  | cons p ps ih =>
    rw [List.flatten_cons, List.length_append]
    cases h : R.parse p with
    | none =>
      rw [List.filterMap_cons_none h]
      omega
    | some b =>
      have hle := R.enc_le p b h
      rw [List.filterMap_cons_some h, Reader.written, List.map_cons, List.flatten_cons,
        List.length_append]
      unfold Reader.written at ih
      omega

theorem Reader.sizes_of_length_eq {ps : List (List α)}
    (h : ps.flatten.length = (R.written (ps.filterMap R.parse)).flatten.length) :
    sizes ps = (R.written (ps.filterMap R.parse)).map List.length := by
  induction ps with
  | nil => rfl
  | cons p ps ih =>
    have hrest := R.written_length_le ps
    rw [List.flatten_cons, List.length_append] at h
    cases hp : R.parse p with
    | none =>
      rw [List.filterMap_cons_none hp] at h ⊢
      obtain rfl : p = [] := List.length_eq_zero_iff.mp (by omega)
      rw [sizes_cons_nil]
      exact ih (by omega)
    | some b =>
      have hle := R.enc_le p b hp
      have hpos := List.length_pos_of_ne_nil (R.enc_ne_nil b)
      have hne : p ≠ [] := List.ne_nil_of_length_pos (by omega)
      rw [List.filterMap_cons_some hp] at h ⊢
      rw [Reader.written, List.map_cons, List.flatten_cons, List.length_append] at h
      unfold Reader.written at ih hrest ⊢
      rw [sizes_cons hne, ih (by omega), List.map_cons, List.map_cons]
      congr 1
      omega

theorem filterMap_filter_nil (f : List α → Option β) (hf : f [] = none) (ps : List (List α)) :
    (ps.filter (!·.isEmpty)).filterMap f = ps.filterMap f := by
  induction ps with
  | nil => rfl
  | cons p ps ih =>
    cases p with
    | nil => rw [List.filterMap_cons_none hf, ← ih]; rfl
    | cons a p =>
      rw [List.filter_cons_of_pos (by rfl), List.filterMap_cons, List.filterMap_cons, ih]

theorem flatten_filter_nil (ps : List (List α)) :
    (ps.filter (!·.isEmpty)).flatten = ps.flatten := List.flatten_filter_not_isEmpty

theorem sizes_eq_filter (ps : List (List α)) :
    sizes ps = (ps.filter (!·.isEmpty)).map List.length := by
  induction ps with
  | nil => rfl
  | cons p ps ih =>
    cases p with
    | nil => exact ih
    | cons a p =>
      rw [sizes_cons (List.cons_ne_nil a p), ih, List.filter_cons_of_pos (by rfl), List.map_cons]

theorem Reader.read_written (ms : List β) :
    (R.written ms).filterMap R.parse = ms ↔ ∀ m ∈ ms, R.parse (R.enc m) = some m := by
  induction ms with
  | nil => simp [Reader.written]
  | cons m ms ih =>
    rw [List.forall_mem_cons, ← ih, Reader.written, List.map_cons]
    cases h : R.parse (R.enc m) with
    | none =>
      rw [List.filterMap_cons_none h]
      simp only [reduceCtorEq, false_and, iff_false]
      intro heq
      have hlen := congrArg List.length heq
      have hle := List.length_filterMap_le R.parse (ms.map R.enc)
      rw [List.length_cons] at hlen
      rw [List.length_map] at hle
      omega
    | some b =>
      rw [List.filterMap_cons_some h, List.cons.injEq, Option.some.injEq]
      rfl

theorem Reader.filterMap_eq_iff {ps : List (List α)} {ms : List β}
    (h : ps.flatten = (R.written ms).flatten) :
    ps.filterMap R.parse = ms ↔
      sizes ps = (R.written ms).map List.length ∧ ∀ m ∈ ms, R.parse (R.enc m) = some m := by
  have hps : sizes ps = (R.written ms).map List.length →
      ps.filter (!·.isEmpty) = R.written ms := by
    intro hs
    rw [sizes_eq_filter] at hs
    exact List.eq_iff_flatten_eq.mpr ⟨by rw [flatten_filter_nil, h], hs⟩
  constructor
  · intro hm
    have hs : sizes ps = (R.written ms).map List.length := by
      rw [← hm]
      exact R.sizes_of_length_eq (by rw [hm, h])
    refine ⟨hs, (R.read_written ms).mp ?_⟩
    rw [← hps hs, filterMap_filter_nil _ R.parse_nil, hm]
  · rintro ⟨hs, hm⟩
    rw [← filterMap_filter_nil _ R.parse_nil, hps hs]
    exact (R.read_written ms).mpr hm

end Xfrpc.Foundations.Chunks
