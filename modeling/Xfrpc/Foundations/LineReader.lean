import Mathlib.Data.List.Basic
import Mathlib.Tactic.SplitIfs

namespace Xfrpc.Foundations.LineReader

section Loop

variable {α σ β : Type}

/-- A loop that hands over one line after the other until the reader has none; no
result when the fuel is spent first. -/
def readLoop (read : σ → Option (List α × σ)) (f : β → List α → β) : ℕ → σ → β → Option β
  | 0, _, _ => none
  | fuel + 1, s, b =>
    match read s with
    | none => some b
    | some (line, s') => readLoop read f fuel s' (f b line)

def lines (read : σ → Option (List α × σ)) (fuel : ℕ) (s : σ) : Option (List (List α)) :=
  readLoop read (fun ls line ↦ ls ++ [line]) fuel s []

/-- Two readers that do the same wherever an invariant holds that their reading keeps. -/
structure Agree (Inv : σ → Prop) (read read' : σ → Option (List α × σ)) : Prop where
  same : ∀ s, Inv s → read s = read' s
  kept : ∀ s line s', Inv s → read s = some (line, s') → Inv s'

theorem Agree.readLoop_eq {Inv : σ → Prop} {read read' : σ → Option (List α × σ)}
    (h : Agree Inv read read') (f : β → List α → β) (fuel : ℕ) {s : σ} (hs : Inv s) (b : β) :
    readLoop read f fuel s b = readLoop read' f fuel s b := by
  induction fuel generalizing s b with
  | zero => rfl
  | succ fuel ih =>
    cases hr : read s with
    | none => rw [readLoop, readLoop, ← h.same s hs, hr]
    | some r =>
      obtain ⟨line, s'⟩ := r
      rw [readLoop, readLoop, ← h.same s hs, hr]
      exact ih (h.kept s line s' hs hr) _

/-- A reader that uses up what `size` measures comes to its end. -/
theorem readLoop_isSome {read : σ → Option (List α × σ)} {size : σ → ℕ}
    (hread : ∀ s line s', read s = some (line, s') → size s' < size s)
    (f : β → List α → β) {fuel : ℕ} {s : σ} (hfuel : size s < fuel) (b : β) :
    (readLoop read f fuel s b).isSome = true := by
  induction fuel generalizing s b with
  | zero => omega
  | succ fuel ih =>
    cases hr : read s with
    | none => rw [readLoop, hr]; rfl
    | some r =>
      obtain ⟨line, s'⟩ := r
      have hless := hread s line s' hr
      rw [readLoop, hr]
      exact ih (by omega) _

theorem readLoop_of_le {read : σ → Option (List α × σ)} {f : β → List α → β} {fuel fuel' : ℕ}
    {s : σ} {b r : β} (h : readLoop read f fuel s b = some r) (hle : fuel ≤ fuel') :
    readLoop read f fuel' s b = some r := by
  induction fuel generalizing fuel' s b with
  | zero => cases h
  | succ fuel ih =>
    obtain ⟨n, rfl⟩ : ∃ n, fuel' = n + 1 := ⟨fuel' - 1, by omega⟩
    cases hr : read s with
    | none => rwa [readLoop, hr] at h ⊢
    | some p =>
      rw [readLoop, hr] at h ⊢
      exact ih h (by omega)

theorem readLoop_map {γ : Type} (read : σ → Option (List α × σ)) {f : β → List α → β}
    {g : γ → List α → γ} {φ : β → γ} (hφ : ∀ b line, φ (f b line) = g (φ b) line)
    (fuel : ℕ) (s : σ) (b : β) :
    (readLoop read f fuel s b).map φ = readLoop read g fuel s (φ b) := by
  induction fuel generalizing s b with
  | zero => rfl
  | succ fuel ih =>
    cases hr : read s with
    | none => simp [readLoop, hr]
    | some r =>
      rw [readLoop, readLoop, hr]
      exact (ih r.2 _).trans (by rw [hφ])

theorem lines_succ (read : σ → Option (List α × σ)) (fuel : ℕ) (s : σ) :
    lines read (fuel + 1) s =
      match read s with
      | none => some []
      | some (line, s') => (lines read fuel s').map (line :: ·) := by
  cases hr : read s with
  | none => simp [lines, readLoop, hr]
  | some r =>
    obtain ⟨line, s'⟩ := r
    have hcons := @readLoop_map α σ _ _ read (fun ls l ↦ ls ++ [l]) (fun ls l ↦ ls ++ [l])
      (line :: ·) (fun _ _ ↦ rfl) fuel s' []
    rw [lines, readLoop, hr]
    exact hcons.symm

end Loop

section Fgets

variable {α : Type} [DecidableEq α] {sep : α}

/-- At most `n` characters, up to and with the first separator, and what is left. -/
def takeLine (sep : α) : ℕ → List α → List α × List α
  | 0, rest => ([], rest)
  | _ + 1, [] => ([], [])
  | n + 1, c :: rest =>
    if c = sep then ([c], rest)
    else
      let (line, left) := takeLine sep n rest
      (c :: line, left)

/-- `fgets` into a buffer of `num` characters, at least two. -/
def fgets (sep : α) (num : ℕ) (file : List α) : Option (List α × List α) :=
  if file = [] then none else some (takeLine sep (num - 1) file)

/-- The first line of a text: as long as the limit allows, and not beyond a separator. -/
structure FirstLine (sep : α) (limit : ℕ) (line rest : List α) : Prop where
  bounded : line.length ≤ limit
  single : sep ∉ line.dropLast
  stopped : line.getLast? = some sep ∨ line.length = limit ∨ rest = []

theorem takeLine_append (sep : α) (n : ℕ) (text : List α) :
    (takeLine sep n text).1 ++ (takeLine sep n text).2 = text := by
  induction n generalizing text with
  | zero => rfl
  | succ n ih =>
    cases text with
    | nil => rfl
    | cons c rest =>
      by_cases hc : c = sep
      · simp [takeLine, hc]
      · simp [takeLine, hc, ih rest]

theorem takeLine_ne_nil (sep : α) {n : ℕ} (hn : 0 < n) {text : List α} (ht : text ≠ []) :
    (takeLine sep n text).1 ≠ [] := by
  obtain ⟨n, rfl⟩ := Nat.exists_eq_succ_of_ne_zero (Nat.ne_of_gt hn)
  obtain ⟨c, rest, rfl⟩ := List.exists_cons_of_ne_nil ht
  by_cases hc : c = sep
  · simp [takeLine, hc]
  · simp [takeLine, hc]

theorem takeLine_firstLine (sep : α) (n : ℕ) (text : List α) :
    FirstLine sep n (takeLine sep n text).1 (takeLine sep n text).2 := by
  induction n generalizing text with
  | zero => exact ⟨Nat.le_refl _, by simp [takeLine], .inr (.inl rfl)⟩
  | succ n ih =>
    cases text with
    | nil => exact ⟨by simp [takeLine], by simp [takeLine], .inr (.inr rfl)⟩
    | cons c rest =>
      by_cases hc : c = sep
      · exact ⟨by simp [takeLine, hc], by simp [takeLine, hc], .inl (by simp [takeLine, hc])⟩
      · obtain ⟨hbound, hsingle, hstop⟩ := ih rest
        have hline : takeLine sep (n + 1) (c :: rest) =
            (c :: (takeLine sep n rest).1, (takeLine sep n rest).2) := by
          rw [takeLine, if_neg hc]
        rw [hline]
        generalize takeLine sep n rest = r at hbound hsingle hstop
        obtain ⟨line, left⟩ := r
        refine ⟨Nat.succ_le_succ hbound, ?_, ?_⟩
        · cases line with
          | nil => simp
          | cons d line =>
            rw [List.dropLast_cons_of_ne_nil (by simp), List.mem_cons]
            exact not_or.mpr ⟨Ne.symm hc, hsingle⟩
        · rcases hstop with hlast | hfull | hend
          · left
            cases line with
            | nil => simp at hlast
            | cons d line => rw [List.getLast?_cons_cons]; exact hlast
          · exact .inr (.inl (by simpa using hfull))
          · exact .inr (.inr hend)

theorem fgets_size {num : ℕ} (hnum : 2 ≤ num) (text line rest : List α)
    (h : fgets sep num text = some (line, rest)) : rest.length < text.length := by
  unfold fgets at h
  split_ifs at h with ht
  have hr := Option.some.inj h
  have hsplit := congrArg List.length (takeLine_append sep (num - 1) text)
  have hline := List.length_pos_of_ne_nil (takeLine_ne_nil sep (by omega : 0 < num - 1) ht)
  rw [hr] at hsplit hline
  rw [List.length_append] at hsplit
  dsimp only at hsplit hline
  omega

/-- The lines of a text: they spell it, and each goes up to a separator or the limit,
but for the last, which may also end with the text. -/
structure Lines (sep : α) (limit : ℕ) (text : List α) (ls : List (List α)) : Prop where
  flatten : ls.flatten = text
  nonempty : ∀ line ∈ ls, line ≠ []
  bounded : ∀ line ∈ ls, line.length ≤ limit
  single : ∀ line ∈ ls, sep ∉ line.dropLast
  stopped : ∀ line ∈ ls.dropLast, line.getLast? = some sep ∨ line.length = limit

theorem lines_fgets {num : ℕ} (hnum : 2 ≤ num) {fuel : ℕ} {text : List α}
    (hfuel : text.length < fuel) :
    ∃ ls, lines (fgets sep num) fuel text = some ls ∧ Lines sep (num - 1) text ls := by
  induction fuel generalizing text with
  | zero => omega
  | succ fuel ih =>
    by_cases ht : text = []
    · refine ⟨[], ?_, ?_⟩
      · rw [lines_succ, fgets, if_pos ht]
      · subst ht
        exact ⟨rfl, by simp, by simp, by simp, by simp⟩
    · have hread : fgets sep num text = some (takeLine sep (num - 1) text) := by
        rw [fgets, if_neg ht]
      have hless := fgets_size hnum text _ _ hread
      obtain ⟨ls, hls, hlines⟩ := @ih (takeLine sep (num - 1) text).2 (by omega)
      have hfirst := takeLine_firstLine sep (num - 1) text
      have hsplit := takeLine_append sep (num - 1) text
      have hne := takeLine_ne_nil sep (by omega : 0 < num - 1) ht
      refine ⟨(takeLine sep (num - 1) text).1 :: ls, ?_, ?_, ?_, ?_, ?_, ?_⟩
      · rw [lines_succ, hread]
        dsimp only
        rw [hls]
        rfl
      · rw [List.flatten_cons, hlines.flatten, hsplit]
      · exact List.forall_mem_cons.mpr ⟨hne, hlines.nonempty⟩
      · exact List.forall_mem_cons.mpr ⟨hfirst.bounded, hlines.bounded⟩
      · exact List.forall_mem_cons.mpr ⟨hfirst.single, hlines.single⟩
      · by_cases hend : ls = []
        · rw [hend]
          simp
        · rw [List.dropLast_cons_of_ne_nil hend]
          refine List.forall_mem_cons.mpr ⟨?_, hlines.stopped⟩
          rcases hfirst.stopped with hlast | hfull | hrest
          · exact .inl hlast
          · exact .inr hfull
          · obtain ⟨line, ls, rfl⟩ := List.exists_cons_of_ne_nil hend
            have hflat := hlines.flatten
            rw [hrest, List.flatten_cons, List.append_eq_nil_iff] at hflat
            exact absurd hflat.1 (hlines.nonempty line List.mem_cons_self)

end Fgets

end Xfrpc.Foundations.LineReader
