import Mathlib.Data.List.Infix

namespace Xfrpc.Foundations.Tokens

section Gluing

variable {α : Type}

/-- The text of the pieces after the first. -/
def glued (glue : List α) (es : List (List α)) : List α := (es.map (glue ++ ·)).flatten

end Gluing

section Tokens

variable {α : Type} [DecidableEq α] {sep : α}

/-- The pieces between separators, the empty ones left out; `cur` is the one under
way. -/
def tokensFrom (sep : α) : List α → List α → List (List α)
  | cur, [] => if cur = [] then [] else [cur]
  | cur, c :: cs =>
    if c = sep then (if cur = [] then [] else [cur]) ++ tokensFrom sep [] cs
    else tokensFrom sep (cur ++ [c]) cs

/-- What `strtok_r` finds in a text, one call after the other. -/
def tokens (sep : α) (s : List α) : List (List α) := tokensFrom sep [] s

end Tokens

section Printing

variable {α : Type}

/-- A fixed block of memory that is printed into: the text in it, and the position the
next text goes to. -/
structure Block (α : Type) where
  text : List α
  pos : ℕ
  deriving DecidableEq, Repr

/-- `pos += snprintf(buf + pos, size - pos, "%s", s)`. -/
def Block.snprintf (size : ℕ) (b : Block α) (s : List α) : Block α where
  text := b.text.take b.pos ++ s.take (size - b.pos - 1)
  pos := b.pos + s.length

/-- The loop that prints pieces with a glue between them, as long as more than four
cells are left. -/
def fill (size : ℕ) (glue : List α) : Bool → Block α → List (List α) → Block α
  | _, b, [] => b
  | first, b, e :: es =>
    if b.pos + 4 < size then
      fill size glue false ((if first then b else b.snprintf size glue).snprintf size e) es
    else b

/-- The text fits into the block, and the last piece begins before the loop stops. -/
def Fits (size : ℕ) (glue e : List α) (es : List (List α)) : Prop :=
  (es = [] ∨ e.length + (glued glue es.dropLast).length + 4 < size) ∧
    (e ++ glued glue es).length < size

end Printing

end Xfrpc.Foundations.Tokens
