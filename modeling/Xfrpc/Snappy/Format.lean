import Xfrpc.Foundations.BackReference
import Xfrpc.Foundations.LittleEndian

namespace Xfrpc.Snappy.Format

open Foundations.BackReference Foundations.LittleEndian

/-- An element of a compressed stream: bytes as they are, or a copy of `len` bytes that begin
`offset` bytes before the end of what has been produced. -/
inductive Token
  | literal (bytes : Bytes)
  | copy (offset len : ℕ)
  deriving DecidableEq, Repr

def Token.expand : Token → Bytes → Option Bytes
  | .literal bytes, out => some (out ++ bytes)
  | .copy offset len, out =>
    if 0 < offset ∧ offset ≤ out.length then some (selfCopy offset len out) else none

/-- The bytes after a tag that belong to its length or offset. -/
def trailerLength (c : UInt8) : ℕ :=
  match c.toNat % 4 with
  | 0 => c.toNat / 4 - 59
  | 1 => 1
  | 2 => 2
  | _ => 4

theorem trailerLength_literal {c : UInt8} (h : c.toNat % 4 = 0) :
    trailerLength c = c.toNat / 4 - 59 := by
  simp only [trailerLength, h]

theorem trailerLength_nearCopy {c : UInt8} (h : c.toNat % 4 = 1) : trailerLength c = 1 := by
  simp only [trailerLength, h]

theorem trailerLength_farCopy {c : UInt8} (h : c.toNat % 4 = 2) : trailerLength c = 2 := by
  simp only [trailerLength, h]

/-- The length of a literal; the addition is one of 32-bit words. -/
def literalLength (c : UInt8) (trailer : ℕ) : ℕ :=
  if c.toNat / 4 < 60 then c.toNat / 4 + 1 else (trailer + 1) % 2 ^ 32

def copyLength (c : UInt8) : ℕ :=
  if c.toNat % 4 = 1 then c.toNat / 4 % 8 + 4 else c.toNat / 4 + 1

def copyOffset (c : UInt8) (trailer : ℕ) : ℕ :=
  if c.toNat % 4 = 1 then c.toNat / 32 * 256 + trailer else trailer

/-- The first element of a stream and what follows it. -/
def parseTag : Bytes → Option (Token × Bytes)
  | [] => none
  | c :: code =>
    if code.length < trailerLength c then none
    else
      let trailer := ofLe (code.take (trailerLength c))
      let rest := code.drop (trailerLength c)
      if c.toNat % 4 = 0 then
        if rest.length < literalLength c trailer then none
        else
          some (.literal (rest.take (literalLength c trailer)),
            rest.drop (literalLength c trailer))
      else some (.copy (copyOffset c trailer) (copyLength c), rest)

theorem parseTag_length {code rest : Bytes} {t : Token} (h : parseTag code = some (t, rest)) :
    rest.length < code.length := by
  cases code with
  | nil => cases h
  | cons c code =>
    simp only [parseTag] at h
    split_ifs at h
    · obtain ⟨-, rfl⟩ := Prod.mk.inj (Option.some.inj h)
      simp only [List.length_drop, List.length_cons]
      omega
    · obtain ⟨-, rfl⟩ := Prod.mk.inj (Option.some.inj h)
      simp only [List.length_drop, List.length_cons]
      omega

theorem parseTag_literal {c : UInt8} {code : Bytes} (hc : c.toNat % 4 = 0)
    (htrailer : trailerLength c ≤ code.length) {len : ℕ}
    (hlen : literalLength c (ofLe (code.take (trailerLength c))) = len) :
    parseTag (c :: code) =
      if (code.drop (trailerLength c)).length < len then none
      else
        some (.literal ((code.drop (trailerLength c)).take len),
          (code.drop (trailerLength c)).drop len) := by
  rw [parseTag, if_neg (by omega)]
  dsimp only
  rw [if_pos hc, hlen]

theorem parseTag_copy {c : UInt8} {code : Bytes} (hc : c.toNat % 4 ≠ 0)
    (htrailer : trailerLength c ≤ code.length) :
    parseTag (c :: code) =
      some (.copy (copyOffset c (ofLe (code.take (trailerLength c)))) (copyLength c),
        code.drop (trailerLength c)) := by
  rw [parseTag, if_neg (by omega)]
  exact if_neg hc

/-- What a stream of elements makes of the bytes produced before it. -/
def unpack (out code : Bytes) : Option Bytes :=
  if code = [] then some out
  else
    match hp : parseTag code with
    | none => none
    | some (t, rest) => (t.expand out).bind fun out ↦ unpack out rest
termination_by code.length
decreasing_by exact parseTag_length hp

@[simp] theorem unpack_nil (out : Bytes) : unpack out [] = some out := by
  rw [unpack, if_pos rfl]

theorem unpack_of_parse {out code rest : Bytes} {t : Token}
    (h : parseTag code = some (t, rest)) :
    unpack out code = (t.expand out).bind fun out ↦ unpack out rest := by
  have hne : code ≠ [] := by
    rintro rfl
    cases h
  rw [unpack, if_neg hne]
  split
  · rename_i hnone
    rw [h] at hnone
    cases hnone
  · rename_i t' rest' hsome
    rw [h] at hsome
    obtain ⟨rfl, rfl⟩ := Prod.mk.inj (Option.some.inj hsome)
    rfl

theorem unpack_of_parse_none {out code : Bytes} (hne : code ≠ []) (h : parseTag code = none) :
    unpack out code = none := by
  rw [unpack, if_neg hne]
  split
  · rfl
  · rename_i hsome
    rw [h] at hsome
    cases hsome

theorem Token.expand_length {t : Token} {out out' : Bytes} (h : t.expand out = some out') :
    out.length ≤ out'.length := by
  cases t with
  | literal bytes =>
    obtain rfl := Option.some.inj h
    rw [List.length_append]
    omega
  | copy offset len =>
    simp only [Token.expand] at h
    split_ifs at h with hback
    obtain rfl := Option.some.inj h
    rw [selfCopy_length hback.1 len hback.2]
    omega

theorem unpack_length {out code out' : Bytes} (h : unpack out code = some out') :
    out.length ≤ out'.length := by
  by_cases hne : code = []
  · rw [hne, unpack_nil] at h
    rw [Option.some.inj h]
  · cases hp : parseTag code with
    | none =>
      rw [unpack_of_parse_none hne hp] at h
      cases h
    | some p =>
      obtain ⟨t, rest⟩ := p
      rw [unpack_of_parse hp] at h
      obtain ⟨mid, hmid, hrest⟩ := Option.bind_eq_some_iff.mp h
      have hlen := parseTag_length hp
      exact Nat.le_trans (Token.expand_length hmid) (unpack_length hrest)
termination_by code.length

/-- An element that leads past a limit leads the whole stream past it. -/
theorem unpack_past {out code rest : Bytes} {t : Token} {limit : ℕ}
    (hp : parseTag code = some (t, rest))
    (ht : ∀ out', t.expand out = some out' → limit < out'.length) :
    ∀ out', unpack out code = some out' → limit < out'.length := by
  intro out' h
  rw [unpack_of_parse hp] at h
  obtain ⟨mid, hmid, hrest⟩ := Option.bind_eq_some_iff.mp h
  exact Nat.lt_of_lt_of_le (ht mid hmid) (unpack_length hrest)

/-- `code` takes `out` to `out'`, whatever follows it. -/
def Packs (out code out' : Bytes) : Prop := ∀ rest, unpack out (code ++ rest) = unpack out' rest

theorem Packs.refl (out : Bytes) : Packs out [] out := fun _ ↦ rfl

theorem Packs.trans {out mid out' code code' : Bytes} (h : Packs out code mid)
    (h' : Packs mid code' out') : Packs out (code ++ code') out' := by
  intro rest
  rw [List.append_assoc, h, h']

theorem Packs.of_parse {out code out' : Bytes} {t : Token}
    (hp : ∀ rest, parseTag (code ++ rest) = some (t, rest)) (ht : t.expand out = some out') :
    Packs out code out' := by
  intro rest
  rw [unpack_of_parse (hp rest), ht, Option.bind_some]

theorem Packs.unpack {out code out' : Bytes} (h : Packs out code out') :
    Format.unpack out code = some out' := by
  have hall := h []
  rwa [List.append_nil, unpack_nil] at hall

end Xfrpc.Snappy.Format
