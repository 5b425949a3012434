import Xfrpc.Foundations.Fallible
import Xfrpc.Toml.Norm

namespace Xfrpc.Toml.Pieces

open Foundations.Block Foundations.Fallible Scan Number Toml.Norm

/-- A part of the text of a string: a byte for itself, an escape of one character, an escape
with hex digits, or a line-ending backslash with the blanks before its newline and the white
space after it. -/
inductive Piece
  | byte (c : UInt8)
  | simple (e : UInt8)
  | hex (e : UInt8) (ds : Bytes)
  | ending (blanks newline white : Bytes)
  deriving DecidableEq, Repr

def Piece.render : Piece → Bytes
  | byte c => [c]
  | simple e => [backslash, e]
  | hex e ds => backslash :: e :: ds
  | ending blanks newline white => backslash :: (blanks ++ newline ++ white)

def render (ps : List Piece) : Bytes := ps.flatMap Piece.render

def isWhite (c : UInt8) : Bool := c ∈ [space, tab, cr, lf]

/-- The characters for themselves that are no NUL, no quote and no backslash. -/
def Piece.Legal (plain : UInt8 → Prop) : Piece → Prop
  | byte c => plain c ∧ c ≠ 0 ∧ c ≠ backslash
  | simple e => e ∈ simpleEscapes
  | hex e ds => hexDigits e ≠ 0 ∧ ds.length = hexDigits e ∧ ∀ d ∈ ds, isHexChar d
  | ending blanks newline white =>
    (∀ c ∈ blanks, isBlank c) ∧ (newline = [lf] ∨ newline = [cr, lf]) ∧ ∀ c ∈ white, isWhite c

/-- Pieces one after the other, where a line-ending backslash takes all white space there is. -/
def LegalText (plain : UInt8 → Prop) : List Piece → Prop
  | [] => True
  | p :: ps =>
    p.Legal plain ∧ LegalText plain ps ∧
      ∀ b n w, p = .ending b n w → ∀ c ∈ (render ps).head?, isWhite c = false

/-- The bytes a piece stands for; none where its digits are no character. -/
def Piece.bytes : Piece → Option Bytes
  | byte c => some [c]
  | simple e => (escapeByte e).map fun b ↦ [b]
  | hex e ds =>
    if e ≠ 0x78 ∧ isSurrogate (value 16 ds) then none else Utf8.ucsToUtf8 (value 16 ds)
  | ending _ _ _ => some []

/-- The bytes a text stands for. -/
def denote : List Piece → Option Bytes
  | [] => some []
  | p :: ps => p.bytes.bind fun v ↦ (denote ps).map fun vs ↦ v ++ vs

/-- An error at a line, and not that of a pool without room. -/
def Refused {α : Type} (lineno : ℕ) (x : Except Failure α) : Prop :=
  ∃ text, text ≠ ascii "out of memory" ∧ x = .error (.error lineno text)

theorem text_ne {text : Bytes} (h : text.head? ≠ some 0x6f) : text ≠ ascii "out of memory" := by
  rintro rfl
  exact h rfl

theorem render_cons (p : Piece) (ps : List Piece) : render (p :: ps) = p.render ++ render ps := rfl

theorem LegalText.mono {plain plain' : UInt8 → Prop} (h : ∀ c, plain c → plain' c)
    {ps : List Piece} (hps : LegalText plain ps) : LegalText plain' ps := by
  induction ps with
  | nil => trivial
  | cons p ps ih =>
    obtain ⟨hp, hps, hend⟩ := hps
    refine ⟨?_, ih hps, hend⟩
    cases p with
    | byte c => exact ⟨h c hp.1, hp.2⟩
    | simple e => exact hp
    | hex e ds => exact hp
    | ending b n w => exact hp

theorem escapeByte_isSome {e : UInt8} (h : e ∈ simpleEscapes) : ∃ b, escapeByte e = some b := by
  have htable : ∀ e ∈ simpleEscapes, (escapeByte e).isSome := by decide +kernel
  exact Option.isSome_iff_exists.mp (htable e h)

theorem escapeByte_hex {e : UInt8} (h : hexDigits e ≠ 0) : escapeByte e = none := by
  have htable : ∀ e : Fin 256, hexDigits (.ofNat e.val) ≠ 0 → escapeByte (.ofNat e.val) = none := by
    decide +kernel
  simpa using htable ⟨e.toNat, e.toNat_lt⟩ (by simpa using h)

theorem escapeByte_white {e : UInt8} (h : isWhite e) : escapeByte e = none ∧ hexDigits e = 0 := by
  have htable : ∀ e : Fin 256, isWhite (.ofNat e.val) →
      escapeByte (.ofNat e.val) = none ∧ hexDigits (.ofNat e.val) = 0 := by decide +kernel
  simpa using htable ⟨e.toNat, e.toNat_lt⟩ (by simpa using h)

section Digits

end Digits

theorem strtol16_eq {ds : Bytes} (h : ∀ d ∈ ds, isHexChar d) :
    strtol16 ds = min (value 16 ds) intMax := by
  rw [strtol16, List.takeWhile_eq_self_iff.mpr (by simpa using h)]

/-- A value that `strtol` clips has no bytes, clipped or not. -/
theorem hexBytes_eq (lineno : ℕ) {e : UInt8} {ds : Bytes} (h : ∀ d ∈ ds, isHexChar d) :
    (∀ bs, (Piece.hex e ds).bytes = some bs → hexBytes lineno e ds = .ok bs) ∧
      ((Piece.hex e ds).bytes = none → Refused lineno (hexBytes lineno e ds)) := by
  have hbytes : (Piece.hex e ds).bytes =
      if e ≠ 0x78 ∧ isSurrogate (strtol16 ds) then none else Utf8.ucsToUtf8 (strtol16 ds) := by
    rw [strtol16_eq h, Piece.bytes]
    by_cases hle : value 16 ds ≤ intMax
    · rw [Nat.min_eq_left hle]
    · have hlt : intMax < value 16 ds := Nat.lt_of_not_le hle
      have hlimit : Utf8.limit ≤ intMax := by decide
      have hsur : isSurrogate (value 16 ds) = false := by
        have hmax : 0xdfff < intMax := by decide
        simp only [isSurrogate, Bool.and_eq_false_iff, decide_eq_false_iff_not]
        omega
      rw [Nat.min_eq_right hlt.le, hsur, if_neg (by simp), if_neg (by simp [isSurrogate, intMax]),
        Utf8.ucsToUtf8_eq_none (hlimit.trans hlt.le), Utf8.ucsToUtf8_eq_none hlimit]
  rw [hbytes, hexBytes]
  by_cases hsur : e ≠ 0x78 ∧ isSurrogate (strtol16 ds)
  · rw [if_pos hsur, if_pos hsur]
    exact ⟨fun bs hbs ↦ by simp at hbs, fun _ ↦ ⟨_, text_ne (by simp [ascii]), rfl⟩⟩
  · rw [if_neg hsur, if_neg hsur]
    cases Utf8.ucsToUtf8 (strtol16 ds) with
    | none => exact ⟨fun bs hbs ↦ by simp at hbs, fun _ ↦ ⟨_, text_ne (by simp [ascii]), rfl⟩⟩
    | some u => exact ⟨fun bs hbs ↦ by rw [Option.some.inj hbs], fun hbs ↦ by simp at hbs⟩

theorem hexDigits_cases {e : UInt8} (h : hexDigits e ≠ 0) :
    hexDigits e = 2 ∧ e = 0x78 ∨ hexDigits e = 4 ∨ hexDigits e = 8 := by
  unfold hexDigits at h ⊢
  split_ifs at h ⊢ <;> simp_all

theorem ucsToUtf8_length {code : ℕ} {bs : Bytes} (h : Utf8.ucsToUtf8 code = some bs) :
    bs.length ≤ 4 := by
  unfold Utf8.ucsToUtf8 at h
  split_ifs at h <;> cases h <;> simp

/-- What a piece stands for is no longer than its text, so that it can take its place. -/
theorem bytes_length_le {plain : UInt8 → Prop} {p : Piece} (hp : p.Legal plain) {v : Bytes}
    (hv : p.bytes = some v) : v.length ≤ p.render.length := by
  cases p with
  | byte c =>
    cases hv
    exact Nat.le_refl _
  | simple e =>
    obtain ⟨b, hb⟩ := escapeByte_isSome hp
    rw [Piece.bytes, hb, Option.map_some, Option.some.injEq] at hv
    rw [← hv]
    exact Nat.le_succ 1
  | hex e ds =>
    obtain ⟨hne, hlen, -⟩ := hp
    rw [Piece.bytes] at hv
    split_ifs at hv
    have hfour := ucsToUtf8_length hv
    rw [Piece.render, List.length_cons, List.length_cons, hlen]
    rcases hexDigits_cases hne with ⟨h2, -⟩ | h4 | h8 <;> omega
  | ending b n w =>
    cases hv
    exact Nat.zero_le _

theorem render_pos (p : Piece) : 0 < p.render.length := by
  cases p <;> exact Nat.succ_pos _

section Buffer

variable {buf : Bytes} {i : ℕ}

theorem readByte_drop {c : UInt8} {t : Bytes} (h : buf.drop i = c :: t) :
    readByte buf i = .ok c := by
  have hget : buf[i]? = some c := by
    rw [← Nat.add_zero i, ← List.getElem?_drop, h]
    rfl
  rw [readByte, hget]

theorem drop_add {a t : Bytes} (h : buf.drop i = a ++ t) : buf.drop (i + a.length) = t := by
  rw [← List.drop_drop, h, List.drop_left]

theorem length_of_drop {t : Bytes} (h : buf.drop i = t) (ht : t ≠ []) :
    i + t.length = buf.length := by
  have hlen := congrArg List.length h
  have hpos := List.length_pos_iff.mpr ht
  rw [List.length_drop] at hlen
  omega

theorem readBytes_drop {ds t : Bytes} (h : buf.drop i = ds ++ t) (ht : t ≠ []) :
    readBytes buf i ds.length = .ok ds := by
  have hlen := length_of_drop h (by simp [ht])
  rw [List.length_append] at hlen
  rw [readBytes, load?_eq (by omega), h, List.take_left]

theorem strspn_drop {accept ws t : Bytes} {c : UInt8} (h : buf.drop i = ws ++ c :: t)
    (hws : ∀ w ∈ ws, w ∈ accept) (hc : c ∉ accept) : strspn buf i accept = .ok ws.length := by
  have htake : ((buf.drop i).takeWhile (· ∈ accept)) = ws := by
    rw [h, List.takeWhile_append_of_pos (by simpa using hws),
      List.takeWhile_cons_of_neg (by simpa using hc), List.append_nil]
  have hlen := length_of_drop h (by simp)
  rw [List.length_append, List.length_cons] at hlen
  simp only [strspn, htake]
  rw [if_pos (by omega)]

theorem writeBytes_eq {bs : Bytes} (h : i + bs.length ≤ buf.length) :
    writeBytes buf i bs = .ok (store buf i bs) := by
  rw [writeBytes, store?_eq h]

end Buffer

theorem skipLineEnding_eq (lineno : ℕ) {buf : Bytes} {i : ℕ} {b n w t : Bytes} {c e : UInt8}
    (h : buf.drop i = (Piece.ending b n w).render ++ c :: t)
    (hb : ∀ c ∈ b, isBlank c) (hn : n = [lf] ∨ n = [cr, lf]) (hw : ∀ c ∈ w, isWhite c)
    (hc : isWhite c = false) (he : (b ++ n).head? = some e) :
    skipLineEnding lineno buf i e = .ok (i + (Piece.ending b n w).render.length) := by
  have hlf : lf ∉ [space, tab, cr] := by decide
  have hcw : c ∉ [space, tab, cr, lf] := by simpa [isWhite] using hc
  have hww : ∀ c ∈ w, c ∈ [space, tab, cr, lf] := by simpa [isWhite] using hw
  -- the blanks and a carriage return, up to the newline
  obtain ⟨pre, hpre, hsplit⟩ : ∃ pre, (∀ c ∈ pre, c ∈ [space, tab, cr]) ∧ b ++ n = pre ++ [lf] := by
    have hbl : ∀ c ∈ b, c ∈ [space, tab, cr] := by
      intro c hcb
      have hcb := hb c hcb
      simp only [isBlank, Bool.or_eq_true, decide_eq_true_eq] at hcb
      simp [hcb, ← or_assoc]
    rcases hn with rfl | rfl
    · exact ⟨b, hbl, rfl⟩
    · refine ⟨b ++ [cr], fun c hc ↦ ?_, by simp⟩
      rcases List.mem_append.mp hc with hc | hc
      · exact hbl c hc
      · simp [List.mem_singleton.mp hc]
  have hdrop : buf.drop (i + 1) = pre ++ lf :: (w ++ c :: t) := by
    rw [Piece.render, hsplit] at h
    have hback : buf.drop i = [backslash] ++ (pre ++ lf :: (w ++ c :: t)) := by simpa using h
    exact drop_add hback
  have hafter : buf.drop (i + 1 + pre.length + 1) = w ++ c :: t := by
    have hline : buf.drop (i + 1) = (pre ++ [lf]) ++ (w ++ c :: t) := by simpa using hdrop
    simpa [Nat.add_assoc] using drop_add hline
  have hlen : i + (Piece.ending b n w).render.length = i + 1 + pre.length + 1 + w.length := by
    rw [Piece.render, hsplit]
    simp only [List.length_cons, List.length_append, List.length_nil]
    omega
  rw [skipLineEnding, hlen]
  rw [hsplit] at he
  cases pre with
  | nil =>
    obtain rfl : e = lf := by simpa using he.symm
    have hlfw : ∀ c ∈ lf :: w, c ∈ [space, tab, cr, lf] :=
      List.forall_mem_cons.mpr ⟨by decide, hww⟩
    have hspn : strspn buf (i + 1) [space, tab, cr, lf] = .ok (lf :: w).length :=
      strspn_drop hdrop hlfw hcw
    rw [if_pos rfl, ok_bind]
    beta_reduce
    rw [hspn, ok_bind, List.length_cons, List.length_nil]
    congr 1
    omega
  | cons x pre =>
    obtain rfl : e = x := by simpa using he.symm
    have hne : e ≠ lf := by
      rintro rfl
      exact hlf (hpre lf List.mem_cons_self)
    rw [if_neg hne, strspn_drop hdrop hpre hlf, ok_bind,
      readByte_drop (drop_add hdrop), ok_bind, if_neg (by simp), ok_bind]
    beta_reduce
    rw [strspn_drop hafter hww hcw]
    rfl

/-- The piece at the reading place, and what stands behind it. -/
structure Ahead (plain : UInt8 → Prop) (buf : Bytes) (i : ℕ) (p : Piece) (t : Bytes) : Prop where
  legal : p.Legal plain
  text : buf.drop i = p.render ++ t
  behind : ∃ c, t.head? = some c ∧ ∀ b n w, p = .ending b n w → isWhite c = false

section Loop

variable {plain : UInt8 → Prop} {lineno fuel dst i : ℕ} {buf t : Bytes} {p : Piece}

theorem Ahead.ne_nil (h : Ahead plain buf i p t) : t ≠ [] := by
  obtain ⟨c, hc, -⟩ := h.behind
  rintro rfl
  cases hc

theorem Ahead.length (h : Ahead plain buf i p t) : i + p.render.length + t.length = buf.length := by
  have hlen := length_of_drop h.text (by simp [h.ne_nil])
  rw [List.length_append] at hlen
  omega

theorem Ahead.write (h : Ahead plain buf i p t) (hdst : dst ≤ i) {v : Bytes}
    (hv : p.bytes = some v) : writeBytes buf dst v = .ok (store buf dst v) := by
  have hle := bytes_length_le h.legal hv
  have hlen := h.length
  exact writeBytes_eq (by omega)

/-- A piece that stands for bytes is read, and they are written. -/
theorem normLoop_piece (h : Ahead plain buf i p t) (hdst : dst ≤ i) {v : Bytes}
    (hv : p.bytes = some v) :
    normLoop lineno (fuel + 1) buf dst i =
      normLoop lineno fuel (store buf dst v) (dst + v.length) (i + p.render.length) := by
  have hwrite := h.write hdst hv
  cases p with
  | byte c =>
    obtain ⟨-, hzero, hback⟩ := h.legal
    cases hv
    rw [normLoop, readByte_drop (t := t) h.text, ok_bind, if_neg hzero, if_pos hback, hwrite]
    rfl
  | simple e =>
    obtain ⟨b, hb⟩ := escapeByte_isSome h.legal
    obtain rfl : [b] = v := by simpa [Piece.bytes, hb] using hv
    have hsecond : buf.drop (i + 1) = e :: t := drop_add (a := [backslash]) h.text
    rw [normLoop, readByte_drop (t := e :: t) h.text, ok_bind, if_neg (by decide),
      if_neg (by decide), readByte_drop hsecond, ok_bind]
    simp only [hb, hwrite]
    rfl
  | hex e ds =>
    obtain ⟨hne, hlen, hds⟩ := h.legal
    have hsecond : buf.drop (i + 1) = e :: (ds ++ t) := drop_add (a := [backslash]) h.text
    have hthird : buf.drop (i + 2) = ds ++ t := drop_add (a := [backslash, e]) h.text
    have hread := readBytes_drop hthird h.ne_nil
    rw [hlen] at hread
    rw [normLoop, readByte_drop (t := e :: (ds ++ t)) h.text, ok_bind, if_neg (by decide),
      if_neg (by decide), readByte_drop hsecond, ok_bind]
    simp only [escapeByte_hex hne, if_pos hne, hread, ok_bind, (hexBytes_eq lineno hds).1 v hv,
      hwrite]
    rw [Piece.render, List.length_cons, List.length_cons, hlen]
    congr 1
    omega
  | ending b n w =>
    obtain ⟨hb, hn, hw⟩ := h.legal
    obtain ⟨c, hc, hnot⟩ := h.behind
    obtain ⟨t', rfl⟩ : ∃ t', t = c :: t' := ⟨t.tail, by cases t <;> simp_all⟩
    cases hv
    obtain ⟨e, r, her⟩ : ∃ e r, b ++ n = e :: r := by
      rcases hn with rfl | rfl <;> cases b <;> simp
    have he : isWhite e := by
      have hmem : e ∈ b ++ n := by rw [her]; exact List.mem_cons_self
      rcases List.mem_append.mp hmem with hmem | hmem
      · have hblank := hb e hmem
        simp only [isBlank, Bool.or_eq_true, decide_eq_true_eq] at hblank
        rcases hblank with rfl | rfl <;> decide
      · rcases hn with rfl | rfl
        · rw [List.mem_singleton.mp hmem]
          decide
        · rcases List.mem_pair.mp hmem with rfl | rfl <;> decide
    have hsecond : buf.drop (i + 1) = e :: (r ++ w ++ c :: t') := by
      have hback : buf.drop i = [backslash] ++ (e :: (r ++ w ++ c :: t')) := by
        rw [h.text, Piece.render, her]
        simp
      exact drop_add hback
    have hskip : skipLineEnding lineno buf i e = .ok (i + (Piece.ending b n w).render.length) :=
      skipLineEnding_eq lineno h.text hb hn hw (hnot b n w rfl) (by rw [her]; rfl)
    have hsame : store buf dst [] = buf := by
      rw [store, List.nil_append, List.length_nil, Nat.add_zero, List.take_append_drop]
    obtain ⟨hesc, hhex⟩ := escapeByte_white he
    rw [normLoop, readByte_drop (t := (b ++ n ++ w) ++ c :: t') h.text, ok_bind,
      if_neg (by decide), if_neg (by decide), readByte_drop hsecond, ok_bind]
    simp only [hesc, hhex]
    rw [if_neg (by simp), if_pos (by simpa [isWhite] using he), hskip, ok_bind, hsame]
    rfl

/-- A piece that stands for no bytes ends the loop with the error of its digits. -/
theorem normLoop_refused (h : Ahead plain buf i p t) (hv : p.bytes = none) :
    Refused lineno (normLoop lineno (fuel + 1) buf dst i) := by
  cases p with
  | byte c => cases hv
  | simple e =>
    obtain ⟨b, hb⟩ := escapeByte_isSome h.legal
    simp [Piece.bytes, hb] at hv
  | hex e ds =>
    obtain ⟨hne, hlen, hds⟩ := h.legal
    obtain ⟨text, htext, herr⟩ := (hexBytes_eq lineno hds).2 hv
    have hsecond : buf.drop (i + 1) = e :: (ds ++ t) := drop_add (a := [backslash]) h.text
    have hthird : buf.drop (i + 2) = ds ++ t := drop_add (a := [backslash, e]) h.text
    have hread := readBytes_drop hthird h.ne_nil
    rw [hlen] at hread
    refine ⟨text, htext, ?_⟩
    rw [normLoop, readByte_drop (t := e :: (ds ++ t)) h.text, ok_bind, if_neg (by decide),
      if_neg (by decide), readByte_drop hsecond, ok_bind]
    simp only [escapeByte_hex hne, if_pos hne, hread, ok_bind, herr]
    rfl
  | ending b n w => cases hv

end Loop

/-- The loop over a whole text: the bytes it stands for take its place in the buffer. -/
theorem normLoop_text {plain : UInt8 → Prop} (lineno : ℕ) {ps : List Piece}
    (hps : LegalText plain ps) {fuel dst i : ℕ} {buf : Bytes} (hdst : dst ≤ i)
    (hdrop : buf.drop i = render ps ++ [0]) (hfuel : ps.length < fuel) :
    (∀ v, denote ps = some v →
      ∃ buf', normLoop lineno fuel buf dst i = .ok (buf', dst + v.length) ∧
        buf'.length = buf.length ∧ buf'.take (dst + v.length) = buf.take dst ++ v) ∧
    (denote ps = none → Refused lineno (normLoop lineno fuel buf dst i)) := by
  induction ps generalizing fuel buf dst i with
  | nil =>
    obtain ⟨fuel, rfl⟩ : ∃ k, fuel = k + 1 := Nat.exists_eq_succ_of_ne_zero (Nat.ne_zero_of_lt hfuel)
    refine ⟨fun v hv ↦ ?_, fun hv ↦ by cases hv⟩
    cases hv
    refine ⟨buf, ?_, rfl, by simp⟩
    rw [normLoop, readByte_drop (t := []) hdrop, ok_bind, if_pos rfl]
    rfl
  | cons p ps ih =>
    obtain ⟨hp, hps, hend⟩ := hps
    obtain ⟨fuel, rfl⟩ : ∃ k, fuel = k + 1 := Nat.exists_eq_succ_of_ne_zero (Nat.ne_zero_of_lt hfuel)
    have hahead : Ahead plain buf i p (render ps ++ [0]) := by
      refine ⟨hp, by rw [hdrop, render_cons, List.append_assoc], ?_⟩
      cases hr : render ps with
      | nil => exact ⟨0, rfl, fun _ _ _ _ ↦ by decide⟩
      | cons c r => exact ⟨c, rfl, fun b n w hbnw ↦ hend b n w hbnw c (by rw [hr]; rfl)⟩
    cases hv : p.bytes with
    | none =>
      refine ⟨fun v h ↦ ?_, fun _ ↦ normLoop_refused hahead hv⟩
      rw [denote, hv] at h
      cases h
    | some v =>
      have hle := bytes_length_le hp hv
      have hlen := hahead.length
      have hdst' : dst ≤ buf.length := by omega
      have hdrop' : (store buf dst v).drop (i + p.render.length) = render ps ++ [0] := by
        rw [drop_store hdst' (by omega)]
        exact drop_add hahead.text
      have hdst'' : dst + v.length ≤ i + p.render.length := by omega
      have ih := ih hps hdst'' hdrop' (by simpa using hfuel)
      rw [normLoop_piece hahead hdst hv, denote, hv, Option.bind_some]
      refine ⟨fun vs h ↦ ?_, fun h ↦ ih.2 (by simpa using h)⟩
      obtain ⟨us, hus, rfl⟩ := Option.map_eq_some_iff.mp h
      obtain ⟨buf', hrun, hlen', htake⟩ := ih.1 us hus
      refine ⟨buf', ?_, ?_, ?_⟩
      · rw [hrun, List.length_append, Nat.add_assoc]
      · rw [hlen', store_length (by omega)]
      · rw [List.length_append, ← Nat.add_assoc, htake, store_take hdst', List.append_assoc]

theorem length_le_render (ps : List Piece) : ps.length ≤ (render ps).length := by
  induction ps with
  | nil => exact Nat.le_refl 0
  | cons p ps ih =>
    have hp := render_pos p
    rw [render_cons, List.length_append, List.length_cons]
    omega

theorem denote_length_le {plain : UInt8 → Prop} {ps : List Piece} (hps : LegalText plain ps)
    {v : Bytes} (hv : denote ps = some v) : v.length ≤ (render ps).length := by
  induction ps generalizing v with
  | nil =>
    cases hv
    exact Nat.le_refl 0
  | cons p ps ih =>
    rw [denote, Option.bind_eq_some_iff] at hv
    obtain ⟨u, hu, hv⟩ := hv
    obtain ⟨us, hus, rfl⟩ := Option.map_eq_some_iff.mp hv
    have hle := bytes_length_le hps.1 hu
    have hrest := ih hps.2.1 hus
    rw [render_cons, List.length_append, List.length_append]
    omega

end Xfrpc.Toml.Pieces
