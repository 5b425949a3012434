import Mathlib.Data.List.DropRight
import Xfrpc.Foundations.CString
import Xfrpc.Foundations.LineReader

namespace Xfrpc.Config.Ini

open Foundations.CString Foundations.LineReader

def newline : UInt8 := 0x0a
def bom : Bytes := [0xef, 0xbb, 0xbf]
def semicolon : UInt8 := 0x3b
def hash : UInt8 := 0x23
def openBracket : UInt8 := 0x5b
def closeBracket : UInt8 := 0x5d
def equalSign : UInt8 := 0x3d
def colon : UInt8 := 0x3a

def maxSection : ℕ := 50
def maxName : ℕ := 50
def iniMaxLine : ℕ := 200

def isSpace (c : UInt8) : Bool := c = 0x20 || (0x09 ≤ c && c ≤ 0x0d)

def rstrip (s : Bytes) : Bytes := s.rdropWhile isSpace

def lskip (s : Bytes) : Bytes := s.dropWhile isSpace

/-- `find_chars_or_comment`: the text before the place it finds, and the text from there
on. No characters stand for the NULL of a search for comments alone. -/
def findCharsOrComment (chars : Bytes) (wasSpace : Bool) : Bytes → Bytes × Bytes
  | [] => ([], [])
  | c :: s =>
    if c ∈ chars ∨ (wasSpace ∧ c = semicolon) then ([], c :: s)
    else
      let (before, rest) := findCharsOrComment chars (isSpace c) s
      (c :: before, rest)

/-- `strncpy0` into a field of `size` bytes. -/
def strncpy0 (src : Bytes) (size : ℕ) : Bytes := src.take (size - 1)

structure Call where
  sect : Bytes
  nm : Bytes
  value : Bytes
  deriving DecidableEq, Repr

section Parse

variable {υ : Type}

/-- A handler: whether it returns a value other than zero, and its user data after the
call. -/
abbrev Handler (υ : Type) := υ → Call → Bool × υ

/-- The variables of `ini_parse_stream`, with the user data and the calls made so far. -/
structure Parser (υ : Type) where
  user : υ
  sect : Bytes
  prevName : Bytes
  lineno : ℕ
  error : ℕ
  calls : List Call

def Parser.start (user : υ) : Parser υ :=
  { user, sect := [], prevName := [], lineno := 0, error := 0, calls := [] }

/-- Only the first error keeps its line. -/
def Parser.fail (p : Parser υ) : Parser υ := if p.error = 0 then { p with error := p.lineno } else p

def Parser.call (p : Parser υ) (handler : Handler υ) (c : Call) : Parser υ :=
  let (ok, user) := handler p.user c
  let p := { p with user, calls := p.calls ++ [c] }
  if ok then p else p.fail

def Parser.sectionLine (p : Parser υ) (start : Bytes) : Parser υ :=
  match findCharsOrComment [closeBracket] false start.tail with
  | (before, c :: _) =>
    if c = closeBracket then { p with sect := strncpy0 before maxSection, prevName := [] }
    else p.fail
  | (_, []) => p.fail

def Parser.pairLine (p : Parser υ) (handler : Handler υ) (start : Bytes) : Parser υ :=
  match findCharsOrComment [equalSign, colon] false start with
  | (before, c :: value) =>
    if c = equalSign ∨ c = colon then
      let nm := rstrip before
      let value := rstrip (lskip (findCharsOrComment [] false value).1)
      { p with prevName := strncpy0 nm maxName }.call handler { sect := p.sect, nm, value }
    else p.fail
  | (_, []) => p.fail

/-- The body of the loop of `ini_parse_stream`, on what the reader has left in its
buffer. -/
def Parser.line (handler : Handler υ) (p : Parser υ) (buffer : Bytes) : Parser υ :=
  let p := { p with lineno := p.lineno + 1 }
  let text := cString buffer
  let marked := p.lineno = 1 ∧ bom <+: text
  let stripped := rstrip (if marked then text.drop 3 else text)
  let start := lskip stripped
  if start.head? = some semicolon ∨ start.head? = some hash then p
  else if p.prevName ≠ [] ∧ start ≠ [] ∧ (marked ∨ start.length < stripped.length) then
    p.call handler { sect := p.sect, nm := p.prevName, value := start }
  else if start.head? = some openBracket then p.sectionLine start
  else if start ≠ [] then p.pairLine handler start
  else p

/-- The value a parse returns, the calls of the handler and the user data they leave. -/
structure Parsed (υ : Type) where
  value : ℤ
  calls : List Call
  user : υ

def Parser.finish (p : Parser υ) : Parsed υ := { value := p.error, calls := p.calls, user := p.user }

/-- `ini_parse_stream`; no result when the fuel is spent before the reader is done. -/
def iniParseStream {σ : Type} (reader : ℕ → σ → Option (Bytes × σ)) (fuel : ℕ) (stream : σ)
    (handler : Handler υ) (user : υ) : Option (Parsed υ) :=
  (readLoop (reader iniMaxLine) (Parser.line handler) fuel stream (Parser.start user)).map
    Parser.finish

/-- The loop of `ini_string_reader`: the length of the line so far, and the string from
`pos` on, which ends with its terminator. -/
def skipLine (num : ℕ) : ℕ → Bytes → ℕ × Bytes
  | len, [] => (len, [])
  | len, c :: pos =>
    if c ≠ 0 ∧ c ≠ newline ∧ len < num - 1 then skipLine num (len + 1) pos else (len, c :: pos)

def iniStringReader (num : ℕ) (pos : Bytes) : Option (Bytes × Bytes) :=
  if pos.headD 0 = 0 ∨ num ≤ 1 then none
  else
    let (len, rest) := skipLine num 0 pos
    if rest.headD 0 = newline ∧ len < num - 1 then some (pos.take (len + 1), rest.tail)
    else some (pos.take len, rest)

/-- `ini_parse_string`; a string that is NULL is none. -/
def iniParseString (fuel : ℕ) (string : Option Bytes) (handler : Handler υ) (user : υ) :
    Option (Parsed υ) :=
  match string with
  | none => some { value := -1, calls := [], user }
  | some text => iniParseStream iniStringReader fuel text handler user

def iniParseFile (fuel : ℕ) (file : Bytes) (handler : Handler υ) (user : υ) : Option (Parsed υ) :=
  iniParseStream (fgets newline) fuel file handler user

/-- `ini_parse`; a file that cannot be opened is none. -/
def iniParse (fuel : ℕ) (file : Option Bytes) (handler : Handler υ) (user : υ) :
    Option (Parsed υ) :=
  match file with
  | none => some { value := -1, calls := [], user }
  | some content => iniParseFile fuel content handler user

end Parse

theorem le_skipLine (num len : ℕ) (pos : Bytes) : len ≤ (skipLine num len pos).1 := by
  induction pos generalizing len with
  | nil => exact Nat.le_refl _
  | cons c pos ih =>
    rw [skipLine]
    split_ifs
    · exact Nat.le_of_succ_le (ih (len + 1))
    · exact Nat.le_refl _

/-- What the loop of `ini_string_reader` and the step over the newline after it take
together is what `fgets` takes. -/
theorem skipLine_takeLine {num len : ℕ} {pos : Bytes} (hlen : len ≤ num - 1) (hpos : 0 ∉ pos) :
    takeLine newline (num - 1 - len) pos =
      if (skipLine num len pos).2.headD 0 = newline ∧ (skipLine num len pos).1 < num - 1 then
        (pos.take ((skipLine num len pos).1 - len + 1), (skipLine num len pos).2.tail)
      else (pos.take ((skipLine num len pos).1 - len), (skipLine num len pos).2) := by
  induction pos generalizing len with
  | nil =>
    have hnone : takeLine newline (num - 1 - len) [] = ([], []) := by
      cases num - 1 - len <;> rfl
    have hhead : ¬ (List.headD ([] : Bytes) 0 = newline ∧ len < num - 1) := by simp [newline]
    rw [hnone, skipLine, if_neg hhead]
    simp
  | cons c pos ih =>
    obtain ⟨hc, hrest⟩ := not_or.mp (fun hm ↦ hpos (List.mem_cons.mpr hm))
    by_cases hlim : len < num - 1
    · obtain ⟨n, hn⟩ : ∃ n, num - 1 - len = n + 1 := ⟨num - 1 - len - 1, by omega⟩
      have hn' : num - 1 - (len + 1) = n := by omega
      by_cases hnl : c = newline
      · have hstop : skipLine num len (c :: pos) = (len, c :: pos) := by
          rw [skipLine, if_neg (fun h ↦ h.2.1 hnl)]
        rw [hstop, hn, takeLine, if_pos hnl, if_pos ⟨hnl, hlim⟩]
        simp
      · have hgo : skipLine num len (c :: pos) = skipLine num (len + 1) pos := by
          rw [skipLine, if_pos ⟨Ne.symm hc, hnl, hlim⟩]
        have hle := le_skipLine num (len + 1) pos
        have hshift : (skipLine num (len + 1) pos).1 - len =
            (skipLine num (len + 1) pos).1 - (len + 1) + 1 := by omega
        have hline := @ih (len + 1) (by omega) hrest
        rw [hn'] at hline
        rw [hgo, hn, takeLine, if_neg hnl, hline, hshift]
        split_ifs <;> rfl
    · have hstop : skipLine num len (c :: pos) = (len, c :: pos) := by
        rw [skipLine, if_neg (fun h ↦ hlim h.2.2)]
      have hzero : num - 1 - len = 0 := by omega
      rw [hstop, hzero, takeLine, if_neg (fun h ↦ hlim h.2)]
      simp

theorem iniStringReader_eq_fgets {num : ℕ} (hnum : 2 ≤ num) {pos : Bytes} (hpos : 0 ∉ pos) :
    iniStringReader num pos = fgets newline num pos := by
  cases pos with
  | nil => rfl
  | cons c pos =>
    obtain ⟨hc, -⟩ := not_or.mp (fun hm ↦ hpos (List.mem_cons.mpr hm))
    have hline := skipLine_takeLine (Nat.zero_le (num - 1)) hpos
    rw [Nat.sub_zero] at hline
    have hgoes : ¬ ((c :: pos).headD 0 = 0 ∨ num ≤ 1) := not_or.mpr ⟨Ne.symm hc, by omega⟩
    rw [iniStringReader, if_neg hgoes, fgets, if_neg (List.cons_ne_nil c pos), hline]
    dsimp only
    split_ifs <;> rfl

/-- Along a text without a NUL both readers do the same. -/
theorem readers_agree {num : ℕ} (hnum : 2 ≤ num) :
    Agree (fun text : Bytes ↦ 0 ∉ text) (iniStringReader num) (fgets newline num) where
  same _ htext := iniStringReader_eq_fgets hnum htext
  kept text line rest htext hread := by
    rw [iniStringReader_eq_fgets hnum htext, fgets] at hread
    split_ifs at hread
    have hsplit := takeLine_append newline (num - 1) text
    rw [Option.some.inj hread] at hsplit
    exact fun hm ↦ htext (hsplit ▸ List.mem_append_right line hm)

theorem iniParseString_eq_iniParse {υ : Type} {text : Bytes} (htext : 0 ∉ text) :
    (∀ num, 2 ≤ num → ∃ ls, Lines newline (num - 1) text ls ∧
      ∀ fuel, text.length < fuel →
        lines (iniStringReader num) fuel text = some ls ∧
        lines (fgets newline num) fuel text = some ls) ∧
    ∀ (handler : Handler υ) (user : υ), ∃ parsed, ∀ fuel, text.length < fuel →
      iniParseString fuel (some text) handler user = some parsed ∧
      iniParse fuel (some text) handler user = some parsed := by
  constructor
  · intro num hnum
    obtain ⟨ls, hls, hlines⟩ := lines_fgets hnum (Nat.lt_succ_self text.length)
    refine ⟨ls, hlines, ?_⟩
    intro fuel hfuel
    have hfgets : lines (fgets newline num) fuel text = some ls := readLoop_of_le hls hfuel
    have hstring := (readers_agree hnum).readLoop_eq (fun ls line ↦ ls ++ [line]) fuel htext []
    exact ⟨hstring.trans hfgets, hfgets⟩
  · intro handler user
    have hmax : 2 ≤ iniMaxLine := by decide
    obtain ⟨p, hp⟩ := Option.isSome_iff_exists.mp (readLoop_isSome (fgets_size hmax)
      (Parser.line handler) (Nat.lt_succ_self text.length) (Parser.start user))
    refine ⟨p.finish, ?_⟩
    intro fuel hfuel
    have hfile : iniParse fuel (some text) handler user = some p.finish := by
      rw [iniParse, iniParseFile, iniParseStream, readLoop_of_le hp hfuel]
      rfl
    have hstring : iniParseString fuel (some text) handler user =
        iniParse fuel (some text) handler user := by
      rw [iniParseString, iniParse, iniParseFile, iniParseStream, iniParseStream,
        (readers_agree hmax).readLoop_eq (Parser.line handler) fuel htext]
    exact ⟨hstring.trans hfile, hfile⟩

/-- `[a]`, then `k=v` without a newline. -/
def shortText : Bytes := [0x5b, 0x61, 0x5d, 0x0a, 0x6b, 0x3d, 0x76]

theorem iniParseString_eq_iniParse_short :
    (∃ ls, Lines newline 3 shortText ls) ∧
      ∃ parsed : Parsed Unit, iniParseString 8 (some shortText) (fun u _ ↦ (true, u)) () =
          some parsed ∧
        iniParse 8 (some shortText) (fun u _ ↦ (true, u)) () = some parsed ∧
        parsed.value = 0 ∧ parsed.calls = [{ sect := [0x61], nm := [0x6b], value := [0x76] }] := by
  have hnul : 0 ∉ shortText := by decide
  obtain ⟨hlines, hparse⟩ := @iniParseString_eq_iniParse Unit shortText hnul
  obtain ⟨ls, hls, -⟩ := hlines 4 (by decide)
  obtain ⟨parsed, hparsed⟩ := hparse (fun u _ ↦ (true, u)) ()
  obtain ⟨hstring, hfile⟩ := hparsed 8 (by decide)
  have hrun : iniParseString 8 (some shortText) (fun u _ ↦ (true, u)) () =
      some { value := 0, calls := [{ sect := [0x61], nm := [0x6b], value := [0x76] }],
             user := () } := by
    rfl
  obtain rfl := Option.some.inj (hrun.symm.trans hstring)
  exact ⟨⟨ls, hls⟩, _, hstring, hfile, rfl, rfl⟩

end Xfrpc.Config.Ini
