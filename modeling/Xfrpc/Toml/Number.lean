import Xfrpc.Toml.Scan

namespace Xfrpc.Toml.Number

open Scan

variable {F : Type}

def plus : UInt8 := 0x2b
def minus : UInt8 := 0x2d
def point : UInt8 := 0x2e
def zero : UInt8 := 0x30
def colon : UInt8 := 0x3a
def underscore : UInt8 := 0x5f

def intMax : ℕ := 2147483647

/-- `scan_copystr` into a buffer of `dstsz` bytes, as the string that it then holds. -/
def scanCopystr (sp : ScannerState) (dstsz : ℕ) : Bytes :=
  (sp.rest.take (dstsz - 1)).takeWhile (· ≠ 0)

/-- The character at an index of a string, 0 past its end. -/
def charAt (p : Bytes) (i : ℕ) : UInt8 := p.getD i 0

def digitValue (ch : UInt8) : ℕ :=
  if isDigit ch then ch.toNat - 0x30 else (toUpper ch).toNat - 0x41 + 10

def value (base : ℕ) (ds : Bytes) : ℕ := ds.foldl (fun v d ↦ v * base + digitValue d) 0

def isValidDate (year month day : ℤ) : Bool :=
  let leap : ℤ := if (year % 4 = 0 ∧ year % 100 ≠ 0) ∨ year % 400 = 0 then 1 else 0
  let daysInMonth := [31, 28 + leap, 31, 30, 31, 30, 31, 31, 30, 31, 30, 31]
  1 ≤ year && 1 ≤ month && month ≤ 12 && 1 ≤ day && day ≤ daysInMonth.getD (month - 1).toNat 0

def isValidTime (hour minute sec usec : ℤ) : Bool :=
  0 ≤ hour && hour ≤ 23 && 0 ≤ minute && minute ≤ 59 && 0 ≤ sec && sec ≤ 59 && 0 ≤ usec

def isValidTimezone (minute : ℤ) : Bool := minute.natAbs / 60 ≤ 23

/-- The number of digits and their value; no digits where the value overflows. -/
def readInt (p : Bytes) : ℕ × ℤ :=
  let ds := p.takeWhile isDigit
  if intMax < value 10 ds then (0, 0) else (ds.length, value 10 ds)

/-- Year, month and day. -/
def readDate (p : Bytes) : Option (ℤ × ℤ × ℤ) :=
  let (n, year) := readInt p
  if n ≠ 4 ∨ charAt p 4 ≠ minus then none
  else
    let (n, month) := readInt (p.drop 5)
    if n ≠ 2 ∨ charAt p 7 ≠ minus then none
    else
      let (n, day) := readInt (p.drop 8)
      if n ≠ 2 then none else some (year, month, day)

/-- The loop over the digits of a fraction, down to micro-seconds. -/
def readMicro (ds : Bytes) : ℕ :=
  (ds.zip [100000, 10000, 1000, 100, 10, 1]).foldl (fun v d ↦ v + (d.1.toNat - 0x30) * d.2) 0

structure Clock where
  hour : ℤ
  minute : ℤ
  sec : ℤ
  usec : ℤ

/-- The time and the number of its bytes. -/
def readTime (p : Bytes) : Option (ℕ × Clock) :=
  let (n, hour) := readInt p
  if n ≠ 2 ∨ charAt p 2 ≠ colon then none
  else
    let (n, minute) := readInt (p.drop 3)
    if n ≠ 2 then none
    else if charAt p 5 ≠ colon then some (5, ⟨hour, minute, 0, 0⟩)
    else
      let (n, sec) := readInt (p.drop 6)
      if n ≠ 2 then none
      else if charAt p 8 ≠ point then some (8, ⟨hour, minute, sec, 0⟩)
      else
        let ds := (p.drop 9).takeWhile isDigit
        if ds = [] then none else some (9 + ds.length, ⟨hour, minute, sec, readMicro ds⟩)

/-- The bytes of a timezone, the sign of its offset, its hours and its minutes. -/
def readTzone (p : Bytes) : Option (ℕ × UInt8 × ℤ × ℤ) :=
  if charAt p 0 = 0x5a ∨ charAt p 0 = 0x7a then some (1, plus, 0, 0)
  else if charAt p 0 ≠ plus ∧ charAt p 0 ≠ minus then none
  else
    let (n, hour) := readInt (p.drop 1)
    if n ≠ 2 ∨ charAt p 3 ≠ colon then none
    else
      let (n, minute) := readInt (p.drop 4)
      if n ≠ 2 then none else some (6, charAt p 0, hour, minute)

def scanTime (sp : ScannerState) : Except Failure (Token F × ScannerState) :=
  match readTime (scanCopystr sp 20) with
  | none => fail sp.lineno "invalid time"
  | some (len, t) =>
    if isValidTime t.hour t.minute t.sec t.usec then
      .ok (mktoken sp .time len (.tsval ⟨-1, -1, -1, t.hour, t.minute, t.sec, t.usec, -1⟩),
        sp.skip len)
    else fail sp.lineno "invalid time"

/-- The checks at the end of `scan_timestamp`. -/
def checkTimestamp (lineno : ℕ) (typ : Toktyp) (t : Timestamp) : Except Failure Unit :=
  match typ with
  | .time =>
    if isValidTime t.hour t.minute t.sec t.usec then .ok () else fail lineno "invalid time"
  | .date => if isValidDate t.year t.month t.day then .ok () else fail lineno "invalid date"
  | .datetime | .datetimetz =>
    if isValidDate t.year t.month t.day then
      if isValidTime t.hour t.minute t.sec t.usec then
        if typ = .datetimetz ∧ isValidTimezone t.tz = false then fail lineno "invalid timezone"
        else .ok ()
      else fail lineno "invalid time"
    else fail lineno "invalid date"
  | _ => .error .assertion

/-- The end of `scan_timestamp`, from `done`. -/
def finishTimestamp (sp : ScannerState) (typ : Toktyp) (len : ℕ) (t : Timestamp) :
    Except Failure (Token F × ScannerState) := do
  checkTimestamp sp.lineno typ t
  .ok (mktoken sp typ len (.tsval t), sp.skip len)

def scanTimestamp (sp : ScannerState) : Except Failure (Token F × ScannerState) :=
  let p := scanCopystr sp 80
  if isDigit (charAt p 0) ∧ isDigit (charAt p 1) ∧ charAt p 2 = colon then
    match readTime p with
    | none => fail sp.lineno "invalid time"
    | some (n, c) =>
      finishTimestamp sp .time n ⟨-1, -1, -1, c.hour, c.minute, c.sec, c.usec, -1⟩
  else
    match readDate p with
    | none => fail sp.lineno "invalid date"
    | some (year, month, day) =>
      if ¬ (charAt p 10 = 0x54 ∨ charAt p 10 = space ∨ charAt p 10 = 0x74) ∨
          ¬ isDigit (charAt p 11) ∨ ¬ isDigit (charAt p 12) ∨ charAt p 13 ≠ colon then
        finishTimestamp sp .date 10 ⟨year, month, day, -1, -1, -1, -1, -1⟩
      else
        match readTime (p.drop 11) with
        | none => fail sp.lineno "invalid timestamp"
        | some (n, c) =>
          match readTzone (p.drop (11 + n)) with
          | none =>
            finishTimestamp sp .datetime (11 + n)
              ⟨year, month, day, c.hour, c.minute, c.sec, c.usec, -1⟩
          | some (m, sign, hour, minute) =>
            if 60 ≤ minute then fail sp.lineno "invalid timezone"
            else
              let tz := (hour * 60 + minute) * (if sign = minus then -1 else 1)
              finishTimestamp sp .datetimetz (11 + n + m)
                ⟨year, month, day, c.hour, c.minute, c.sec, c.usec, tz⟩

/-- A character that an underscore may stand next to. -/
def besideUnderscore (base : ℕ) (ch : UInt8) : Bool := isDigit ch || (base = 16 && isHexChar ch)

/-- Every underscore of a number has digits on both sides. -/
def underscoresOk (base : ℕ) (buffer : Bytes) : Bool :=
  (List.range buffer.length).all fun i ↦
    charAt buffer i != underscore ||
      (i != 0 && besideUnderscore base (charAt buffer (i - 1)) &&
        besideUnderscore base (charAt buffer (i + 1)))

/-- Every decimal point of a number has digits on both sides. -/
def pointsOk (buffer : Bytes) : Bool :=
  (List.range buffer.length).all fun i ↦
    charAt buffer i != point ||
      (i != 0 && isDigit (charAt buffer (i - 1)) && isDigit (charAt buffer (i + 1)))

/-- `process_numstr`: the text without underscores and in lower case, or the reason why it
is no number. -/
def processNumstr (buffer : Bytes) (base : ℕ) : Except String Bytes :=
  if underscoresOk base buffer = false then .error "underscore only allowed between digits"
  else
    let buffer := buffer.filter (· ≠ underscore)
    if pointsOk buffer = false then .error "decimal point must be surrounded by digits"
    else
      let buffer := buffer.map toLower
      let q := if charAt buffer 0 = plus ∨ charAt buffer 0 = minus then buffer.drop 1 else buffer
      if base = 10 ∧ charAt q 0 = zero ∧ isDigit (charAt q 1) then .error "leading 0 in numbers"
      else .ok buffer

/-- A digit of a base, as `strtoll` reads it. -/
def isDigitOf (base : ℕ) (ch : UInt8) : Bool :=
  isHexChar ch && decide (digitValue ch < base)

/-- `strtoll`: the number, whether it is in the range of `int64_t`, and the text after its
digits; the text itself where there is no digit. -/
def strtoll (s : Bytes) (base : ℕ) : ℤ × Bool × Bytes :=
  let negative : Bool := charAt s 0 = minus
  let r := if charAt s 0 = plus ∨ charAt s 0 = minus then s.drop 1 else s
  let ds := r.takeWhile (isDigitOf base)
  if ds = [] then (0, true, s)
  else
    let n : ℤ := if negative then -(value base ds : ℤ) else value base ds
    (n, decide (-9223372036854775808 ≤ n ∧ n ≤ 9223372036854775807), r.drop ds.length)

section Floats

variable (strtod : Bytes → Option F)

/-- `scan_float`; `strtod` reads a whole text, or fails. -/
def scanFloat (sp : ScannerState) : Except Failure (Token F × ScannerState) :=
  let buffer := scanCopystr sp 50
  let sign := if charAt buffer 0 = plus ∨ charAt buffer 0 = minus then 1 else 0
  let p := buffer.drop sign
  let len :=
    if p.take 3 = ascii "nan" ∨ p.take 3 = ascii "inf" then sign + 3
    else sign + (p.takeWhile (· ∈ ascii "_0123456789eE.+-")).length
  match processNumstr (buffer.take len) 10 with
  | .error reason => fail sp.lineno reason
  | .ok text =>
    match strtod text with
    | none => fail sp.lineno "error parsing float"
    | some x => .ok (mktoken sp .float len (.fp64 x), sp.skip len)

/-- The bases of the numbers `0x`, `0o` and `0b`, with their characters. -/
def basePrefix (ch : UInt8) : Option (ℕ × Bytes) :=
  if ch = 0x78 then some (16, ascii "_0123456789abcdefABCDEF")
  else if ch = 0x6f then some (8, ascii "_01234567")
  else if ch = 0x62 then some (2, ascii "_01")
  else none

/-- A number `0x`, `0o` or `0b`. -/
def scanBased (sp : ScannerState) (buffer : Bytes) (base : ℕ) (span : Bytes) :
    Except Failure (Token F × ScannerState) :=
  let digits := (buffer.drop 2).takeWhile (· ∈ span)
  match processNumstr digits base with
  | .error reason => fail sp.lineno reason
  | .ok text =>
    let (n, inRange, q) := strtoll text base
    if inRange = false ∨ q ≠ [] ∨ text = [] then fail sp.lineno "error parsing integer"
    else
      .ok (mktoken sp .integer (2 + digits.length) (.int64 n), sp.skip (2 + digits.length))

/-- An integer in base 10, or a float. -/
def scanDecimal (sp : ScannerState) (buffer : Bytes) : Except Failure (Token F × ScannerState) :=
  let digits := buffer.takeWhile (· ∈ ascii "0123456789_+-.eE")
  match processNumstr digits 10 with
  | .error reason => fail sp.lineno reason
  | .ok text =>
    let (n, inRange, q) := strtoll text 10
    if inRange = false ∨ q ≠ [] ∨ text = [] then
      if q.head? = some point ∨ q.head? = some 0x65 ∨ q.head? = some 0x45 then scanFloat strtod sp
      else fail sp.lineno "error parsing integer"
    else .ok (mktoken sp .integer digits.length (.int64 n), sp.skip digits.length)

def scanNumber (sp : ScannerState) : Except Failure (Token F × ScannerState) :=
  let buffer := scanCopystr sp 50
  match if charAt buffer 0 = zero then basePrefix (charAt buffer 1) else none with
  | some (base, span) => scanBased sp buffer base span
  | none =>
    let ch := if charAt buffer 0 = plus ∨ charAt buffer 0 = minus then charAt buffer 1
      else charAt buffer 0
    if ch = 0x69 ∨ ch = 0x6e then scanFloat strtod sp else scanDecimal strtod sp buffer

def scanBool (sp : ScannerState) : Except Failure (Token F × ScannerState) :=
  let p := scanCopystr sp 10
  let word : Option (Bool × ℕ) :=
    if p.take 4 = ascii "true" then some (true, 4)
    else if p.take 5 = ascii "false" then some (false, 5)
    else none
  match word with
  | none => fail sp.lineno "invalid boolean value"
  | some (val, len) =>
    if charAt p len ≠ 0 ∧ charAt p len ∉ ascii "# \r\n\t,\x7d]" then
      fail sp.lineno "invalid boolean value"
    else .ok (mktoken sp .bool len (.b1 val), sp.skip len)

def testTime (p : Bytes) : Bool :=
  2 < p.length && isDigit (charAt p 0) && isDigit (charAt p 1) && charAt p 2 = colon

def testDate (p : Bytes) : Bool :=
  4 < p.length && (p.take 4).all isDigit && charAt p 4 = minus

def testBool (p : Bytes) : Bool := p.head? = some 0x74 || p.head? = some 0x66

def testNumber (p : Bytes) : Bool :=
  (p.head?.any fun c ↦ c ∈ ascii "0123456789+-._") ||
    p.take 3 = ascii "nan" || p.take 3 = ascii "inf"

def scanNonstringLiteral (sp : ScannerState) : Except Failure (Token F × ScannerState) :=
  if testTime sp.rest then scanTime sp
  else if testDate sp.rest then scanTimestamp sp
  else if testBool sp.rest then scanBool sp
  else if testNumber sp.rest then scanNumber strtod sp
  else fail sp.lineno "invalid value"

end Floats

end Xfrpc.Toml.Number
