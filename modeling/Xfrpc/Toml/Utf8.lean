import Xfrpc.Foundations.BigEndian

namespace Xfrpc.Toml.Utf8

/-- `0x80 | (code & 0x3f)`. -/
def trailing (code : ℕ) : UInt8 := .ofNat (0x80 ||| code &&& 0x3f)

def ucsToUtf8 (code : ℕ) : Option Bytes :=
  if code ≤ 0x7f then some [.ofNat code]
  else if code ≤ 0x7ff then some [.ofNat (0xc0 ||| code >>> 6), trailing code]
  else if code ≤ 0xffff then
    some [.ofNat (0xe0 ||| code >>> 12), trailing (code >>> 6), trailing code]
  else if code ≤ 0x1fffff then
    some [.ofNat (0xf0 ||| code >>> 18), trailing (code >>> 12), trailing (code >>> 6),
      trailing code]
  else none

/-- The loop that reads `n` bytes `10xxxxxx` after the first. -/
def readTrailing : ℕ → ℕ → Bytes → Option ℕ
  | 0, v, _ => some v
  | _ + 1, _, [] => none
  | n + 1, v, b :: r =>
    if 0x2 ≠ b.toNat >>> 6 then none else readTrailing n (v <<< 6 ||| b.toNat &&& 0x3f) r

/-- `utf8_to_ucs` on the text from `orig` to the end of the source: the character and the
number of its bytes. -/
def utf8ToUcs : Bytes → Option (ℕ × ℕ)
  | [] => none
  | b :: r =>
    let i := b.toNat
    let len := r.length + 1
    if 0 = i >>> 7 then some (i, 1)
    else if 0x6 = i >>> 5 then
      if len < 2 then none else (readTrailing 1 (i &&& 0x1f) r).map fun v ↦ (v, 2)
    else if 0xe = i >>> 4 then
      if len < 3 then none else (readTrailing 2 (i &&& 0x0f) r).map fun v ↦ (v, 3)
    else if 0x1e = i >>> 3 then
      if len < 4 then none else (readTrailing 3 (i &&& 0x07) r).map fun v ↦ (v, 4)
    else none

/-- The characters that four bytes can hold. -/
def limit : ℕ := 0x200000

theorem toNat_trailing (code : ℕ) : (trailing code).toNat = 128 + code % 64 := by
  have htable : ∀ d : Fin 64, (128 ||| d.val) = 128 + d.val := by decide +kernel
  have hmask : code &&& 0x3f = code % 64 := Nat.and_two_pow_sub_one_eq_mod code 6
  have hlt : code % 64 < 64 := Nat.mod_lt _ (by decide)
  rw [trailing, hmask, htable ⟨code % 64, hlt⟩, UInt8.toNat_ofNat']
  exact Nat.mod_eq_of_lt (by omega)

theorem shiftLeft_or (v : ℕ) {d : ℕ} (hd : d < 64) : v <<< 6 ||| d = v * 64 + d := by
  rw [Nat.shiftLeft_eq, Nat.mul_comm, ← Nat.two_pow_add_eq_or_of_lt (i := 6) hd]

theorem readTrailing_cons (n v : ℕ) (b : UInt8) (r : Bytes) :
    readTrailing (n + 1) v (b :: r) =
      if b.toNat / 64 = 2 then readTrailing n (v * 64 + b.toNat % 64) r else none := by
  have hmask : b.toNat &&& 0x3f = b.toNat % 64 := Nat.and_two_pow_sub_one_eq_mod _ 6
  rw [readTrailing, Nat.shiftRight_eq_div_pow, hmask, shiftLeft_or _ (Nat.mod_lt _ (by decide))]
  by_cases h : b.toNat / 64 = 2
  · rw [if_neg (by simp [h]), if_pos h]
  · rw [if_pos (by simpa using Ne.symm h), if_neg h]

theorem readTrailing_trailing (n v code : ℕ) (r : Bytes) :
    readTrailing (n + 1) v (trailing code :: r) = readTrailing n (v * 64 + code % 64) r := by
  have hdiv : (128 + code % 64) / 64 = 2 := by omega
  have hmod : (128 + code % 64) % 64 = code % 64 := by omega
  rw [readTrailing_cons, toNat_trailing, if_pos hdiv, hmod]

/-- What a byte says as the first of a character: the number of bytes to follow and its own
bits. -/
def lead (b : UInt8) : Option (ℕ × ℕ) :=
  let i := b.toNat
  if i < 0x80 then some (0, i)
  else if i / 32 = 6 then some (1, i % 32)
  else if i / 16 = 14 then some (2, i % 16)
  else if i / 8 = 30 then some (3, i % 8)
  else none

theorem readTrailing_short {n : ℕ} {r : Bytes} (h : r.length < n) (v : ℕ) :
    readTrailing n v r = none := by
  induction n generalizing v r with
  | zero => omega
  | succ n ih =>
    cases r with
    | nil => rfl
    | cons b r =>
      rw [readTrailing_cons, ih (by simpa using h)]
      exact ite_self none

/-- The branches of `utf8_to_ucs` differ only in what the first byte says. -/
theorem utf8ToUcs_cons (b : UInt8) (r : Bytes) :
    utf8ToUcs (b :: r) =
      (lead b).bind fun l ↦ (readTrailing l.1 l.2 r).map fun v ↦ (v, l.1 + 1) := by
  have hand (k : ℕ) : b.toNat &&& (2 ^ k - 1) = b.toNat % 2 ^ k :=
    Nat.and_two_pow_sub_one_eq_mod _ k
  have h5 : b.toNat &&& 0x1f = b.toNat % 32 := hand 5
  have h4 : b.toNat &&& 0x0f = b.toNat % 16 := hand 4
  have h3 : b.toNat &&& 0x07 = b.toNat % 8 := hand 3
  have hlen {n m : ℕ} (v : ℕ) (hm : m = n + 1) :
      (if r.length + 1 < m then none else (readTrailing n v r).map fun v ↦ (v, m)) =
        (readTrailing n v r).map fun v ↦ (v, n + 1) := by
    by_cases h : r.length + 1 < m
    · rw [if_pos h, readTrailing_short (by omega)]
      rfl
    · rw [if_neg h, hm]
  have hpow : (2 ^ 7 = 128) ∧ (2 ^ 5 = 32) ∧ (2 ^ 4 = 16) ∧ 2 ^ 3 = 8 := by decide
  simp only [utf8ToUcs, lead, Nat.shiftRight_eq_div_pow, h5, h4, h3, hlen _ rfl, hpow]
  by_cases h0 : b.toNat < 128
  · rw [if_pos (by omega), if_pos h0]
    rfl
  · rw [if_neg (by omega), if_neg h0]
    by_cases h1 : b.toNat / 32 = 6
    · rw [if_pos h1.symm, if_pos h1]
      rfl
    · rw [if_neg (Ne.symm h1), if_neg h1]
      by_cases h2 : b.toNat / 16 = 14
      · rw [if_pos h2.symm, if_pos h2]
        rfl
      · rw [if_neg (Ne.symm h2), if_neg h2]
        by_cases h3 : b.toNat / 8 = 30
        · rw [if_pos h3.symm, if_pos h3]
          rfl
        · rw [if_neg (Ne.symm h3), if_neg h3]
          rfl

/-- The number of bytes after the first. -/
def follow (code : ℕ) : ℕ :=
  if code ≤ 0x7f then 0 else if code ≤ 0x7ff then 1 else if code ≤ 0xffff then 2 else 3

/-- The mark of the length in the first byte. -/
def mark : ℕ → ℕ
  | 0 => 0
  | 1 => 0xc0
  | 2 => 0xe0
  | _ => 0xf0

def leadByte (code : ℕ) : UInt8 := .ofNat (mark (follow code) ||| code / 64 ^ follow code)

/-- The last `n` bytes of a character. -/
def trailings (code : ℕ) : ℕ → Bytes
  | 0 => []
  | n + 1 => trailing (code >>> (6 * n)) :: trailings code n

theorem trailings_length (code n : ℕ) : (trailings code n).length = n := by
  induction n with
  | zero => rfl
  | succ n ih => rw [trailings, List.length_cons, ih]

theorem ucsToUtf8_eq {code : ℕ} (h : code < limit) :
    ucsToUtf8 code = some (leadByte code :: trailings code (follow code)) := by
  have hlimit : code ≤ 0x1fffff := Nat.le_of_lt_succ h
  unfold ucsToUtf8 leadByte follow
  by_cases h1 : code ≤ 0x7f
  · simp [if_pos h1, mark, trailings]
  · by_cases h2 : code ≤ 0x7ff
    · simp [if_neg h1, if_pos h2, mark, trailings, Nat.shiftRight_eq_div_pow]
    · by_cases h3 : code ≤ 0xffff
      · simp [if_neg h1, if_neg h2, if_pos h3, mark, trailings, Nat.shiftRight_eq_div_pow]
      · simp [if_neg h1, if_neg h2, if_neg h3, if_pos hlimit, mark, trailings,
          Nat.shiftRight_eq_div_pow]

theorem ucsToUtf8_eq_none {code : ℕ} (h : limit ≤ code) : ucsToUtf8 code = none := by
  have h' : 0x1fffff < code := h
  rw [ucsToUtf8, if_neg (by omega), if_neg (by omega), if_neg (by omega), if_neg (by omega)]

/-- The bytes to follow bring back the bits below the ones that have been read. -/
theorem readTrailing_trailings (code n : ℕ) (r : Bytes) :
    readTrailing n (code / 64 ^ n) (trailings code n ++ r) = some code := by
  induction n with
  | zero => rw [Nat.pow_zero, Nat.div_one, readTrailing]
  | succ n ih =>
    have hsplit : code / 64 ^ (n + 1) * 64 + code / 64 ^ n % 64 = code / 64 ^ n := by
      rw [Nat.pow_succ, ← Nat.div_div_eq_div_mul]
      omega
    have hshift : code >>> (6 * n) = code / 64 ^ n := by
      rw [Nat.shiftRight_eq_div_pow, Nat.pow_mul]
    rw [trailings, List.cons_append, readTrailing_trailing, hshift, hsplit, ih]

theorem lead_leadByte {code : ℕ} (h : code < limit) :
    lead (leadByte code) = some (follow code, code / 64 ^ follow code) := by
  have hlimit : limit = 2097152 := rfl
  have hone : ∀ d : Fin 128, lead (.ofNat (mark 0 ||| d.val)) = some (0, d.val) := by
    decide +kernel
  have htwo : ∀ d : Fin 32, lead (.ofNat (mark 1 ||| d.val)) = some (1, d.val) := by
    decide +kernel
  have hthree : ∀ d : Fin 16, lead (.ofNat (mark 2 ||| d.val)) = some (2, d.val) := by
    decide +kernel
  have hfour : ∀ d : Fin 8, lead (.ofNat (mark 3 ||| d.val)) = some (3, d.val) := by
    decide +kernel
  rw [leadByte, follow]
  by_cases h1 : code ≤ 0x7f
  · rw [if_pos h1]
    exact hone ⟨code / 64 ^ 0, by omega⟩
  · by_cases h2 : code ≤ 0x7ff
    · rw [if_neg h1, if_pos h2]
      exact htwo ⟨code / 64 ^ 1, by omega⟩
    · by_cases h3 : code ≤ 0xffff
      · rw [if_neg h1, if_neg h2, if_pos h3]
        exact hthree ⟨code / 64 ^ 2, by omega⟩
      · rw [if_neg h1, if_neg h2, if_neg h3]
        exact hfour ⟨code / 64 ^ 3, by omega⟩

theorem utf8ToUcs_encoded {code : ℕ} (h : code < limit) (r : Bytes) :
    utf8ToUcs (leadByte code :: trailings code (follow code) ++ r) =
      some (code, follow code + 1) := by
  rw [List.cons_append, utf8ToUcs_cons, lead_leadByte h, Option.bind_some,
    readTrailing_trailings, Option.map_some]

/-- What the bytes to follow may be, for the bits read before them. -/
theorem readTrailing_eq_some {n v code : ℕ} {r : Bytes} (h : readTrailing n v r = some code) :
    code / 64 ^ n = v ∧ trailings code n <+: r := by
  induction n generalizing v r with
  | zero =>
    rw [readTrailing, Option.some.injEq] at h
    rw [Nat.pow_zero, Nat.div_one]
    exact ⟨h.symm, List.nil_prefix⟩
  | succ n ih =>
    cases r with
    | nil => simp [readTrailing] at h
    | cons b r =>
      rw [readTrailing_cons] at h
      split at h
      · rename_i hb
        obtain ⟨hv, hr⟩ := ih h
        have hdiv : code / 64 ^ (n + 1) = v := by
          rw [Nat.pow_succ, ← Nat.div_div_eq_div_mul, hv]
          omega
        have hbyte : trailing (code >>> (6 * n)) = b := by
          apply UInt8.toNat_inj.mp
          rw [toNat_trailing, Nat.shiftRight_eq_div_pow, Nat.pow_mul,
            show (2 : ℕ) ^ 6 = 64 from rfl, hv]
          omega
        exact ⟨hdiv, by rw [trailings, hbyte]; exact List.cons_prefix_cons.mpr ⟨rfl, hr⟩⟩
      · exact absurd h (by simp)

/-- The codes that `n` bytes after the first leave room for. -/
def room (n : ℕ) : ℕ := [0x80, 0x800, 0x10000, limit].getD n 0

theorem room_le (n : ℕ) : room n ≤ limit := by
  match n with
  | 0 | 1 | 2 | 3 => decide
  | n + 4 => exact Nat.zero_le _

theorem lead_eq_some {b : UInt8} {n v : ℕ} (h : lead b = some (n, v)) :
    (v + 1) * 64 ^ n ≤ room n ∧ .ofNat (mark n ||| v) = b := by
  have htable : ∀ b : Fin 256, ∀ l ∈ lead (.ofNat b.val),
      (l.2 + 1) * 64 ^ l.1 ≤ room l.1 ∧ .ofNat (mark l.1 ||| l.2) = UInt8.ofNat b.val := by
    decide +kernel
  have hb := htable ⟨b.toNat, b.toNat_lt⟩ (n, v)
  rw [UInt8.ofNat_toNat] at hb
  exact hb h

/-- A text that is read as a character. -/
theorem utf8ToUcs_eq_some {s : Bytes} {code n : ℕ} (h : utf8ToUcs s = some (code, n)) :
    ∃ m r, n = m + 1 ∧ code < room m ∧ s = .ofNat (mark m ||| code / 64 ^ m) :: r ∧
      trailings code m <+: r := by
  cases s with
  | nil => simp [utf8ToUcs] at h
  | cons b r =>
    rw [utf8ToUcs_cons, Option.bind_eq_some_iff] at h
    obtain ⟨⟨m, v⟩, hl, h⟩ := h
    rw [Option.map_eq_some_iff] at h
    obtain ⟨c, hr, h⟩ := h
    obtain ⟨rfl, rfl⟩ := Prod.mk.inj h
    obtain ⟨hdiv, hpre⟩ : c / 64 ^ m = v ∧ trailings c m <+: r := readTrailing_eq_some hr
    obtain ⟨hle, hb⟩ := lead_eq_some hl
    have hlt : c < (v + 1) * 64 ^ m := by
      rw [← Nat.div_lt_iff_lt_mul (Nat.pow_pos (by decide)), hdiv]
      exact Nat.lt_succ_self v
    exact ⟨m, r, rfl, Nat.lt_of_lt_of_le hlt hle, by rw [hdiv, hb], hpre⟩

theorem follow_le {code m : ℕ} (h : code < room m) : follow code ≤ m := by
  unfold follow
  match m, h with
  | 0, h =>
    have h' : code < 0x80 := h
    rw [if_pos (by omega)]
  | 1, h =>
    have h' : code < 0x800 := h
    split_ifs <;> omega
  | 2, h =>
    have h' : code < 0x10000 := h
    split_ifs <;> omega
  | m + 3, _ => split_ifs <;> omega

/-- The two directions of the codec: a character below the limit is written as bytes that
are read back as it, whatever follows; no other character is written; and a text read as a
character starts with the bytes written for it, unless it spends more bytes than they are. -/
theorem utf8_round_trip (code : ℕ) (r : Bytes) :
    (code < limit →
      ∃ bs, ucsToUtf8 code = some bs ∧ utf8ToUcs (bs ++ r) = some (code, bs.length)) ∧
    (limit ≤ code → ucsToUtf8 code = none) ∧
    ∀ n, utf8ToUcs r = some (code, n) →
      ∃ bs, ucsToUtf8 code = some bs ∧ bs.length ≤ n ∧ (bs.length = n → bs <+: r) := by
  refine ⟨fun h ↦ ⟨_, ucsToUtf8_eq h, ?_⟩, ucsToUtf8_eq_none, fun n h ↦ ?_⟩
  · rw [utf8ToUcs_encoded h, List.length_cons, trailings_length]
  · obtain ⟨m, r', hn, hroom, hr, hpre⟩ := utf8ToUcs_eq_some h
    refine ⟨_, ucsToUtf8_eq (Nat.lt_of_lt_of_le hroom (room_le m)), ?_, fun hlen ↦ ?_⟩
    · rw [List.length_cons, trailings_length, hn]
      exact Nat.succ_le_succ (follow_le hroom)
    · rw [List.length_cons, trailings_length, hn] at hlen
      have hm : follow code = m := Nat.succ.inj hlen
      rw [hr, leadByte, hm]
      exact List.cons_prefix_cons.mpr ⟨rfl, hpre⟩

end Xfrpc.Toml.Utf8
