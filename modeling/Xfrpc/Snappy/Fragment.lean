import Xfrpc.Snappy.Emission

namespace Xfrpc.Snappy.Fragment

open Foundations.BackReference Foundations.Block Foundations.LittleEndian
open Compress Emission Format

section Matching

variable {input : Bytes}

theorem load32_eq {p : ℕ} (h : p + 4 ≤ input.length) :
    load32 input p = some (ofLe ((input.drop p).take 4)) := by
  rw [load32, load?_eq h, Option.map_some]

/-- The first `n` bytes at two places are the same. -/
def Same (input : Bytes) (p q n : ℕ) : Prop := ∀ j < n, input[p + j]? = input[q + j]?

theorem Same.of_slices {p q n : ℕ} (h : (input.drop p).take n = (input.drop q).take n) :
    Same input p q n := by
  intro j hj
  rw [← getElem?_drop_take hj, h, getElem?_drop_take hj]

theorem Same.slices {p q n : ℕ} (h : Same input p q n) :
    (input.drop p).take n = (input.drop q).take n := by
  apply List.ext_getElem?
  intro j
  by_cases hj : j < n
  · rw [getElem?_drop_take hj, getElem?_drop_take hj, h j hj]
  · rw [List.getElem?_take_eq_none (by omega), List.getElem?_take_eq_none (by omega)]

theorem Same.append {p q m n : ℕ} (h : Same input p q m) (h' : Same input (p + m) (q + m) n) :
    Same input p q (m + n) := by
  intro j hj
  by_cases hlow : j < m
  · exact h j hlow
  · have hhigh := h' (j - m) (by omega)
    rwa [show p + m + (j - m) = p + j by omega, show q + m + (j - m) = q + j by omega] at hhigh

theorem Same.mono {p q m n : ℕ} (h : Same input p q n) (hm : m ≤ n) : Same input p q m :=
  fun j hj ↦ h j (by omega)

/-- Equal words are equal bytes. -/
theorem same_iff_words {p q : ℕ} (hp : p + 4 ≤ input.length) (hq : q + 4 ≤ input.length) :
    ofLe ((input.drop p).take 4) = ofLe ((input.drop q).take 4) ↔ Same input p q 4 := by
  refine ⟨fun h ↦ .of_slices (ofLe_inj ?_ h), fun h ↦ by rw [h.slices]⟩
  rw [length_drop_take hp, length_drop_take hq]

theorem findLsbSetNonZero_spec {x i : ℕ} (h : findLsbSetNonZero x = some i) :
    x.testBit i = true ∧ ∀ k < i, x.testBit k = false := by
  obtain ⟨hbit, hfirst⟩ := List.find?_range_eq_some.mp h
  refine ⟨hbit, fun k hk ↦ ?_⟩
  simpa using hfirst.2 k hk

theorem findLsbSetNonZero_isSome {x : ℕ} (hx : x ≠ 0) (hlt : x < 2 ^ 32) :
    ∃ i, findLsbSetNonZero x = some i := by
  apply Option.ne_none_iff_exists'.mp
  intro hnone
  apply hx
  apply Nat.eq_of_testBit_eq
  intro k
  rw [Nat.zero_testBit]
  by_cases hk : k < 32
  · have hall := List.find?_eq_none.mp hnone k (List.mem_range.mpr hk)
    simpa using hall
  · exact Nat.testBit_lt_two_pow (Nat.lt_of_lt_of_le hlt
      (Nat.pow_le_pow_right (by decide) (by omega)))

/-- Below the first bit in which they differ, two words agree byte by byte. -/
theorem take_eq_of_testBit {l m : Bytes} {i k : ℕ} (hlen : l.length = m.length)
    (h : ∀ j < i, (ofLe l ^^^ ofLe m).testBit j = false) (hk : 8 * k ≤ i) :
    l.take k = m.take k := by
  refine ofLe_inj (by rw [List.length_take, List.length_take, hlen]) ?_
  rw [← ofLe_mod, ← ofLe_mod, show (256 : ℕ) = 2 ^ 8 from rfl, ← Nat.pow_mul]
  apply Nat.eq_of_testBit_eq
  intro j
  rw [Nat.testBit_mod_two_pow, Nat.testBit_mod_two_pow]
  by_cases hj : j < 8 * k
  · have hbit := h j (by omega)
    have hagree : (ofLe l).testBit j = (ofLe m).testBit j := by simpa using hbit
    rw [hagree]
  · rw [decide_eq_false hj, Bool.false_and, Bool.false_and]

theorem matchWords_spec {fuel s1 s2 limit matched : ℕ} (hlimit : limit ≤ input.length)
    (hs : s1 < s2) (hle : s2 + matched ≤ limit) (hfuel : limit < s2 + matched + fuel)
    (hsame : Same input s1 s2 matched) :
    ∃ n, matchWords input fuel s1 (s2 + matched) limit matched = some (s2 + n, n) ∧
      s2 + n ≤ limit ∧ Same input s1 s2 n ∧
      (s2 + n + 4 ≤ limit → ¬ Same input (s1 + n) (s2 + n) 4) := by
  induction fuel generalizing matched with
  | zero => omega
  | succ fuel ih =>
    rw [matchWords]
    by_cases hroom : s2 + matched + 4 ≤ limit
    · rw [if_pos hroom, load32_eq (by omega), Option.bind_some, load32_eq (by omega),
        Option.bind_some]
      have hwords := @same_iff_words input (s1 + matched) (s2 + matched) (by omega) (by omega)
      by_cases heq : Same input (s1 + matched) (s2 + matched) 4
      · rw [if_pos (hwords.mpr heq).symm]
        exact ih (show s2 + (matched + 4) ≤ limit by omega) (by omega) (hsame.append heq)
      · rw [if_neg (fun h ↦ heq (hwords.mp h.symm))]
        exact ⟨matched, rfl, hle, hsame, fun _ ↦ heq⟩
    · rw [if_neg hroom]
      exact ⟨matched, rfl, hle, hsame, fun h ↦ absurd h hroom⟩

theorem matchBytes_spec {fuel s1 s2 limit matched : ℕ} (hlimit : limit ≤ input.length)
    (hs : s1 < s2) (hle : s2 + matched ≤ limit) (hfuel : limit < s2 + matched + fuel)
    (hsame : Same input s1 s2 matched) :
    ∃ n, matchBytes input fuel s1 (s2 + matched) limit matched = some n ∧ s2 + n ≤ limit ∧
      Same input s1 s2 n ∧ (s2 + n < limit → input[s1 + n]? ≠ input[s2 + n]?) := by
  induction fuel generalizing matched with
  | zero => omega
  | succ fuel ih =>
    rw [matchBytes]
    by_cases hroom : s2 + matched < limit
    · have hone : ∀ p, p < input.length → (input.drop p).take 1 = input[p]?.toList := by
        intro p hp
        rw [List.take_one, List.head?_drop]
      rw [if_pos hroom, load?_eq (by omega), Option.bind_some, load?_eq (by omega),
        Option.bind_some, hone _ (by omega), hone _ (by omega)]
      by_cases heq : input[s1 + matched]? = input[s2 + matched]?
      · rw [if_pos (by rw [heq])]
        refine ih (show s2 + (matched + 1) ≤ limit by omega) (by omega)
          (hsame.append fun j hj ↦ ?_)
        obtain rfl : j = 0 := by omega
        exact heq
      · rw [if_neg (fun h ↦ heq (by simpa using congrArg List.head? h))]
        exact ⟨matched, rfl, hle, hsame, fun _ ↦ heq⟩
    · rw [if_neg hroom]
      exact ⟨matched, rfl, hle, hsame, fun h ↦ absurd h hroom⟩

/-- `find_match_length` returns the length of the longest match, and reads nothing behind the
limit. -/
theorem findMatchLength_spec {s1 s2 limit : ℕ} (hlimit : limit ≤ input.length) (hs : s1 < s2)
    (hle : s2 ≤ limit) :
    ∃ n, findMatchLength input s1 s2 limit = some n ∧ s2 + n ≤ limit ∧ Same input s1 s2 n ∧
      (s2 + n < limit → input[s1 + n]? ≠ input[s2 + n]?) := by
  obtain ⟨n, hwords, hn, hsame, hdiff⟩ :=
    matchWords_spec hlimit hs (show s2 + 0 ≤ limit from hle)
      (show limit < s2 + 0 + (limit + 1) by omega) fun j hj ↦ by omega
  have hwords : matchWords input (limit + 1) s1 s2 limit 0 = some (s2 + n, n) := hwords
  rw [findMatchLength, hwords, Option.bind_some]
  dsimp only
  by_cases hroom : s2 + n + 4 ≤ limit
  swap
  · rw [if_neg hroom]
    exact matchBytes_spec hlimit hs hn (by omega) hsame
  rw [if_pos hroom, load32_eq (by omega), Option.bind_some, load32_eq (by omega), Option.bind_some]
  have hlenA : ((input.drop (s2 + n)).take 4).length = 4 := length_drop_take (by omega)
  have hlenB : ((input.drop (s1 + n)).take 4).length = 4 := length_drop_take (by omega)
  have hne : ofLe ((input.drop (s2 + n)).take 4) ≠ ofLe ((input.drop (s1 + n)).take 4) := by
    intro heq
    exact hdiff hroom ((same_iff_words (by omega) (by omega)).mp heq.symm)
  have hltA := ofLe_lt ((input.drop (s2 + n)).take 4)
  have hltB := ofLe_lt ((input.drop (s1 + n)).take 4)
  rw [hlenA] at hltA
  rw [hlenB] at hltB
  have hxor : ofLe ((input.drop (s2 + n)).take 4) ^^^ ofLe ((input.drop (s1 + n)).take 4) ≠ 0 := by
    intro hzero
    apply hne
    rw [← Nat.xor_zero (ofLe ((input.drop (s2 + n)).take 4)), ← Nat.xor_self
      (ofLe ((input.drop (s1 + n)).take 4)), ← Nat.xor_assoc, hzero, Nat.zero_xor]
  obtain ⟨i, hi⟩ := findLsbSetNonZero_isSome hxor (Nat.xor_lt_two_pow (n := 32) hltA hltB)
  obtain ⟨hbit, hlow⟩ := findLsbSetNonZero_spec hi
  have hbyte : i >>> 3 = i / 8 := Nat.shiftRight_eq_div_pow i 3
  have hi32 : i < 32 := by
    by_contra hbig
    have hfalse := Nat.testBit_lt_two_pow (Nat.lt_of_lt_of_le
      (Nat.xor_lt_two_pow (n := 32) hltA hltB)
      (Nat.pow_le_pow_right (by decide) (show 32 ≤ i by omega)))
    rw [hbit] at hfalse
    cases hfalse
  have hpre : Same input (s1 + n) (s2 + n) (i / 8) := by
    have htake := take_eq_of_testBit (hlenA.trans hlenB.symm) hlow (k := i / 8) (by omega)
    rw [List.take_take, List.take_take, Nat.min_eq_left (by omega)] at htake
    exact .of_slices htake.symm
  refine ⟨n + i / 8, by rw [hi, Option.map_some, hbyte], by omega, hsame.append hpre,
    fun _ heq ↦ ?_⟩
  -- were the next bytes the same as well, the bit would not differ
  have hmore : Same input (s1 + n) (s2 + n) (i / 8 + 1) := by
    refine hpre.append fun j hj ↦ ?_
    obtain rfl : j = 0 := by omega
    rwa [Nat.add_zero, Nat.add_zero, Nat.add_assoc, Nat.add_assoc]
  have hmod : ofLe ((input.drop (s2 + n)).take 4) % 256 ^ (i / 8 + 1) =
      ofLe ((input.drop (s1 + n)).take 4) % 256 ^ (i / 8 + 1) := by
    rw [ofLe_mod, ofLe_mod, List.take_take, List.take_take, Nat.min_eq_left (by omega),
      hmore.slices]
  rw [show (256 : ℕ) = 2 ^ 8 from rfl, ← Nat.pow_mul] at hmod
  have hcut := congrArg (·.testBit i) hmod
  simp only [Nat.testBit_mod_two_pow, show i < 8 * (i / 8 + 1) by omega, decide_true,
    Bool.true_and] at hcut
  rw [Nat.testBit_xor, hcut, Bool.xor_self] at hbit
  cases hbit

/-- A match is a copy of what has been produced. -/
theorem Same.selfCopy {candidate ip n : ℕ} (h : Same input candidate ip n) (hc : candidate < ip)
    (hn : ip + n ≤ input.length) (prior : Bytes) :
    Foundations.BackReference.selfCopy (ip - candidate) n (prior ++ input.take ip) =
      prior ++ input.take (ip + n) := by
  have hlen : (prior ++ input.take ip).length = prior.length + ip := by
    rw [List.length_append, List.length_take_of_le (by omega)]
  have hcell : ∀ j, j < ip + n → (prior ++ input.take (ip + n))[prior.length + j]? = input[j]? := by
    intro j hj
    rw [List.getElem?_append_right (by omega), Nat.add_sub_cancel_left, List.getElem?_take_of_lt hj]
  symm
  apply eq_selfCopy
  · omega
  · omega
  · rw [List.length_append, List.length_take_of_le hn, hlen]
    omega
  · rw [hlen, List.take_length_add_append, List.take_take, Nat.min_eq_left (by omega)]
  · intro j hj hlt
    rw [hlen] at hj hlt
    obtain ⟨k, rfl⟩ : ∃ k, j = prior.length + (ip + k) := ⟨j - prior.length - ip, by omega⟩
    rw [hcell _ (by omega), show prior.length + (ip + k) - (ip - candidate) =
      prior.length + (candidate + k) by omega, hcell _ (by omega)]
    exact (h k (by omega)).symm

end Matching

section Search

/- The fragment, what the fragments before it held, the bytes before the first element, and
the place where the elements of this fragment begin. -/
variable {input prior header : Bytes} {op₀ room bits : ℕ}

/-- The elements emitted so far stand for the input up to `e`, and cost at most one byte in 61
more than it, and `slack` bytes. -/
structure Written (input prior header : Bytes) (op₀ room : ℕ) (s : Sink) (e slack : ℕ) :
    Prop where
  packs : ∃ elements, code s = header ++ elements ∧ Packs [] elements (prior ++ input.take e)
  op_le : s.op ≤ op₀ + e + e / 61 + slack
  room_eq : s.dest.length = room

theorem Written.emit {s s' : Sink} {e e' slack slack' : ℕ} {bytes : Bytes}
    (h : Written input prior header op₀ room s e slack) (hemit : Emitted s s' bytes)
    (hpacks : Packs (prior ++ input.take e) bytes (prior ++ input.take e'))
    (hcost : e + e / 61 + slack + bytes.length ≤ e' + e' / 61 + slack') :
    Written input prior header op₀ room s' e' slack' := by
  have hop := hemit.op
  have hle := h.op_le
  obtain ⟨elements, hcode, hold⟩ := h.packs
  refine ⟨⟨elements ++ bytes, ?_, hold.trans hpacks⟩, by omega, hemit.room.trans h.room_eq⟩
  rw [hemit.code, hcode, List.append_assoc]

/-- The table has one entry for each hash, and all of them lie before `bound`. -/
structure Entries (bits bound : ℕ) (table : List ℕ) : Prop where
  length : table.length = 2 ^ bits
  lt : ∀ v ∈ table, v < bound

theorem Entries.set {bound bound' h v : ℕ} {table : List ℕ} (he : Entries bits bound table)
    (hv : v < bound') (hb : bound ≤ bound') : Entries bits bound' (setEntry table h v) := by
  refine ⟨by rw [setEntry, List.length_set, he.length], fun x hx ↦ ?_⟩
  obtain hx | rfl := List.mem_or_eq_of_mem_set hx
  · exact Nat.lt_of_lt_of_le (he.lt x hx) hb
  · exact Nat.lt_of_le_of_lt (Nat.mod_le v _) hv

theorem Entries.get {bound : ℕ} {table : List ℕ} (he : Entries bits bound table) {h : ℕ}
    (hh : h < 2 ^ bits) : ∃ v, table[h]? = some v ∧ v < bound := by
  have hlt : h < table.length := by rw [he.length]; exact hh
  exact ⟨table[h], List.getElem?_eq_getElem hlt, he.lt _ (List.getElem_mem hlt)⟩

theorem hashBytes_lt (hbits : bits ≤ 32) (x : ℕ) : hashBytes (32 - bits) x < 2 ^ bits := by
  rw [hashBytes, Nat.shiftRight_eq_div_pow]
  apply Nat.div_lt_of_lt_mul
  rw [← Nat.pow_add, Nat.sub_add_cancel hbits]
  exact Nat.mod_lt _ (Nat.two_pow_pos 32)

theorem hash_eq {p shift : ℕ} (h : p + 4 ≤ input.length) :
    hash input shift p = some (hashBytes shift (ofLe ((input.drop p).take 4))) := by
  rw [Compress.hash, load32_eq h, Option.map_some]

/-- What holds wherever `compress_fragment` is. While it looks for a match, all bytes before
`next_emit` have been emitted; at a match, all before `ip`, with the byte a literal costs. -/
def Good (input prior header : Bytes) (op₀ room bits : ℕ) (c : Cursor) : Prop :=
  c.ip + 4 ≤ input.length ∧
  match c.mode with
  | .scan skipBytes => 32 ≤ skipBytes ∧ c.nextEmit < c.ip ∧
      hash input (32 - bits) c.ip = some c.nextHash ∧ Entries bits c.ip c.table ∧
      Written input prior header op₀ room c.sink c.nextEmit 0
  | .copy candidate => candidate < c.ip ∧ Same input candidate c.ip 4 ∧
      Entries bits (c.ip + 1) c.table ∧ Written input prior header op₀ room c.sink c.ip 1

/-- How far there is to go: `ip` grows, or a search has led to a match. -/
def distance (input : Bytes) (c : Cursor) : ℕ :=
  2 * (input.length - c.ip) +
    match c.mode with
    | .scan _ => 1
    | .copy _ => 0

/-- What a step may lead to. -/
def Leads (input prior header : Bytes) (op₀ room bits : ℕ) (c : Cursor) : Outcome → Prop
  | .next c' => Good input prior header op₀ room bits c' ∧ distance input c' < distance input c
  | .emitRemainder e s => e ≤ input.length ∧ Written input prior header op₀ room s e 0

variable (hbits : bits ≤ 32) (hmax : input.length ≤ 65536)
  (hroom : op₀ + input.length + input.length / 61 + 20 ≤ room)

include hbits hmax hroom

theorem scanStep_spec {skipBytes : ℕ} {c : Cursor}
    (hc : Good input prior header op₀ room bits c) (hmode : c.mode = .scan skipBytes) :
    ∃ o, scanStep input (32 - bits) skipBytes c = some o ∧
      Leads input prior header op₀ room bits c o := by
  obtain ⟨mode, ip, nextEmit, nextHash, table, sink⟩ := c
  obtain rfl : mode = .scan skipBytes := hmode
  obtain ⟨hip, hskip, hemit, hhash, htable, hwritten⟩ := hc
  dsimp only at hip hemit hhash htable hwritten
  have hstep : skipBytes >>> 5 = skipBytes / 32 := Nat.shiftRight_eq_div_pow skipBytes 5
  have hop := hwritten.op_le
  have hnext : nextHash < 2 ^ bits := by
    rw [hash_eq hip] at hhash
    rw [← Option.some.inj hhash]
    exact hashBytes_lt hbits _
  obtain ⟨candidate, hget, hcand⟩ := htable.get hnext
  rw [scanStep, if_neg (by dsimp only; omega), if_neg (by rw [hhash]; simp)]
  dsimp only
  rw [hstep]
  by_cases hfar : input.length - kinputMarginBytes < ip + skipBytes / 32
  · rw [if_pos hfar]
    exact ⟨_, rfl, by omega, hwritten⟩
  rw [kinputMarginBytes] at hfar
  have hnextIp : ip + skipBytes / 32 + 4 ≤ input.length := by omega
  rw [kinputMarginBytes, if_neg hfar, hash_eq hnextIp, Option.bind_some, hget, Option.bind_some,
    if_neg (by omega), load32_eq hip, Option.bind_some, load32_eq (by omega), Option.bind_some]
  by_cases hsame : Same input ip candidate 4
  · rw [if_neg (by rw [(same_iff_words hip (by omega)).mpr hsame]; simp), if_neg (by omega)]
    have hdiv : nextEmit / 61 + (ip - nextEmit) / 61 ≤ ip / 61 := by omega
    have hcap : ip / 61 ≤ input.length / 61 := Nat.div_le_div_right (by omega)
    obtain ⟨s', bytes, hlit, hemitted, hpacks, hcost⟩ := emitLiteral_spec sink
      (show 0 < ip - nextEmit by omega) (by omega)
      (show nextEmit + (ip - nextEmit) ≤ input.length by omega) true (fun _ ↦ by omega)
      (by rw [hwritten.room_eq]; omega)
    rw [hlit, Option.map_some]
    have hwritten' : Written input prior header op₀ room s' ip 1 := by
      refine hwritten.emit hemitted ?_ (by omega)
      have hpack := hpacks (prior ++ input.take nextEmit)
      rwa [List.append_assoc, ← List.take_add, show nextEmit + (ip - nextEmit) = ip by omega]
        at hpack
    refine ⟨_, rfl, ⟨hip, hcand, fun j hj ↦ (hsame j hj).symm,
      htable.set (Nat.lt_succ_self ip) (Nat.le_succ ip), hwritten'⟩, ?_⟩
    dsimp only [distance]
    omega
  · rw [if_pos (fun h ↦ hsame ((same_iff_words hip (by omega)).mp h))]
    refine ⟨_, rfl, ⟨hnextIp, ?_, ?_, hash_eq hnextIp,
      htable.set (show ip < ip + skipBytes / 32 by omega) (Nat.le_add_right ip _), hwritten⟩, ?_⟩
    · omega
    · dsimp only
      omega
    · dsimp only [distance]
      omega

theorem copyStep_spec {candidate : ℕ} {c : Cursor}
    (hc : Good input prior header op₀ room bits c) (hmode : c.mode = .copy candidate) :
    ∃ o, copyStep input (32 - bits) candidate c = some o ∧
      Leads input prior header op₀ room bits c o := by
  obtain ⟨mode, ip, nextEmit, nextHash, table, sink⟩ := c
  obtain rfl : mode = .copy candidate := hmode
  obtain ⟨hip, hcand, hsame, htable, hwritten⟩ := hc
  dsimp only at hip hcand hsame htable hwritten
  have hop := hwritten.op_le
  obtain ⟨more, hfind, hmore, hagree, -⟩ := findMatchLength_spec
    (Nat.le_refl input.length) (show candidate + 4 < ip + 4 by omega) hip
  have hall : Same input candidate ip (4 + more) := hsame.append hagree
  have hend : ip + (4 + more) ≤ input.length := by omega
  have hslices : load? input ip (4 + more) = load? input candidate (4 + more) := by
    rw [load?_eq hend, load?_eq (by omega), hall.slices]
  have hcap : ip / 61 ≤ input.length / 61 := Nat.div_le_div_right (by omega)
  obtain ⟨s', bytes, hcopy, hemitted, hcost, hpacks⟩ := emitCopy_spec
    (show 0 < ip - candidate by omega) (by omega) (show 4 ≤ 4 + more by omega)
    (show sink.op + (4 + more) ≤ sink.dest.length by rw [hwritten.room_eq]; omega)
  have hdiv : ip / 61 ≤ (ip + (4 + more)) / 61 := Nat.div_le_div_right (by omega)
  have hwritten' : Written input prior header op₀ room s' (ip + (4 + more)) 0 := by
    refine hwritten.emit hemitted ?_ (by omega)
    have hpack := hpacks (prior ++ input.take ip)
      (by rw [List.length_append, List.length_take_of_le (by omega)]; omega)
    rwa [hall.selfCopy hcand hend prior] at hpack
  rw [copyStep, hfind, Option.bind_some]
  dsimp only
  rw [if_neg (by rw [hslices]; simp), hcopy, Option.bind_some]
  generalize hnew : ip + (4 + more) = ip' at hend hwritten'
  by_cases hlast : input.length - kinputMarginBytes ≤ ip'
  · rw [if_pos hlast]
    exact ⟨_, rfl, hend, hwritten'⟩
  rw [kinputMarginBytes] at hlast
  have hprev := htable.set (h := hashBytes (32 - bits) (ofLe ((input.drop (ip' - 1)).take 4)))
    (show ip' - 1 < ip' by omega) (by omega)
  obtain ⟨candidate', hget, hcand'⟩ :=
    hprev.get (hashBytes_lt hbits (ofLe ((input.drop ip').take 4)))
  have hcur := hprev.set (h := hashBytes (32 - bits) (ofLe ((input.drop ip').take 4)))
    (Nat.lt_succ_self ip') (by omega)
  rw [kinputMarginBytes, if_neg hlast, load32_eq (by omega), Option.bind_some,
    load32_eq (by omega), Option.bind_some, hget, Option.bind_some, load32_eq (by omega),
    Option.bind_some]
  by_cases hagain : Same input ip' candidate' 4
  · rw [if_pos ((same_iff_words (by omega) (by omega)).mpr hagain)]
    refine ⟨_, rfl, ⟨?_, hcand', fun j hj ↦ (hagain j hj).symm, hcur, ?_⟩, ?_⟩
    · dsimp only
      omega
    · exact ⟨hwritten'.packs, Nat.le_succ_of_le hwritten'.op_le, hwritten'.room_eq⟩
    · dsimp only [distance]
      omega
  · rw [if_neg (fun h ↦ hagain ((same_iff_words (by omega) (by omega)).mp h)),
      load32_eq (by omega), Option.map_some]
    refine ⟨_, rfl, ⟨?_, Nat.le_refl _, Nat.lt_succ_self _, hash_eq ?_, hcur, hwritten'⟩, ?_⟩
    · dsimp only
      omega
    · dsimp only
      omega
    · dsimp only [distance]
      omega

theorem step_spec {c : Cursor} (hc : Good input prior header op₀ room bits c) :
    ∃ o, step input (32 - bits) c = some o ∧ Leads input prior header op₀ room bits c o := by
  unfold step
  cases hmode : c.mode with
  | scan skipBytes => exact scanStep_spec hbits hmax hroom hc hmode
  | copy candidate => exact copyStep_spec hbits hmax hroom hc hmode

/-- The search ends, and all it has emitted stands for what it has passed. -/
theorem fragmentLoop_spec {fuel : ℕ} {c : Cursor} (hc : Good input prior header op₀ room bits c)
    (hfuel : distance input c < fuel) :
    ∃ e s, fragmentLoop input (32 - bits) fuel c = some (e, s) ∧ e ≤ input.length ∧
      Written input prior header op₀ room s e 0 := by
  induction fuel generalizing c with
  | zero => omega
  | succ fuel ih =>
    obtain ⟨o, hstep, hleads⟩ := step_spec hbits hmax hroom hc
    rw [fragmentLoop, hstep, Option.bind_some]
    cases o with
    | next c' => exact ih hleads.1 (by have hless := hleads.2; omega)
    | emitRemainder e s => exact ⟨e, s, rfl, hleads⟩

end Search

/-- A block is compressed within its bound, and the elements stand for it. -/
theorem compressFragment_spec {input prior header : Bytes} {room bits : ℕ} {s : Sink}
    (hlow : 8 ≤ bits) (hbits : bits ≤ 14) (hmax : input.length ≤ 65536)
    (hroom : s.op + input.length + input.length / 61 + 20 ≤ room)
    (hs : s.dest.length = room)
    (hpacks : ∃ elements, code s = header ++ elements ∧ Packs [] elements prior) :
    ∃ s', compressFragment input (.replicate (2 ^ bits) 0) s = some s' ∧
      (∃ elements, code s' = header ++ elements ∧ Packs [] elements (prior ++ input)) ∧
      s'.dest.length = room ∧ s'.op ≤ s.op + input.length + input.length / 61 + 1 := by
  have hbegin : Written input prior header s.op room s 0 0 := by
    refine ⟨?_, by omega, hs⟩
    rwa [List.take_zero, List.append_nil]
  have hpower : 2 ^ bits &&& (2 ^ bits - 1) = 0 := by
    rw [Nat.and_two_pow_sub_one_eq_mod, Nat.mod_self]
  have hword : (2 ^ 32 - 1) >>> (32 - bits) = 2 ^ bits - 1 := by
    obtain ⟨k, rfl⟩ : ∃ k, bits = 8 + k := ⟨bits - 8, by omega⟩
    have hall : ∀ k : Fin 7, (2 ^ 32 - 1) >>> (32 - (8 + k.val)) = 2 ^ (8 + k.val) - 1 := by decide
    exact hall ⟨k, by omega⟩
  have hsearch : ∃ e s', (if kinputMarginBytes ≤ input.length then
      (Compress.hash input (32 - bits) 1).bind fun nextHash ↦
        fragmentLoop input (32 - bits) (2 * input.length + 2)
          ⟨.scan 32, 1, 0, nextHash, .replicate (2 ^ bits) 0, s⟩
      else some (0, s)) = some (e, s') ∧ e ≤ input.length ∧
        Written input prior header s.op room s' e 0 := by
    rw [kinputMarginBytes]
    by_cases hlong : 15 ≤ input.length
    · rw [if_pos hlong, hash_eq (by omega), Option.bind_some]
      refine fragmentLoop_spec (by omega) hmax hroom ⟨?_, Nat.le_refl _, Nat.one_pos, hash_eq ?_, ?_,
        hbegin⟩ ?_
      · dsimp only
        omega
      · dsimp only
        omega
      · refine ⟨List.length_replicate, fun v hv ↦ ?_⟩
        rw [List.eq_of_mem_replicate hv]
        exact Nat.one_pos
      · dsimp only [distance]
        omega
    · rw [if_neg hlong]
      exact ⟨0, s, rfl, Nat.zero_le _, hbegin⟩
  obtain ⟨e, s', hloop, he, hwritten⟩ := hsearch
  have hop := hwritten.op_le
  have hcap : e / 61 ≤ input.length / 61 := Nat.div_le_div_right he
  rw [compressFragment, List.length_replicate, kblockSize, hpower, if_neg (by omega)]
  dsimp only
  rw [Nat.log2_two_pow, hword, if_neg (by simp), hloop, Option.bind_some]
  dsimp only
  by_cases hrest : e < input.length
  · obtain ⟨s'', bytes, hlit, hemitted, hpack, hcost⟩ := emitLiteral_spec s'
      (show 0 < input.length - e by omega) (by omega)
      (show e + (input.length - e) ≤ input.length by omega) false (fun h ↦ by cases h)
      (by rw [hwritten.room_eq]; omega)
    have hdiv : e / 61 + (input.length - e) / 61 ≤ input.length / 61 := by omega
    have hdone : Written input prior header s.op room s'' input.length 1 := by
      refine hwritten.emit hemitted ?_ (by omega)
      have hall := hpack (prior ++ input.take e)
      rwa [List.append_assoc, ← List.take_add, show e + (input.length - e) = input.length by omega]
        at hall
    rw [if_pos hrest]
    refine ⟨s'', hlit, ?_, hdone.room_eq, hdone.op_le⟩
    have hall := hdone.packs
    rwa [List.take_length] at hall
  · obtain rfl : e = input.length := by omega
    rw [if_neg hrest]
    refine ⟨s', rfl, ?_, hwritten.room_eq, by omega⟩
    have hall := hwritten.packs
    rwa [List.take_length] at hall

/-- The table sizes are powers of two from 2 ^ 8 to 2 ^ 14. -/
theorem getHashTable_eq (n : ℕ) :
    ∃ bits, 8 ≤ bits ∧ bits ≤ 14 ∧ getHashTable n = .replicate (2 ^ bits) 0 := by
  have hloop : ∀ fuel bits, bits + fuel ≤ 14 → ∃ bits', bits ≤ bits' ∧ bits' ≤ bits + fuel ∧
      htsizeLoop fuel (2 ^ bits) n = 2 ^ bits' := by
    intro fuel
    induction fuel with
    | zero => exact fun bits _ ↦ ⟨bits, Nat.le_refl _, Nat.le_refl _, rfl⟩
    | succ fuel ih =>
      intro bits hle
      rw [htsizeLoop]
      split_ifs
      · obtain ⟨bits', hlow, hhigh, heq⟩ := ih (bits + 1) (by omega)
        rw [Nat.pow_succ] at heq
        exact ⟨bits', by omega, by omega, heq⟩
      · exact ⟨bits, Nat.le_refl _, by omega, rfl⟩
  obtain ⟨bits, hlow, hhigh, heq⟩ := hloop 6 8 (by decide)
  exact ⟨bits, hlow, hhigh, by rw [getHashTable, ← heq]; rfl⟩

/-- All blocks, one after the other. A full block is worth more than the byte it may cost. -/
theorem blockLoop_spec {fuel : ℕ} {input prior header : Bytes} {room : ℕ} {s : Sink}
    (hfuel : input.length < fuel)
    (hroom : s.op + input.length + input.length / 6 + 20 ≤ room)
    (hs : s.dest.length = room)
    (hpacks : ∃ elements, code s = header ++ elements ∧ Packs [] elements prior) :
    ∃ s', blockLoop fuel input s = some s' ∧
      (∃ elements, code s' = header ++ elements ∧ Packs [] elements (prior ++ input)) ∧
      s'.dest.length = room ∧ s'.op ≤ s.op + input.length + input.length / 6 + 1 := by
  induction fuel generalizing input prior s with
  | zero => omega
  | succ fuel ih =>
    rw [blockLoop]
    by_cases hnil : input = []
    · rw [if_pos hnil, hnil, List.append_nil]
      exact ⟨s, rfl, hpacks, hs, by omega⟩
    have hpos := List.length_pos_iff.mpr hnil
    have htake : (input.take kblockSize).length = min input.length 65536 := by
      rw [List.length_take, kblockSize]
      omega
    have hdrop : (input.drop kblockSize).length = input.length - 65536 := by
      rw [List.length_drop, kblockSize]
      rfl
    obtain ⟨bits, hlow, hhigh, htable⟩ := getHashTable_eq (min input.length kblockSize)
    obtain ⟨mid, hfrag, hmid, hroom', hop⟩ := compressFragment_spec hlow hhigh
      (show (input.take kblockSize).length ≤ 65536 by omega)
      (show s.op + _ + _ + 20 ≤ room by omega) hs hpacks
    rw [if_neg hnil, htable, hfrag, Option.bind_some]
    by_cases hmore : input.length ≤ 65536
    · have hempty : input.drop kblockSize = [] := List.eq_nil_of_length_eq_zero (by omega)
      have hwhole : input.take kblockSize = input := List.take_of_length_le (by rw [kblockSize]; omega)
      rw [hempty]
      rw [hwhole] at hmid hop
      obtain ⟨fuel, rfl⟩ : ∃ k, fuel = k + 1 := ⟨fuel - 1, by omega⟩
      rw [blockLoop, if_pos rfl]
      exact ⟨mid, rfl, hmid, hroom', by omega⟩
    · obtain ⟨s', hloop, hall, hroom'', hop'⟩ :=
        ih (show (input.drop kblockSize).length < fuel by omega)
          (show mid.op + _ + _ + 20 ≤ room by omega) hroom' hmid
      rw [List.append_assoc, List.take_append_drop] at hall
      exact ⟨s', hloop, hall, hroom'', by omega⟩

end Xfrpc.Snappy.Fragment
