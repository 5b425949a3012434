import Xfrpc.Foundations.BackReference
import Xfrpc.Foundations.BigEndian
import Xfrpc.Foundations.Block

namespace Xfrpc.Snappy.Output

open Foundations.BackReference Foundations.Block

/-- `struct writer`: the output buffer, which begins at `base`, and the offsets of `op` and
`op_limit` in it. -/
structure Writer where
  mem : Bytes
  op : ℕ
  opLimit : ℕ
  deriving DecidableEq, Repr

/-- `kmax_increment_copy_overflow`. -/
def kmaxIncrementCopyOverflow : ℕ := 10

section Copies

-- `wide` is `sizeof(void *) == 8`; the ESP32 has words of 32 bits
variable (wide : Bool)

/-- `unaligned_copy64` within one block; none is an access outside of it. Without 64-bit words
the second half is read after the first one has been written. -/
def unalignedCopy64 (src dst : ℕ) (mem : Bytes) : Option Bytes :=
  if wide then (load? mem src 8).bind (store? mem dst)
  else
    ((load? mem src 4).bind (store? mem dst)).bind fun mem ↦
      (load? mem (src + 4) 4).bind (store? mem (dst + 4))

/-- The loop of `incremental_copy`. -/
def copyLoop : ℕ → ℕ → ℕ → Bytes → Option Bytes
  | 0, _, _, mem => some mem
  | len + 1, src, op, mem =>
    ((load? mem src 1).bind (store? mem op)).bind (copyLoop len (src + 1) (op + 1))

/-- `incremental_copy`, with its check of the length. -/
def incrementalCopy (src op len : ℕ) (mem : Bytes) : Option Bytes :=
  if 0 < len then copyLoop len src op mem else none

/-- The first loop of `incremental_copy_fast_path`, which spreads a short pattern. -/
def spreadLoop : ℕ → ℕ → ℕ → ℤ → Bytes → Option (ℕ × ℤ × Bytes)
  | 0, _, _, _, _ => none
  | fuel + 1, src, op, len, mem =>
    if op - src < 8 then
      (unalignedCopy64 wide src op mem).bind
        (spreadLoop fuel src (op + (op - src)) (len - (op - src : ℕ)))
    else some (op, len, mem)

/-- Its second loop. -/
def wordLoop : ℕ → ℕ → ℕ → ℤ → Bytes → Option Bytes
  | 0, _, _, _, _ => none
  | fuel + 1, src, op, len, mem =>
    if 0 < len then
      (unalignedCopy64 wide src op mem).bind (wordLoop fuel (src + 8) (op + 8) (len - 8))
    else some mem

/-- `incremental_copy_fast_path`. A pattern of one byte is spread three times. -/
def incrementalCopyFastPath (src op len : ℕ) (mem : Bytes) : Option Bytes :=
  (spreadLoop wide 4 src op len mem).bind fun (op, left, mem) ↦ wordLoop wide (len + 1) src op left mem

/-- `writer_append_from_self`: whether it succeeds, and the writer after it. -/
def writerAppendFromSelf (w : Writer) (offset len : ℕ) : Option (Bool × Writer) :=
  if w.opLimit < w.op then none
  -- `offset - 1u` is the greatest word for a zero offset
  else if w.op ≤ (offset + (2 ^ 32 - 1)) % 2 ^ 32 then some (false, w)
  else
    let moved := fun mem ↦ (true, { w with mem := mem, op := w.op + len })
    if len ≤ 16 ∧ 8 ≤ offset ∧ 16 ≤ w.opLimit - w.op then
      ((unalignedCopy64 wide (w.op - offset) w.op w.mem).bind
        (unalignedCopy64 wide (w.op - offset + 8) (w.op + 8))).map moved
    else if len + kmaxIncrementCopyOverflow ≤ w.opLimit - w.op then
      (incrementalCopyFastPath wide (w.op - offset) w.op len w.mem).map moved
    else if w.opLimit - w.op < len then some (false, w)
    else (incrementalCopy (w.op - offset) w.op len w.mem).map moved

end Copies

/-- `writer_append` of the bytes `bs`. -/
def writerAppend (w : Writer) (bs : Bytes) : Option (Bool × Writer) :=
  if w.opLimit < w.op then none
  else if w.opLimit - w.op < bs.length then some (false, w)
  else
    (store? w.mem w.op bs).map fun mem ↦ (true, { w with mem := mem, op := w.op + bs.length })

/-- `writer_try_fast_append`: sixteen bytes of the input `src` are copied in two words, of
which `len` count. -/
def writerTryFastAppend (w : Writer) (src : Bytes) (ip availableBytes len : ℕ) :
    Option (Bool × Writer) :=
  if len ≤ 16 ∧ 16 ≤ availableBytes ∧ w.op + 16 ≤ w.opLimit then
    ((load? src ip 8).bind (store? w.mem w.op)).bind fun mem ↦
      ((load? src (ip + 8) 8).bind (store? mem (w.op + 8))).map fun mem ↦
        (true, { w with mem := mem, op := w.op + len })
  else some (false, w)

/-- The writer stays in its buffer and below the expected length. -/
structure Inside (w : Writer) : Prop where
  op_le : w.op ≤ w.opLimit
  limit_le : w.opLimit ≤ w.mem.length
  small : w.opLimit < 2 ^ 32

/-- What has been produced. -/
def Writer.out (w : Writer) : Bytes := w.mem.take w.op

theorem Inside.out_length {w : Writer} (h : Inside w) : w.out.length = w.op :=
  List.length_take_of_le (Nat.le_trans h.op_le h.limit_le)

/-- Only cells from `lo` on and before `hi` have changed. -/
structure Touches (lo hi : ℕ) (mem mem' : Bytes) : Prop where
  length : mem'.length = mem.length
  before : ∀ j < lo, mem'[j]? = mem[j]?
  behind : ∀ j, hi ≤ j → mem'[j]? = mem[j]?

theorem Touches.refl (lo hi : ℕ) (mem : Bytes) : Touches lo hi mem mem :=
  ⟨rfl, fun _ _ ↦ rfl, fun _ _ ↦ rfl⟩

theorem Touches.trans {lo hi lo' hi' : ℕ} {mem mem' mem'' : Bytes} (h : Touches lo hi mem mem')
    (h' : Touches lo' hi' mem' mem'') (hlo : lo ≤ lo') (hhi : hi' ≤ hi) :
    Touches lo hi mem mem'' := by
  refine ⟨h'.length.trans h.length, fun j hj ↦ ?_, fun j hj ↦ ?_⟩
  · rw [h'.before j (by omega), h.before j hj]
  · rw [h'.behind j (by omega), h.behind j hj]

theorem Touches.mono {lo hi lo' hi' : ℕ} {mem mem' : Bytes} (h : Touches lo hi mem mem')
    (hlo : lo' ≤ lo) (hhi : hi ≤ hi') : Touches lo' hi' mem mem' :=
  ⟨h.length, fun j hj ↦ h.before j (by omega), fun j hj ↦ h.behind j (by omega)⟩

theorem Touches.drop {lo hi : ℕ} {mem mem' : Bytes} (h : Touches lo hi mem mem') :
    mem'.drop hi = mem.drop hi := by
  apply List.ext_getElem?
  intro j
  rw [List.getElem?_drop, List.getElem?_drop, h.behind _ (by omega)]

theorem Touches.take {lo hi : ℕ} {mem mem' : Bytes} (h : Touches lo hi mem mem') :
    mem'.take lo = mem.take lo := by
  apply List.ext_getElem?
  intro j
  by_cases hj : j < lo
  · rw [List.getElem?_take_of_lt hj, List.getElem?_take_of_lt hj, h.before j hj]
  · rw [List.getElem?_eq_none (by rw [List.length_take]; omega),
      List.getElem?_eq_none (by rw [List.length_take]; omega)]

theorem store_touches {mem bs : Bytes} {i : ℕ} (h : i + bs.length ≤ mem.length) :
    Touches i (i + bs.length) mem (store mem i bs) := by
  refine ⟨store_length h, fun j hj ↦ ?_, fun j hj ↦ ?_⟩
  · rw [getElem?_store (by omega), if_pos hj]
  · rw [getElem?_store (by omega), if_neg (by omega), if_neg (by omega)]

/-- Moving `n` cells on to a place behind their first one. -/
theorem moved_cells {mem : Bytes} {src dst n : ℕ} (h : dst + n ≤ mem.length) (hsrc : src < dst) :
    (load? mem src n).bind (store? mem dst) = some (store mem dst ((mem.drop src).take n)) ∧
      Touches dst (dst + n) mem (store mem dst ((mem.drop src).take n)) ∧
      ∀ j, dst ≤ j → j < dst + n →
        (store mem dst ((mem.drop src).take n))[j]? = mem[j - (dst - src)]? := by
  have hlen := length_drop_take (show src + n ≤ mem.length by omega)
  have hfit : dst + ((mem.drop src).take n).length ≤ mem.length := by rw [hlen]; exact h
  have htouch := store_touches hfit
  rw [hlen] at htouch
  refine ⟨?_, htouch, fun j hj hlt ↦ ?_⟩
  · rw [load?_eq (by omega), Option.bind_some, store?_eq hfit]
  · rw [getElem?_store (by omega), hlen, if_neg (by omega), if_pos hlt,
      getElem?_drop_take (by omega)]
    congr 1
    omega

/-- Eight cells are moved on; those closer to the target than the distance are the old ones. -/
theorem unalignedCopy64_spec (wide : Bool) {mem : Bytes} {src dst : ℕ}
    (h : dst + 8 ≤ mem.length) (hsrc : src < dst) :
    ∃ mem', unalignedCopy64 wide src dst mem = some mem' ∧ Touches dst (dst + 8) mem mem' ∧
      ∀ j, dst ≤ j → j < dst + min 8 (dst - src) → mem'[j]? = mem'[j - (dst - src)]? := by
  cases wide with
  | true =>
    obtain ⟨hcopy, htouch, hcells⟩ := moved_cells h hsrc
    refine ⟨_, hcopy, htouch, fun j hj hlt ↦ ?_⟩
    rw [hcells j hj (by omega), htouch.before _ (by omega)]
  | false =>
    obtain ⟨hcopy, htouch, hcells⟩ := moved_cells (show dst + 4 ≤ mem.length by omega) hsrc
    generalize store mem dst ((mem.drop src).take 4) = mid at hcopy htouch hcells
    obtain ⟨hcopy', htouch', hcells'⟩ :=
      moved_cells (show dst + 4 + 4 ≤ mid.length by rw [htouch.length]; omega)
        (show src + 4 < dst + 4 by omega)
    generalize store mid (dst + 4) ((mid.drop (src + 4)).take 4) = mem' at hcopy' htouch' hcells'
    refine ⟨mem', ?_, (htouch.mono (Nat.le_refl _) (by omega)).trans htouch' (by omega) (by omega),
      fun j hj hlt ↦ ?_⟩
    · rw [unalignedCopy64, if_neg (by decide), hcopy, Option.bind_some, hcopy']
    · have hold : mem'[j - (dst - src)]? = mem[j - (dst - src)]? := by
        rw [htouch'.before _ (by omega), htouch.before _ (by omega)]
      rw [hold]
      by_cases hhalf : j < dst + 4
      · rw [htouch'.before j hhalf, hcells j hj hhalf]
      · rw [hcells' j (by omega) (by omega), htouch.before _ (by omega)]
        congr 1
        omega

section Copying

variable (wide : Bool) {b d : ℕ}

/-- A word copied over a multiple of the period. -/
theorem unalignedCopy64_periodic (hd : 0 < d) {mem : Bytes} {src dst m : ℕ} (hm : 0 < m)
    (hdist : src + m * d = dst) (hb : b ≤ src) (h : dst + 8 ≤ mem.length)
    (hper : Periodic mem b d dst) :
    ∃ mem', unalignedCopy64 wide src dst mem = some mem' ∧ Touches dst (dst + 8) mem mem' ∧
      Periodic mem' b d (dst + min 8 (m * d)) := by
  have hpos := Nat.mul_pos hm hd
  obtain ⟨mem', hcopy, htouch, hcells⟩ := unalignedCopy64_spec wide h (show src < dst by omega)
  refine ⟨mem', hcopy, htouch, hper.extend hm (by omega) htouch.before (fun j hj hlt ↦ ?_) hd⟩
  rw [show m * d = dst - src by omega] at hlt ⊢
  exact hcells j hj hlt

theorem copyLoop_spec (hd : 0 < d) {len src op : ℕ} {mem : Bytes} (hdist : src + d = op)
    (hb : b ≤ src) (h : op + len ≤ mem.length) (hper : Periodic mem b d op) :
    ∃ mem', copyLoop len src op mem = some mem' ∧ Touches op (op + len) mem mem' ∧
      Periodic mem' b d (op + len) := by
  induction len generalizing src op mem with
  | zero => exact ⟨mem, rfl, .refl _ _ _, hper⟩
  | succ len ih =>
    obtain ⟨hcopy, htouch, hcells⟩ :=
      moved_cells (show op + 1 ≤ mem.length by omega) (show src < op by omega)
    generalize store mem op ((mem.drop src).take 1) = mid at hcopy htouch hcells
    have hmid : Periodic mid b d (op + 1) := by
      refine hper.extend Nat.one_pos (by omega) htouch.before (fun j hj hlt ↦ ?_) hd
      rw [hcells j hj hlt, htouch.before _ (by omega)]
      congr 1
      omega
    obtain ⟨mem', hloop, htouch', hper'⟩ :=
      ih (show src + 1 + d = op + 1 by omega) (by omega) (by rw [htouch.length]; omega) hmid
    rw [show op + 1 + len = op + (len + 1) by omega] at htouch' hper'
    refine ⟨mem', ?_, (htouch.mono (Nat.le_refl _) (by omega)).trans htouch' (by omega)
      (Nat.le_refl _), hper'⟩
    rw [copyLoop, hcopy, Option.bind_some, hloop]

/-- The distance is doubled until a word fits into it. The last word written ends eleven
cells behind the place the copy starts from. -/
theorem spreadLoop_spec (hd : 0 < d) {fuel k src op : ℕ} {mem : Bytes}
    (hfuel : 8 ≤ 2 ^ (k + fuel)) (hdist : src + 2 ^ k * d = op)
    (h : src + d + 11 ≤ mem.length) (hper : Periodic mem src d op) (len : ℤ) :
    ∃ op' len' mem' m, spreadLoop wide (fuel + 1) src op len mem = some (op', len', mem') ∧
      Touches (src + d) (src + d + 11) mem mem' ∧ src + m * d = op' ∧ 8 ≤ m * d ∧
      (op' : ℤ) + len' = op + len ∧ Periodic mem' src d op' := by
  induction fuel generalizing k op len mem with
  | zero =>
    have hfar := Nat.le_mul_of_pos_right (2 ^ k) hd
    rw [Nat.add_zero] at hfuel
    refine ⟨op, len, mem, 2 ^ k, ?_, .refl _ _ _, hdist, by omega, rfl, hper⟩
    rw [spreadLoop, if_neg (by omega)]
  | succ fuel ih =>
    rw [spreadLoop]
    by_cases hfar : 8 ≤ 2 ^ k * d
    · rw [if_neg (by omega)]
      exact ⟨op, len, mem, 2 ^ k, rfl, .refl _ _ _, hdist, hfar, rfl, hper⟩
    rw [if_pos (by omega)]
    have hk : k < 3 := by
      by_contra hk
      have hpow : 2 ^ 3 ≤ 2 ^ k := Nat.pow_le_pow_right (by decide) (by omega)
      have hmul := Nat.le_mul_of_pos_right (2 ^ k) hd
      omega
    -- of the distances below a word, none is more than three cells past the first one
    have hnear : 2 ^ k * d ≤ d + 3 ∧ d ≤ 2 ^ k * d := by
      obtain rfl | rfl | rfl : k = 0 ∨ k = 1 ∨ k = 2 := by omega
      all_goals omega
    obtain ⟨mid, hcopy, htouch, hmid⟩ := unalignedCopy64_periodic wide hd (Nat.two_pow_pos k)
      hdist (Nat.le_refl src) (by omega) hper
    have hdouble : src + 2 ^ (k + 1) * d = op + (op - src) := by
      rw [Nat.pow_succ, Nat.mul_right_comm]
      omega
    rw [show op + min 8 (2 ^ k * d) = op + (op - src) by omega] at hmid
    obtain ⟨op', len', mem', m, hloop, htouch', hrest⟩ := ih (k := k + 1)
      (by rwa [Nat.add_right_comm]) hdouble (by rw [htouch.length]; exact h) hmid
      (len - (op - src : ℕ))
    refine ⟨op', len', mem', m, ?_, ?_, hrest.1, hrest.2.1, ?_, hrest.2.2.2⟩
    · rw [hcopy, Option.bind_some, hloop]
    · exact (htouch.mono (by omega) (by omega)).trans htouch' (Nat.le_refl _) (Nat.le_refl _)
    · have hsum := hrest.2.2.1
      omega

theorem wordLoop_spec (hd : 0 < d) {m fuel src op e hi : ℕ} {len : ℤ} {mem : Bytes}
    (hfuel : len ≤ fuel) (hfar : 8 ≤ m * d) (hdist : src + m * d = op) (hb : b ≤ src)
    (hend : (e : ℤ) = op + len) (hhi : e + 7 ≤ hi) (h : hi ≤ mem.length)
    (hper : Periodic mem b d op) :
    ∃ mem', wordLoop wide (fuel + 1) src op len mem = some mem' ∧ Touches op hi mem mem' ∧
      Periodic mem' b d e := by
  induction fuel generalizing src op len mem with
  | zero =>
    rw [wordLoop, if_neg (by omega)]
    exact ⟨mem, rfl, .refl _ _ _, hper.mono (by omega)⟩
  | succ fuel ih =>
    rw [wordLoop]
    by_cases hlen : 0 < len
    · rw [if_pos hlen]
      obtain ⟨mid, hcopy, htouch, hmid⟩ := unalignedCopy64_periodic wide hd
        (Nat.pos_of_mul_pos_right (show 0 < m * d by omega)) hdist hb (by omega) hper
      rw [Nat.min_eq_left hfar] at hmid
      obtain ⟨mem', hloop, htouch', hper'⟩ := ih (show len - 8 ≤ fuel by omega)
        (show src + 8 + m * d = op + 8 by omega) (by omega) (by omega)
        (by rw [htouch.length]; exact h) hmid
      refine ⟨mem', ?_, ?_, hper'⟩
      · rw [hcopy, Option.bind_some, hloop]
      · exact (htouch.mono (Nat.le_refl _) (by omega)).trans htouch' (by omega) (Nat.le_refl _)
    · rw [if_neg hlen]
      exact ⟨mem, rfl, .refl _ _ _, hper.mono (by omega)⟩

/-- The spread pattern and the words behind it, as one copy. Ten cells too many may be
written. -/
theorem incrementalCopyFastPath_spec (hd : 0 < d) {src op len : ℕ} {mem : Bytes}
    (hlen : 0 < len) (hdist : src + d = op) (h : op + len + 10 ≤ mem.length) :
    ∃ mem', incrementalCopyFastPath wide src op len mem = some mem' ∧
      Touches op (op + len + 10) mem mem' ∧ Periodic mem' src d (op + len) := by
  have hstart : Periodic mem src d op := fun j hj hlt ↦ by omega
  obtain ⟨op', left, mid, m, hspread, htouch, hm, hfar, hsum, hmid⟩ :=
    spreadLoop_spec wide hd (show 8 ≤ 2 ^ (0 + 3) by decide)
      (show src + 2 ^ 0 * d = op by omega) (by omega) hstart len
  have hdm : d ≤ m * d := by
    refine Nat.le_mul_of_pos_left d ?_
    exact Nat.pos_of_mul_pos_right (show 0 < m * d by omega)
  obtain ⟨mem', hwords, htouch', hper⟩ :=
    wordLoop_spec wide hd (show left ≤ len by omega) hfar hm (Nat.le_refl src)
      (show ((op + len : ℕ) : ℤ) = op' + left by omega) (show op + len + 7 ≤ op + len + 10 by omega)
      (by rw [htouch.length]; exact h) hmid
  refine ⟨mem', ?_, ?_, hper⟩
  · rw [incrementalCopyFastPath, hspread, Option.bind_some]
    exact hwords
  · rw [hdist] at htouch
    exact (htouch.mono (Nat.le_refl _) (by omega)).trans htouch' (by omega) (Nat.le_refl _)

theorem twoWords_spec {op offset : ℕ} {mem : Bytes} (hoff : 8 ≤ offset) (hop : offset ≤ op)
    (h : op + 16 ≤ mem.length) :
    ∃ mem', (unalignedCopy64 wide (op - offset) op mem).bind
        (unalignedCopy64 wide (op - offset + 8) (op + 8)) = some mem' ∧
      Touches op (op + 16) mem mem' ∧ Periodic mem' (op - offset) offset (op + 16) := by
  have hstart : Periodic mem (op - offset) offset op := fun j hj hlt ↦ by omega
  obtain ⟨mid, hcopy, htouch, hmid⟩ := unalignedCopy64_periodic wide (b := op - offset)
    (show 0 < offset by omega) Nat.one_pos (show op - offset + 1 * offset = op by omega)
    (Nat.le_refl _) (by omega) hstart
  rw [Nat.min_eq_left (by omega)] at hmid
  obtain ⟨mem', hcopy', htouch', hper⟩ := unalignedCopy64_periodic wide (b := op - offset)
    (show 0 < offset by omega) Nat.one_pos (show op - offset + 8 + 1 * offset = op + 8 by omega)
    (by omega) (by rw [htouch.length]; omega) hmid
  rw [Nat.min_eq_left (by omega)] at hper
  refine ⟨mem', ?_, ?_, hper⟩
  · rw [hcopy, Option.bind_some, hcopy']
  · exact (htouch.mono (Nat.le_refl _) (by omega)).trans htouch' (by omega) (Nat.le_refl _)

end Copying

/-- A writer that has produced `out'` within its limit, with nothing else changed. -/
structure Appended (w w' : Writer) (out' : Bytes) : Prop where
  inside : Inside w'
  out : w'.out = out'
  limit : w'.opLimit = w.opLimit
  touches : Touches w.op w.opLimit w.mem w'.mem

/-- Cells that repeat at the offset behind what was there are the copy of a back reference. -/
theorem Appended.of_periodic {w : Writer} {mem : Bytes} {offset len : ℕ} (h : Inside w)
    (hpos : 0 < offset) (hoff : offset ≤ w.op) (hlen : w.op + len ≤ w.opLimit)
    (htouch : Touches w.op w.opLimit w.mem mem)
    (hper : Periodic mem (w.op - offset) offset (w.op + len)) :
    Appended w { w with mem := mem, op := w.op + len } (selfCopy offset len w.out) := by
  have hout := h.out_length
  have hlimit := h.limit_le
  refine ⟨⟨hlen, by rw [htouch.length]; exact hlimit, h.small⟩, ?_, rfl, htouch⟩
  apply eq_selfCopy hpos
  · rwa [hout]
  · rw [Writer.out, List.length_take_of_le (by rw [htouch.length]; dsimp only; omega), hout]
  · rw [hout]
    change (mem.take (w.op + len)).take w.op = w.mem.take w.op
    rw [List.take_take, Nat.min_eq_left (by omega), htouch.take]
  · rw [hout]
    intro j hj hlt
    have hcell := hper j (by omega) hlt
    rw [Writer.out, List.getElem?_take_of_lt hlt, List.getElem?_take_of_lt (by dsimp only; omega)]
    exact hcell

/-- Whichever way it copies, `writer_append_from_self` makes the copy of the back reference,
stays below the limit, and fails exactly on a reference that is not there or does not fit. -/
theorem writerAppendFromSelf_spec (wide : Bool) {w : Writer} {offset len : ℕ} (h : Inside w)
    (hoff : offset < 2 ^ 32) (hlen : 0 < len) :
    ((0 < offset ∧ offset ≤ w.op ∧ w.op + len ≤ w.opLimit) ∧
      ∃ w', writerAppendFromSelf wide w offset len = some (true, w') ∧
        Appended w w' (selfCopy offset len w.out)) ∨
    (¬ (0 < offset ∧ offset ≤ w.op ∧ w.op + len ≤ w.opLimit) ∧
      writerAppendFromSelf wide w offset len = some (false, w)) := by
  have hop := h.op_le
  have hlimit := h.limit_le
  have hsmall := h.small
  unfold writerAppendFromSelf
  rw [if_neg (by omega)]
  by_cases hback : 0 < offset ∧ offset ≤ w.op
  swap
  · refine .inr ⟨fun hall ↦ hback ⟨hall.1, hall.2.1⟩, ?_⟩
    rw [if_pos (by omega)]
  obtain ⟨hpos, hle⟩ := hback
  have hdist : w.op - offset + offset = w.op := by omega
  rw [if_neg (by omega)]
  by_cases hshort : len ≤ 16 ∧ 8 ≤ offset ∧ 16 ≤ w.opLimit - w.op
  · obtain ⟨mem', hcopy, htouch, hper⟩ := twoWords_spec wide hshort.2.1 hle
      (show w.op + 16 ≤ w.mem.length by omega)
    refine .inl ⟨⟨hpos, hle, by omega⟩, _, ?_, .of_periodic h hpos hle (by omega)
      (htouch.mono (Nat.le_refl _) (by omega)) (hper.mono (by omega))⟩
    rw [if_pos hshort, hcopy, Option.map_some]
  rw [if_neg hshort]
  by_cases hroom : len + kmaxIncrementCopyOverflow ≤ w.opLimit - w.op
  · rw [if_pos hroom]
    rw [kmaxIncrementCopyOverflow] at hroom
    obtain ⟨mem', hcopy, htouch, hper⟩ := incrementalCopyFastPath_spec wide hpos hlen hdist
      (show w.op + len + 10 ≤ w.mem.length by omega)
    refine .inl ⟨⟨hpos, hle, by omega⟩, _, ?_, .of_periodic h hpos hle (by omega)
      (htouch.mono (Nat.le_refl _) (by omega)) hper⟩
    rw [hcopy, Option.map_some]
  rw [if_neg hroom]
  by_cases hfull : w.opLimit - w.op < len
  · refine .inr ⟨fun hall ↦ ?_, if_pos hfull⟩
    omega
  · obtain ⟨mem', hcopy, htouch, hper⟩ := copyLoop_spec hpos hdist (Nat.le_refl _)
      (show w.op + len ≤ w.mem.length by omega) (fun j hj hlt ↦ by omega)
    refine .inl ⟨⟨hpos, hle, by omega⟩, _, ?_, .of_periodic h hpos hle (by omega)
      (htouch.mono (Nat.le_refl _) (by omega)) hper⟩
    rw [if_neg hfull, incrementalCopy, if_pos hlen, hcopy, Option.map_some]

/-- Cells stored at `op`, of which the first `len` count. -/
theorem Appended.of_store {w : Writer} {mem bs : Bytes} (h : Inside w)
    (hlen : w.op + bs.length ≤ w.opLimit) (htouch : Touches w.op w.opLimit w.mem mem)
    (hcells : ∀ j < bs.length, mem[w.op + j]? = bs[j]?) :
    Appended w { w with mem := mem, op := w.op + bs.length } (w.out ++ bs) := by
  have hout := h.out_length
  have hlimit := h.limit_le
  refine ⟨⟨hlen, by rw [htouch.length]; exact hlimit, h.small⟩, ?_, rfl, htouch⟩
  rw [Writer.out]
  dsimp only
  rw [List.take_add, htouch.take]
  congr 1
  apply List.ext_getElem?
  intro j
  by_cases hj : j < bs.length
  · rw [getElem?_drop_take hj, hcells j hj]
  · rw [List.getElem?_eq_none (by rw [List.length_take]; omega), List.getElem?_eq_none (by omega)]

theorem writerAppend_spec {w : Writer} (h : Inside w) (bs : Bytes) :
    (w.op + bs.length ≤ w.opLimit ∧ ∃ w', writerAppend w bs = some (true, w') ∧
      Appended w w' (w.out ++ bs)) ∨
    (¬ w.op + bs.length ≤ w.opLimit ∧ writerAppend w bs = some (false, w)) := by
  have hop := h.op_le
  have hlimit := h.limit_le
  unfold writerAppend
  rw [if_neg (by omega)]
  by_cases hroom : w.op + bs.length ≤ w.opLimit
  · refine .inl ⟨hroom, { w with mem := store w.mem w.op bs, op := w.op + bs.length }, ?_, ?_⟩
    · rw [if_neg (by omega), store?_eq (by omega), Option.map_some]
    · refine .of_store h hroom ((store_touches (by omega)).mono (Nat.le_refl _) hroom) fun j hj ↦ ?_
      rw [getElem?_store (by omega), if_neg (by omega), if_pos (by omega), Nat.add_sub_cancel_left]
  · exact .inr ⟨hroom, if_pos (by omega)⟩

/-- The two words hold the literal; sixteen bytes are read and written in any case. -/
theorem writerTryFastAppend_spec {w : Writer} (h : Inside w) {src : Bytes} {ip avail : ℕ}
    (havail : ip + avail ≤ src.length) (len : ℕ) :
    ((len ≤ 16 ∧ len ≤ avail ∧ w.op + len ≤ w.opLimit) ∧
      ∃ w', writerTryFastAppend w src ip avail len = some (true, w') ∧
        Appended w w' (w.out ++ (src.drop ip).take len)) ∨
    writerTryFastAppend w src ip avail len = some (false, w) := by
  have hlimit := h.limit_le
  unfold writerTryFastAppend
  by_cases hfast : len ≤ 16 ∧ 16 ≤ avail ∧ w.op + 16 ≤ w.opLimit
  · rw [if_pos hfast]
    have hone : ((src.drop ip).take 8).length = 8 := length_drop_take (by omega)
    have htwo : ((src.drop (ip + 8)).take 8).length = 8 := length_drop_take (by omega)
    have hfirst := @store_touches w.mem ((src.drop ip).take 8) w.op (by omega)
    have hcells := @getElem?_store _ w.mem ((src.drop ip).take 8) w.op (by omega)
    rw [hone] at hfirst hcells
    rw [load?_eq (by omega), Option.bind_some, store?_eq (by omega), Option.bind_some]
    generalize store w.mem w.op ((src.drop ip).take 8) = mid at hfirst hcells
    have hlen := hfirst.length
    have hsecond := @store_touches mid ((src.drop (ip + 8)).take 8) (w.op + 8) (by omega)
    have hcells' := @getElem?_store _ mid ((src.drop (ip + 8)).take 8) (w.op + 8) (by omega)
    rw [htwo] at hsecond hcells'
    rw [load?_eq (by omega), Option.bind_some, store?_eq (by omega), Option.map_some]
    generalize store mid (w.op + 8) ((src.drop (ip + 8)).take 8) = mem' at hsecond hcells'
    have htake : ((src.drop ip).take len).length = len := length_drop_take (by omega)
    have happ := @Appended.of_store w mem' ((src.drop ip).take len) h
      (by omega) ((hfirst.mono (Nat.le_refl _) (by omega)).trans hsecond (by omega) (by omega))
      fun j hj ↦ ?_
    · rw [htake] at happ
      exact .inl ⟨⟨hfast.1, by omega, by omega⟩, _, rfl, happ⟩
    · rw [getElem?_drop_take (by omega), hcells']
      by_cases hhalf : j < 8
      · rw [if_pos (by omega), hcells, if_neg (by omega), if_pos (by omega),
          Nat.add_sub_cancel_left, getElem?_drop_take hhalf]
      · rw [if_neg (by omega), if_pos (by omega), getElem?_drop_take (by omega)]
        congr 1
        omega
  · rw [if_neg hfast]
    exact .inr rfl

end Xfrpc.Snappy.Output
