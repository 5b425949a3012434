import Xfrpc.Control.Receive
import Mathlib.Tactic.Ring

namespace Xfrpc.Control.Bounds

open Foundations.BigEndian Message Receive

/-- A read of `len` bytes from index `off` of the buffer on. -/
structure Read where
  off : ℤ
  len : ℕ
  deriving DecidableEq, Repr

structure Trace where
  reads : List Read
  lens : List ℤ
  deriving DecidableEq, Repr

instance : Append Trace := ⟨fun t u ↦ ⟨t.reads ++ u.reads, t.lens ++ u.lens⟩⟩

def Trace.none : Trace := ⟨[], []⟩

/-- The conversions to `int` and to `size_t`, on 32 bits. -/
def toInt (n : ℤ) : ℤ := Int.bmod n (2 * intLimit)

def toSize (n : ℤ) : ℕ := (n % (2 * intLimit : ℕ)).toNat

/-- What the handlers depend on beside the buffer: whether the `k`-th `malloc` has
so many bytes, whether the login is accepted, and whether `handle_type_start_work_conn`
gets as far as the tail. -/
structure World where
  malloc : ℕ → ℕ → Bool
  loginOk : Bool
  served : Bool

def wireLen (buf : Bytes) : ℕ := ofBe ((buf.drop 1).take 8)

def readType : Trace := ⟨[⟨0, 1⟩], []⟩

def readLength : Trace := ⟨[⟨1, 8⟩], []⟩

variable (W : World)

def jsonBuf (buf : Bytes) : Bool := W.malloc 0 (toSize (toInt (dataLen buf + 1)))

/-- The copy of the data with a NUL behind it, as every handler makes it; in
`msg_data_to_json` for the visitor and NatHole messages. -/
def copyData (buf : Bytes) : Trace :=
  readLength ++
    ⟨if jsonBuf W buf then [⟨msgHdrSize, toSize (dataLen buf)⟩] else [], [dataLen buf]⟩

/-- The bytes behind the message: `remaining_len` is computed on 64 bits. -/
def copyTail (buf : Bytes) : Trace :=
  let remaining := toInt (buf.length - msgHdrSize - wireLen buf)
  readLength ++
    ⟨if remaining > 0 ∧ W.malloc 1 (toSize remaining) then
        [⟨msgHdrSize + dataLen buf, toSize remaining⟩]
      else [], [remaining]⟩

def handleTypeStartWorkConn (buf : Bytes) : Trace :=
  copyData W buf ++ if jsonBuf W buf && W.served then copyTail W buf else .none

/-- The messages whose handler copies the data and does nothing else with the
buffer. -/
def copiesData (type : UInt8) : Bool :=
  [MsgType.newProxyResp, .udpPacket, .newVisitorConnResp, .natHoleResp].any (·.code == type)

/-- `handle_control_work` on a buffer it has decrypted, or on one that came in the
clear. A buffer that does not pass is named in the log with its length field. -/
def handleControlWork (decrypted : Bool) (buf : Bytes) : Trace :=
  if decrypted ∧ buf = [] then .none
  else if buf.length < msgHdrSize ∨ dataLen buf > buf.length - msgHdrSize then readLength
  else
    readLength ++ readType ++
      if buf.headD 0 = MsgType.startWorkConn.code then handleTypeStartWorkConn W buf
      else if copiesData (buf.headD 0) then copyData W buf
      else .none

def handleLoginResponse (buf : Bytes) : Trace :=
  if buf = [] then .none
  else
    readType ++
      if buf.headD 0 ≠ MsgType.loginResp.code then .none
      else
        copyData W buf ++
          if jsonBuf W buf && W.loginOk then
            readLength ++ ⟨[], [dataLen buf, toInt (buf.length - (dataLen buf + msgHdrSize))]⟩
          else .none

inductive Entry
  | login
  | control (decrypted : Bool)
  deriving DecidableEq, Repr

def handle : Entry → Bytes → Trace
  | .login => handleLoginResponse W
  | .control decrypted => handleControlWork W decrypted

/-- Every byte that is read is one of the `n` received, and no length is negative. -/
def Bounded (n : ℕ) (t : Trace) : Prop :=
  (∀ r ∈ t.reads, ∀ i < r.len, 0 ≤ r.off + (i : ℤ) ∧ r.off + (i : ℤ) < n) ∧ ∀ l ∈ t.lens, 0 ≤ l

instance (n : ℕ) (t : Trace) : Decidable (Bounded n t) := inferInstanceAs (Decidable (_ ∧ _))

/-- The header is there, its length is none an `int` takes for negative, and as much
follows; unless there is no memory for the copy. -/
def measured (buf : Bytes) : Bool :=
  decide (msgHdrSize ≤ buf.length ∧ 0 ≤ dataLen buf) &&
    (decide (dataLen buf ≤ buf.length - msgHdrSize) || !jsonBuf W buf)

/-- The buffers on which all goes well. -/
def wellMeasured : Entry → Bytes → Bool
  | .login, buf =>
    decide (buf = []) || decide (buf.headD 0 ≠ MsgType.loginResp.code) || measured W buf
  | .control decrypted, buf =>
    (decrypted && decide (buf = [])) ||
      (decide (msgHdrSize ≤ buf.length) &&
        (decide (0 ≤ dataLen buf) ||
          (decide (buf.headD 0 ≠ MsgType.startWorkConn.code) && !copiesData (buf.headD 0))))

variable {W}

theorem bounded_append {n : ℕ} {t u : Trace} : Bounded n (t ++ u) ↔ Bounded n t ∧ Bounded n u := by
  show (∀ r ∈ t.reads ++ u.reads, _) ∧ (∀ l ∈ t.lens ++ u.lens, _) ↔ _
  rw [List.forall_mem_append, List.forall_mem_append]
  unfold Bounded
  tauto

theorem bounded_none (n : ℕ) : Bounded n .none := ⟨nofun, nofun⟩

theorem bounded_single {n : ℕ} {r : Read} {ls : List ℤ} :
    Bounded n ⟨[r], ls⟩ ↔ (r.len = 0 ∨ 0 ≤ r.off ∧ r.off + r.len ≤ n) ∧ ∀ l ∈ ls, 0 ≤ l := by
  unfold Bounded
  refine and_congr_left fun _ ↦ ?_
  simp only [List.mem_singleton, forall_eq]
  constructor
  · intro h
    by_cases h₀ : r.len = 0
    · exact .inl h₀
    · have hfirst := h 0 (by omega)
      have hlast := h (r.len - 1) (by omega)
      push_cast at hfirst hlast
      omega
  · rintro h i hi
    omega

theorem bounded_lens {n : ℕ} {ls : List ℤ} : Bounded n ⟨[], ls⟩ ↔ ∀ l ∈ ls, 0 ≤ l :=
  ⟨fun h ↦ h.2, fun h ↦ ⟨nofun, h⟩⟩

theorem bounded_readType {n : ℕ} : Bounded n readType ↔ 1 ≤ n := by
  rw [readType, bounded_single]
  simp

theorem bounded_readLength {n : ℕ} : Bounded n readLength ↔ msgHdrSize ≤ n := by
  rw [readLength, bounded_single, msgHdrSize]
  simp

theorem toSize_eq {n : ℤ} (h : 0 ≤ n) (h' : n < intLimit) : (toSize n : ℤ) = n := by
  unfold toSize
  unfold intLimit at h' ⊢
  omega

theorem toInt_eq {n : ℤ} (h : 0 ≤ n) (h' : n < intLimit) : toInt n = n := by
  obtain ⟨k, rfl⟩ := Int.eq_ofNat_of_zero_le h
  exact bmod_of_lt (by exact_mod_cast h')

theorem copyData_bounded_iff (buf : Bytes) :
    Bounded buf.length (copyData W buf) ↔ measured W buf = true := by
  rw [copyData, bounded_append, bounded_readLength]
  simp only [measured, Bool.and_eq_true, Bool.or_eq_true, decide_eq_true_eq, Bool.not_eq_true']
  have hlt := dataLen_lt buf
  cases hm : jsonBuf W buf with
  | false =>
    simp only [Bool.false_eq_true, if_false, bounded_lens, List.mem_singleton, forall_eq, or_true,
      and_true]
  | true =>
    simp only [if_true, bounded_single, List.mem_singleton, forall_eq, Bool.true_eq_false, or_false]
    rw [and_assoc]
    refine and_congr_right fun hn ↦ ?_
    constructor
    · rintro ⟨hcopy, h₀⟩
      have hs := toSize_eq h₀ hlt
      omega
    · rintro ⟨h₀, hfit⟩
      have hs := toSize_eq h₀ hlt
      omega

theorem remaining_eq {buf : Bytes} (hn : buf.length < intLimit)
    (h₀ : 0 ≤ dataLen buf) (hfit : dataLen buf ≤ buf.length - msgHdrSize) :
    toInt (buf.length - msgHdrSize - wireLen buf) = buf.length - msgHdrSize - dataLen buf := by
  have hmod : ((2 * intLimit : ℕ) : ℤ) ∣ ((wireLen buf : ℤ) - dataLen buf) := by
    show ((2 * intLimit : ℕ) : ℤ) ∣ ((wireLen buf : ℤ) - Int.bmod (wireLen buf) (2 * intLimit))
    exact Int.dvd_self_sub_bmod
  obtain ⟨k, hk⟩ := hmod
  have hval : (buf.length : ℤ) - msgHdrSize - wireLen buf =
      (buf.length - msgHdrSize - dataLen buf) + (2 * intLimit : ℕ) * (-k) := by
    rw [mul_neg, ← hk]
    ring
  have hlim : (buf.length : ℤ) < intLimit := by exact_mod_cast hn
  unfold toInt
  rw [hval, Int.add_mul_bmod_self_left]
  exact toInt_eq (by omega) (by omega)

theorem copyTail_bounded {buf : Bytes} (hn : buf.length < intLimit)
    (hhdr : msgHdrSize ≤ buf.length) (h₀ : 0 ≤ dataLen buf)
    (hfit : dataLen buf ≤ buf.length - msgHdrSize) : Bounded buf.length (copyTail W buf) := by
  have hlim : (buf.length : ℤ) < intLimit := by exact_mod_cast hn
  unfold copyTail
  rw [bounded_append, bounded_readLength, remaining_eq hn h₀ hfit]
  refine ⟨hhdr, ?_⟩
  split_ifs with hc
  · rw [bounded_single]
    have hs := toSize_eq (n := buf.length - msgHdrSize - dataLen buf) (by omega) (by omega)
    simp only [List.mem_singleton, forall_eq]
    omega
  · rw [bounded_lens]
    simp only [List.mem_singleton, forall_eq]
    omega

theorem handleTypeStartWorkConn_bounded_iff {buf : Bytes} (hn : buf.length < intLimit)
    (hhdr : msgHdrSize ≤ buf.length) (hfit : dataLen buf ≤ buf.length - msgHdrSize) :
    Bounded buf.length (handleTypeStartWorkConn W buf) ↔ 0 ≤ dataLen buf := by
  rw [handleTypeStartWorkConn, bounded_append, copyData_bounded_iff]
  have hm : measured W buf = true ↔ 0 ≤ dataLen buf := by
    simp [measured, hhdr, hfit]
  rw [hm]
  refine ⟨fun h ↦ h.1, fun h₀ ↦ ⟨h₀, ?_⟩⟩
  split_ifs
  · exact copyTail_bounded hn hhdr h₀ hfit
  · exact bounded_none _

theorem handleControlWork_bounded_iff {buf : Bytes} (hn : buf.length < intLimit) (decrypted : Bool) :
    Bounded buf.length (handleControlWork W decrypted buf) ↔
      wellMeasured W (.control decrypted) buf = true := by
  simp only [wellMeasured, Bool.or_eq_true, Bool.and_eq_true, decide_eq_true_eq,
    Bool.not_eq_true']
  unfold handleControlWork
  by_cases hnil : decrypted = true ∧ buf = []
  · rw [if_pos hnil]
    exact ⟨fun _ ↦ .inl hnil, fun _ ↦ bounded_none _⟩
  · rw [if_neg hnil]
    by_cases hhdr : buf.length < msgHdrSize
    · rw [if_pos (.inl hhdr), bounded_readLength]
      constructor
      · intro h
        omega
      · rintro (h | ⟨h, -⟩)
        · exact absurd h hnil
        · exact h
    · have hhdr' : msgHdrSize ≤ buf.length := by omega
      by_cases hfit : dataLen buf > buf.length - msgHdrSize
      · rw [if_pos (.inr hfit), bounded_readLength]
        exact ⟨fun _ ↦ .inr ⟨hhdr', .inl (by omega)⟩, fun _ ↦ hhdr'⟩
      · have hfit' : dataLen buf ≤ buf.length - msgHdrSize := Int.not_lt.mp hfit
        rw [if_neg (by omega), bounded_append, bounded_append, bounded_readLength, bounded_readType]
        have hone : 1 ≤ buf.length := by
          unfold msgHdrSize at hhdr'
          omega
        have hm : measured W buf = true ↔ 0 ≤ dataLen buf := by
          simp [measured, hhdr', hfit']
        by_cases hstart : buf.headD 0 = MsgType.startWorkConn.code
        · rw [if_pos hstart, handleTypeStartWorkConn_bounded_iff hn hhdr' hfit']
          exact ⟨fun h ↦ .inr ⟨hhdr', .inl h.2⟩, fun h ↦ ⟨⟨hhdr', hone⟩, by
            rcases h with h | ⟨-, h | ⟨h, -⟩⟩
            · exact absurd h hnil
            · exact h
            · exact absurd hstart h⟩⟩
        · rw [if_neg hstart]
          cases hc : copiesData (buf.headD 0) with
          | true =>
            rw [if_pos rfl, copyData_bounded_iff, hm]
            simp only [Bool.true_eq_false, and_false, or_false]
            exact ⟨fun h ↦ .inr ⟨hhdr', h.2⟩, fun h ↦ ⟨⟨hhdr', hone⟩, by
              rcases h with h | ⟨-, h⟩
              · exact absurd h hnil
              · exact h⟩⟩
          | false =>
            rw [if_neg (by decide)]
            exact ⟨fun _ ↦ .inr ⟨hhdr', .inr ⟨hstart, rfl⟩⟩, fun _ ↦
              ⟨⟨hhdr', hone⟩, bounded_none _⟩⟩

theorem handleLoginResponse_bounded_iff {buf : Bytes} (hn : buf.length < intLimit) :
    Bounded buf.length (handleLoginResponse W buf) ↔ wellMeasured W .login buf = true := by
  simp only [wellMeasured, Bool.or_eq_true, decide_eq_true_eq]
  unfold handleLoginResponse
  by_cases hnil : buf = []
  · rw [if_pos hnil]
    exact ⟨fun _ ↦ .inl (.inl hnil), fun _ ↦ bounded_none _⟩
  · have hone : 1 ≤ buf.length := List.length_pos_iff.mpr hnil
    rw [if_neg hnil, bounded_append, bounded_readType]
    by_cases htype : buf.headD 0 ≠ MsgType.loginResp.code
    · rw [if_pos htype]
      exact ⟨fun _ ↦ .inl (.inr htype), fun _ ↦ ⟨hone, bounded_none _⟩⟩
    · rw [if_neg htype, bounded_append, copyData_bounded_iff]
      constructor
      · rintro ⟨-, hm, -⟩
        exact .inr hm
      · rintro ((h | h) | hm)
        · exact absurd h hnil
        · exact absurd h htype
        · refine ⟨hone, hm, ?_⟩
          simp only [measured, Bool.and_eq_true, Bool.or_eq_true, decide_eq_true_eq,
            Bool.not_eq_true'] at hm
          obtain ⟨⟨hhdr, h₀⟩, hfit⟩ := hm
          split_ifs with hc
          · rw [Bool.and_eq_true] at hc
            have hle : dataLen buf ≤ buf.length - msgHdrSize := by
              rcases hfit with hfit | hfit
              · exact hfit
              · rw [hc.1] at hfit
                cases hfit
            have hlim : (buf.length : ℤ) < intLimit := by exact_mod_cast hn
            rw [bounded_append, bounded_readLength, bounded_lens, toInt_eq (by omega) (by omega)]
            refine ⟨hhdr, fun l hl ↦ ?_⟩
            simp only [List.mem_cons, List.not_mem_nil, or_false] at hl
            rcases hl with hl | hl
            · rw [hl]
              exact h₀
            · rw [hl]
              omega
          · exact bounded_none _

/-- A server-controlled length drives no read past the received bytes, and none is
negative, if and only if the buffer is well measured for the place it comes to. -/
theorem reads_bounded_iff (W : World) (e : Entry) {buf : Bytes} (h : buf.length < intLimit) :
    Bounded buf.length (handle W e buf) ↔ wellMeasured W e buf = true := by
  cases e with
  | login => exact handleLoginResponse_bounded_iff h
  | control decrypted => exact handleControlWork_bounded_iff h decrypted

def plenty : World := { malloc := fun _ _ ↦ true, loginOk := true, served := true }

/-- A StartWorkConn with a tail of two bytes. -/
theorem startWorkConn_bounded :
    Bounded 13 (handle plenty (.control false)
      (frameMsg MsgType.startWorkConn.code [0x7b, 0x7d] ++ [1, 2])) := by
  have hlen : (frameMsg MsgType.startWorkConn.code [0x7b, 0x7d] ++ [1, 2]).length < intLimit := by
    decide
  exact (reads_bounded_iff plenty (.control false) hlen).mpr (by decide)

/-- A LoginResp that is cut off behind its header reads the hundred bytes it
announces. -/
theorem loginResp_overread :
    ¬ Bounded 9 (handle plenty .login [0x31, 0, 0, 0, 0, 0, 0, 0, 100]) := by
  intro h
  have hread := h.1 ⟨9, 100⟩ (by decide +kernel) 0 (by decide)
  exact absurd hread.2 (by decide)

end Xfrpc.Control.Bounds
