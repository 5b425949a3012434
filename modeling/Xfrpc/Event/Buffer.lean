import Xfrpc.Foundations.BigEndian

namespace Xfrpc.Event.Buffer

def initCap : ℕ := 4096

/-- The bytes of an `evbuffer` and the size of the block that holds them. -/
structure Evbuffer where
  data : Bytes
  cap : ℕ
  fits : data.length ≤ cap
  deriving DecidableEq

/-- The doubling loop of `evbuffer_reserve`. -/
def doubleUntil (want : ℕ) : ℕ → ℕ → ℕ
  | 0, ncap => ncap
  | fuel + 1, ncap => if ncap < want then doubleUntil want fuel (ncap * 2) else ncap

def newCap (cap want : ℕ) : ℕ := doubleUntil want want (if cap ≠ 0 then cap else initCap)

theorem le_doubleUntil {want fuel ncap : ℕ} (hpos : 0 < ncap) (hfuel : want ≤ fuel + ncap) :
    want ≤ doubleUntil want fuel ncap := by
  induction fuel generalizing ncap with
  | zero =>
    rw [doubleUntil]
    omega
  | succ fuel ih =>
    rw [doubleUntil]
    by_cases hlt : ncap < want
    · rw [if_pos hlt]
      apply ih
      · omega
      · omega
    · rw [if_neg hlt]
      omega

theorem le_newCap (cap want : ℕ) : want ≤ newCap cap want := by
  apply le_doubleUntil
  · by_cases hc : cap = 0
    · simp [hc, initCap]
    · simp only [ne_eq, hc, not_false_eq_true, if_true]
      omega
  · omega

/-- `evbuffer_reserve` on a buffer of `len` bytes: the size of the block after it,
or none when `realloc` refuses the larger block. -/
def evbufferReserve (grants : ℕ → Bool) (len cap need : ℕ) : Option ℕ :=
  if len + need ≤ cap then some cap
  else if grants (newCap cap (len + need)) then some (newCap cap (len + need))
  else none

theorem le_of_evbufferReserve {grants : ℕ → Bool} {len cap need c : ℕ}
    (h : evbufferReserve grants len cap need = some c) : len + need ≤ c := by
  unfold evbufferReserve at h
  split_ifs at h with hle hg
  · obtain rfl := Option.some.inj h
    exact hle
  · obtain rfl := Option.some.inj h
    exact le_newCap cap (len + need)

def evbufferAdd (grants : ℕ → Bool) (buf : Evbuffer) (bs : Bytes) : Option Evbuffer :=
  match h : evbufferReserve grants buf.data.length buf.cap bs.length with
  | none => none
  | some c => some
    { data := buf.data ++ bs
      cap := c
      fits := by rw [List.length_append]; exact le_of_evbufferReserve h }

def evbufferDrain (buf : Evbuffer) (len : ℕ) : Evbuffer where
  data := buf.data.drop len
  cap := buf.cap
  fits := by
    have hfits := buf.fits
    rw [List.length_drop]
    omega

/-- What `evbuffer_remove_buffer` returns, and the two buffers after it. -/
structure Moved where
  moved : ℕ
  src : Evbuffer
  dst : Evbuffer

def evbufferRemoveBuffer (grants : ℕ → Bool) (src dst : Evbuffer) (len : ℕ) : Moved :=
  let n := min len src.data.length
  if n = 0 then ⟨0, src, dst⟩
  else
    match evbufferAdd grants dst (src.data.take n) with
    | none => ⟨0, src, dst⟩
    | some dst' => ⟨n, evbufferDrain src n, dst'⟩

theorem evbufferAdd_none {grants : ℕ → Bool} {buf : Evbuffer} {bs : Bytes}
    (h : evbufferReserve grants buf.data.length buf.cap bs.length = none) :
    evbufferAdd grants buf bs = none := by
  unfold evbufferAdd
  split
  · rfl
  · rename_i c hc
    rw [h] at hc
    cases hc

theorem evbufferAdd_some {grants : ℕ → Bool} {buf : Evbuffer} {bs : Bytes} {c : ℕ}
    (h : evbufferReserve grants buf.data.length buf.cap bs.length = some c) :
    ∃ buf', evbufferAdd grants buf bs = some buf' ∧ buf'.data = buf.data ++ bs ∧
      buf'.cap = c := by
  unfold evbufferAdd
  split
  · rename_i hn
    rw [h] at hn
    cases hn
  · rename_i c' hc
    rw [h] at hc
    obtain rfl := Option.some.inj hc
    exact ⟨_, rfl, rfl, rfl⟩

theorem evbufferRemoveBuffer_none {grants : ℕ → Bool} {src dst : Evbuffer} {len : ℕ}
    (hle : len ≤ src.data.length)
    (h : evbufferReserve grants dst.data.length dst.cap len = none) :
    evbufferRemoveBuffer grants src dst len = ⟨0, src, dst⟩ := by
  have hn : min len src.data.length = len := Nat.min_eq_left hle
  have htake : (src.data.take len).length = len := List.length_take_of_le hle
  unfold evbufferRemoveBuffer
  rw [hn]
  by_cases hz : len = 0
  · rw [if_pos hz]
  · have hadd : evbufferAdd grants dst (src.data.take len) = none :=
      evbufferAdd_none (by rw [htake]; exact h)
    rw [if_neg hz, hadd]

theorem evbufferRemoveBuffer_some {grants : ℕ → Bool} {src dst : Evbuffer} {len c : ℕ}
    (hpos : 0 < len) (hle : len ≤ src.data.length)
    (h : evbufferReserve grants dst.data.length dst.cap len = some c) :
    ∃ dst', evbufferRemoveBuffer grants src dst len = ⟨len, evbufferDrain src len, dst'⟩ ∧
      dst'.data = dst.data ++ src.data.take len := by
  have hn : min len src.data.length = len := Nat.min_eq_left hle
  have htake : (src.data.take len).length = len := List.length_take_of_le hle
  have hres : evbufferReserve grants dst.data.length dst.cap (src.data.take len).length = some c := by
    rw [htake]
    exact h
  obtain ⟨dst', hadd, hdata, -⟩ := evbufferAdd_some hres
  refine ⟨dst', ?_, hdata⟩
  unfold evbufferRemoveBuffer
  rw [hn, if_neg (by omega), hadd]

end Xfrpc.Event.Buffer
