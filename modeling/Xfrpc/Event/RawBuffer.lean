import Xfrpc.Event.Buffer
import Xfrpc.Foundations.Block
import Mathlib.Logic.Function.Basic

namespace Xfrpc.Event.RawBuffer

open Foundations.Block
open Buffer (initCap doubleUntil newCap le_newCap)

/-- A number as a `size_t` of 32 bits holds it. -/
def sizeT (n : ℕ) : ℕ := n % 2 ^ 32

/-- A `size_t` cast to the signed type of its width. -/
def toSigned (n : ℕ) : ℤ := Int.bmod n (2 ^ 32)

/-- `struct evbuffer` with the block behind `data`. -/
structure Raw where
  mem : Bytes
  len : ℕ
  cap : ℕ
  deriving DecidableEq

/-- What `evbuffer_new` returns. -/
def Raw.new : Raw := { mem := [], len := 0, cap := 0 }

def Raw.contents (b : Raw) : Bytes := b.mem.take b.len

/-- The answer of `realloc`, and what it leaves in the new part of a block. -/
structure Alloc where
  granted : Bool
  fill : ℕ → UInt8

/-- The loop of `evbuffer_reserve`. After 32 doublings a `size_t` is 0 and stays so:
none is the loop that does not end. -/
def doubleLoop (want : ℕ) : ℕ → ℕ → Option ℕ
  | 0, _ => none
  | fuel + 1, ncap =>
    if ncap < want then doubleLoop want fuel (sizeT (ncap * 2)) else some ncap

def growCap (b : Raw) (need : ℕ) : Option ℕ :=
  doubleLoop (sizeT (b.len + need)) 33 (if b.cap ≠ 0 then b.cap else initCap)

def Raw.regrown (b : Raw) (fill : ℕ → UInt8) (ncap : ℕ) : Raw :=
  { b with mem := realloc fill b.mem ncap, cap := ncap }

/-- `evbuffer_reserve`: whether there is room now. -/
def evbufferReserve (a : Alloc) (b : Raw) (need : ℕ) : Option (Bool × Raw) :=
  if sizeT (b.len + need) ≤ b.cap then some (true, b)
  else
    (growCap b need).map fun ncap ↦
      if a.granted then (true, b.regrown a.fill ncap) else (false, b)

/-- What a call returns, the bytes it copies to its caller, and whether `realloc` has
refused it a block. -/
structure Out where
  ret : ℤ
  bytes : Bytes
  failed : Bool
  deriving DecidableEq

def Out.code (ret : ℤ) : Out := { ret, bytes := [], failed := false }

def Out.refusal (ret : ℤ) : Out := { ret, bytes := [], failed := true }

def Raw.appended (b : Raw) (bs : Bytes) : Raw :=
  { b with mem := store b.mem b.len bs, len := sizeT (b.len + bs.length) }

def Raw.prepended (b : Raw) (bs : Bytes) : Raw :=
  { b with
    mem := store (memmove b.mem bs.length 0 b.len) 0 bs
    len := sizeT (b.len + bs.length) }

/-- `evbuffer_add`; no data are a NULL with a length above 0. -/
def evbufferAdd (a : Alloc) (b : Raw) (data : Option Bytes) : Option (Out × Raw) :=
  match data with
  | none => some (.code (-1), b)
  | some bs =>
    (evbufferReserve a b bs.length).map fun (room, b) ↦
      if room then (.code 0, b.appended bs) else (.refusal (-1), b)

/-- `evbuffer_add_buffer` on two buffers: the result, `dst` and `src`. -/
def evbufferAddBuffer (a : Alloc) (dst src : Raw) : Option (Out × Raw × Raw) :=
  if src.len = 0 then some (.code 0, dst, src)
  else
    (evbufferAdd a dst (some (src.mem.take src.len))).map fun (out, dst') ↦
      if out.ret < 0 then (out, dst', src) else (.code 0, dst', { src with len := 0 })

def evbufferPrepend (a : Alloc) (b : Raw) (data : Option Bytes) : Option (Out × Raw) :=
  match data with
  | none => some (.code (-1), b)
  | some bs =>
    if bs.length = 0 then some (.code 0, b)
    else
      (evbufferReserve a b bs.length).map fun (room, b) ↦
        if room then (.code 0, b.prepended bs) else (.refusal (-1), b)

/-- The tail of `evbuffer_remove`, `evbuffer_remove_buffer` and `evbuffer_drain`. -/
def Raw.shift (b : Raw) (len : ℕ) : Raw :=
  { b with mem := memmove b.mem 0 len (b.len - len), len := b.len - len }

def clamp (b : Raw) (len : ℕ) : ℕ := if len > b.len then b.len else len

/-- `evbuffer_remove`, to a place for the bytes or to NULL. -/
def evbufferRemove (b : Raw) (data : Bool) (len : ℕ) : Out × Raw :=
  if !data then (.code (-1), b)
  else
    let len := clamp b len
    ({ ret := toSigned len, bytes := b.mem.take len, failed := false }, b.shift len)

/-- `evbuffer_remove_buffer` on two buffers: the result, `src` and `dst`. -/
def evbufferRemoveBuffer (a : Alloc) (src dst : Raw) (len : ℕ) : Option (Out × Raw × Raw) :=
  let len := clamp src len
  if len = 0 then some (.code 0, src, dst)
  else
    (evbufferAdd a dst (some (src.mem.take len))).map fun (out, dst') ↦
      if out.ret < 0 then ({ out with ret := 0 }, src, dst') else (.code len, src.shift len, dst')

def evbufferDrain (b : Raw) (len : ℕ) : Out × Raw := (.code 0, b.shift (clamp b len))

/-- The loop of `evbuffer_search`; none when the fuel is spent. -/
def searchLoop (b : Raw) (what : Bytes) : ℕ → ℕ → Option ℤ
  | 0, _ => none
  | fuel + 1, i =>
    if sizeT (i + what.length) ≤ b.len then
      if (b.mem.drop i).take what.length = what then some (toSigned i)
      else searchLoop b what fuel (sizeT (i + 1))
    else some (-1)

/-- The `size_t` that the position of a pointer is cast to. -/
def offsetOf (start : Option ℤ) : ℕ :=
  match start with
  | some pos => (pos % 4294967296).toNat
  | none => 0

def evbufferSearch (b : Raw) (what : Option Bytes) (start : Option ℤ) : Option Out :=
  match what with
  | none => some (.code (-1))
  | some what =>
    if what.length = 0 then some (.code (-1))
    else if what.length ≤ b.len ∧ offsetOf start ≤ b.len - what.length then
      (searchLoop b what (b.len + 1) (offsetOf start)).map .code
    else some (.code (-1))

/-- The sizes a block can have: 4096 doubled at most 19 times. -/
def BlockSize (cap : ℕ) : Prop := ∃ k ≤ 19, cap = initCap * 2 ^ k

structure Raw.Good (b : Raw) : Prop where
  block : b.mem.length = b.cap
  fits : b.len ≤ b.cap
  size : b.cap = 0 ∨ BlockSize b.cap

/-- The largest total the operations are asked for. -/
def maxTotal : ℕ := 2 ^ 31

theorem Raw.new_good : Raw.new.Good := ⟨rfl, Nat.le_refl _, .inl rfl⟩

theorem sizeT_of_le {n : ℕ} (h : n ≤ maxTotal) : sizeT n = n :=
  Nat.mod_eq_of_lt (Nat.lt_of_le_of_lt h (by decide))

theorem toSigned_of_lt {n : ℕ} (h : n < 2 ^ 31) : toSigned n = n := by
  unfold toSigned
  rw [Int.bmod_def]
  omega

theorem BlockSize.le_maxTotal {cap : ℕ} (h : BlockSize cap) : cap ≤ maxTotal := by
  obtain ⟨k, hk, rfl⟩ := h
  have hpow : 2 ^ k ≤ 2 ^ 19 := Nat.pow_le_pow_right (by decide) hk
  have hinit : initCap = 4096 := rfl
  have hmax : maxTotal = 4096 * 2 ^ 19 := by decide
  rw [hinit, hmax]
  exact Nat.mul_le_mul_left 4096 hpow

/-- A block that is smaller than a total within bounds can be doubled in 32 bits. -/
theorem BlockSize.double {cap want : ℕ} (h : BlockSize cap) (hwant : want ≤ maxTotal)
    (hlt : cap < want) : sizeT (cap * 2) = cap * 2 ∧ BlockSize (cap * 2) := by
  obtain ⟨k, hk, rfl⟩ := h
  have hk' : k + 1 ≤ 19 := by
    rcases Nat.lt_or_ge k 19 with hlt' | hge
    · exact hlt'
    · obtain rfl : k = 19 := by omega
      have hfull : initCap * 2 ^ 19 = maxTotal := by decide
      omega
  have hnext : BlockSize (initCap * 2 ^ k * 2) := ⟨k + 1, hk', by rw [Nat.mul_assoc, ← Nat.pow_succ]⟩
  exact ⟨sizeT_of_le hnext.le_maxTotal, hnext⟩

theorem doubleUntil_stop {want ncap : ℕ} (h : want ≤ ncap) (fuel : ℕ) :
    doubleUntil want fuel ncap = ncap := by
  cases fuel with
  | zero => rfl
  | succ fuel => rw [doubleUntil, if_neg (Nat.not_lt.mpr h)]

/-- With `4096 * 2 ^ k` to start from, `20 - k` rounds are enough. -/
theorem doubleLoop_eq {want k : ℕ} (hk : k ≤ 19) (hwant : want ≤ maxTotal) {fuel rounds : ℕ}
    (hfuel : 20 ≤ fuel + k) (hrounds : want ≤ rounds + initCap * 2 ^ k) :
    doubleLoop want fuel (initCap * 2 ^ k) = some (doubleUntil want rounds (initCap * 2 ^ k)) ∧
      BlockSize (doubleUntil want rounds (initCap * 2 ^ k)) := by
  induction fuel generalizing k rounds with
  | zero => omega
  | succ fuel ih =>
    by_cases hlt : initCap * 2 ^ k < want
    · obtain ⟨hsize, -⟩ := BlockSize.double ⟨k, hk, rfl⟩ hwant hlt
      have hdouble : initCap * 2 ^ k * 2 = initCap * 2 ^ (k + 1) := by
        rw [Nat.mul_assoc, ← Nat.pow_succ]
      have hfull : initCap * 2 ^ 19 = maxTotal := by decide
      have hk' : k ≠ 19 := by
        rintro rfl
        omega
      obtain ⟨n, rfl⟩ : ∃ n, rounds = n + 1 := ⟨rounds - 1, by omega⟩
      rw [doubleLoop, if_pos hlt, hsize, doubleUntil, if_pos hlt, hdouble]
      have hpos : 0 < initCap * 2 ^ k := Nat.mul_pos (by decide) (Nat.two_pow_pos k)
      exact ih (by omega) (by omega) (by omega)
    · rw [doubleLoop, if_neg hlt, doubleUntil_stop (Nat.not_lt.mp hlt)]
      exact ⟨rfl, k, hk, rfl⟩

/-- The loop of `evbuffer_reserve` ends, with the size it has in unbounded numbers. -/
theorem growCap_eq {b : Raw} (hb : b.Good) {need : ℕ} (hneed : b.len + need ≤ maxTotal) :
    growCap b need = some (newCap b.cap (b.len + need)) ∧
      BlockSize (newCap b.cap (b.len + need)) := by
  rw [growCap, sizeT_of_le hneed, newCap]
  rcases hb.size with hzero | ⟨k, hk, hcap⟩
  · have hstart : (if b.cap ≠ 0 then b.cap else initCap) = initCap * 2 ^ 0 := by
      rw [if_neg (not_not.mpr hzero), Nat.pow_zero, Nat.mul_one]
    rw [hstart]
    exact doubleLoop_eq (Nat.zero_le _) hneed (by decide) (Nat.le_add_right _ _)
  · have hpos : b.cap ≠ 0 := by
      rw [hcap]
      exact Nat.ne_of_gt (Nat.mul_pos (by decide) (Nat.two_pow_pos k))
    rw [if_pos hpos, hcap]
    exact doubleLoop_eq hk hneed (by omega) (Nat.le_add_right _ _)

section Contents

variable {b : Raw}

theorem Raw.Good.contents_length (hb : b.Good) : b.contents.length = b.len := by
  have hblock := hb.block
  have hfits := hb.fits
  rw [Raw.contents, List.length_take]
  omega

theorem Raw.Good.len_le (hb : b.Good) : b.len ≤ maxTotal := by
  have hfits := hb.fits
  rcases hb.size with hzero | hsize
  · omega
  · exact Nat.le_trans hfits hsize.le_maxTotal

theorem take_clamp (b : Raw) (len : ℕ) : b.mem.take (clamp b len) = b.contents.take len := by
  unfold clamp Raw.contents
  rw [List.take_take]
  split_ifs
  · rw [Nat.min_eq_right (by omega)]
  · rw [Nat.min_eq_left (by omega)]

theorem clamp_eq (b : Raw) (len : ℕ) : clamp b len = min len b.len := by
  unfold clamp
  split_ifs <;> omega

theorem Raw.Good.shift (hb : b.Good) (len : ℕ) :
    (b.shift (clamp b len)).Good ∧ (b.shift (clamp b len)).contents = b.contents.drop len := by
  have hblock := hb.block
  have hfits := hb.fits
  have hclamp := clamp_eq b len
  have hmem : (memmove b.mem 0 (clamp b len) (b.len - clamp b len)).length = b.mem.length :=
    memmove_length (by omega)
  refine ⟨⟨hmem.trans hblock, ?_, hb.size⟩, ?_⟩
  · exact Nat.le_trans (Nat.sub_le _ _) hfits
  · have hfront := memmove_front_take
      (by omega : clamp b len + (b.len - clamp b len) ≤ b.mem.length)
    have hdrop : b.contents.drop (clamp b len) = b.contents.drop len := by
      rw [hclamp]
      rcases Nat.le_total len b.len with hle | hle
      · rw [Nat.min_eq_left hle]
      · rw [Nat.min_eq_right hle, List.drop_eq_nil_of_le (by rw [hb.contents_length]),
          List.drop_eq_nil_of_le (by rw [hb.contents_length]; exact hle)]
    rw [← hdrop]
    exact hfront.trans List.drop_take.symm

theorem evbufferReserve_spec (a : Alloc) (hb : b.Good) {need : ℕ}
    (hneed : b.len + need ≤ maxTotal) :
    (a.granted = false ∧ evbufferReserve a b need = some (false, b)) ∨
      ∃ b', evbufferReserve a b need = some (true, b') ∧ b'.Good ∧ b'.len = b.len ∧
        b'.contents = b.contents ∧ b.len + need ≤ b'.cap := by
  have hblock := hb.block
  have hfits := hb.fits
  obtain ⟨hgrow, hsize⟩ := growCap_eq hb hneed
  have hwant := le_newCap b.cap (b.len + need)
  unfold evbufferReserve
  rw [sizeT_of_le hneed]
  by_cases hroom : b.len + need ≤ b.cap
  · rw [if_pos hroom]
    exact .inr ⟨b, rfl, hb, rfl, rfl, hroom⟩
  · rw [if_neg hroom, hgrow, Option.map_some]
    cases hg : a.granted with
    | false => exact .inl ⟨rfl, rfl⟩
    | true =>
      refine .inr ⟨b.regrown a.fill (newCap b.cap (b.len + need)), rfl,
        ⟨realloc_length _ _ _, ?_, .inr hsize⟩, rfl, ?_, hwant⟩
      · exact Nat.le_trans (Nat.le_add_right _ _) hwant
      · have hin : b.len ≤ b.mem.length := by omega
        exact realloc_take a.fill hin (by omega)

theorem evbufferAdd_spec (a : Alloc) (hb : b.Good) {bs : Bytes}
    (hneed : b.len + bs.length ≤ maxTotal) :
    (a.granted = false ∧ evbufferAdd a b (some bs) = some (.refusal (-1), b)) ∨
      ∃ b', evbufferAdd a b (some bs) = some (.code 0, b') ∧ b'.Good ∧
        b'.contents = b.contents ++ bs := by
  rcases evbufferReserve_spec a hb hneed with ⟨hg, hres⟩ | ⟨b', hres, hb', hlen, hcon, hroom⟩
  · exact .inl ⟨hg, by rw [evbufferAdd, hres]; rfl⟩
  · have hblock := hb'.block
    have hnew : (b'.appended bs).len = b.len + bs.length := by
      rw [Raw.appended, hlen, sizeT_of_le hneed]
    refine .inr ⟨b'.appended bs, by rw [evbufferAdd, hres]; rfl, ⟨?_, ?_, hb'.size⟩, ?_⟩
    · exact (store_length (by omega)).trans hblock
    · rw [hnew]
      exact hroom
    · rw [Raw.contents, hnew, Raw.appended, hlen, store_take (by omega), ← hcon, Raw.contents, hlen]

theorem evbufferPrepend_spec (a : Alloc) (hb : b.Good) {bs : Bytes}
    (hneed : b.len + bs.length ≤ maxTotal) :
    (a.granted = false ∧ evbufferPrepend a b (some bs) = some (.refusal (-1), b)) ∨
      ∃ b', evbufferPrepend a b (some bs) = some (.code 0, b') ∧ b'.Good ∧
        b'.contents = bs ++ b.contents := by
  by_cases hnil : bs.length = 0
  · obtain rfl := List.length_eq_zero_iff.mp hnil
    exact .inr ⟨b, rfl, hb, rfl⟩
  · rcases evbufferReserve_spec a hb hneed with ⟨hg, hres⟩ | ⟨b', hres, hb', hlen, hcon, hroom⟩
    · exact .inl ⟨hg, by rw [evbufferPrepend, if_neg hnil, hres]; rfl⟩
    · have hblock := hb'.block
      have hmoved : (memmove b'.mem bs.length 0 b'.len).length = b'.mem.length :=
        memmove_length (by omega)
      have hnew : (b'.prepended bs).len = b.len + bs.length := by
        rw [Raw.prepended, hlen, sizeT_of_le hneed]
      refine .inr ⟨b'.prepended bs, by rw [evbufferPrepend, if_neg hnil, hres]; rfl,
        ⟨?_, ?_, hb'.size⟩, ?_⟩
      · exact (store_length (by omega)).trans (hmoved.trans hblock)
      · rw [hnew]
        exact hroom
      · rw [Raw.contents, hnew, Raw.prepended, hlen, store_memmove_take (by omega), ← hcon,
          Raw.contents, hlen]

theorem evbufferAddBuffer_spec (a : Alloc) {dst src : Raw} (hd : dst.Good) (hs : src.Good)
    (hneed : dst.len + src.len ≤ maxTotal) :
    (a.granted = false ∧ evbufferAddBuffer a dst src = some (.refusal (-1), dst, src)) ∨
      ∃ dst' src', evbufferAddBuffer a dst src = some (.code 0, dst', src') ∧ dst'.Good ∧
        src'.Good ∧ dst'.contents = dst.contents ++ src.contents ∧ src'.contents = [] := by
  by_cases hnil : src.len = 0
  · have hempty : src.contents = [] := by rw [Raw.contents, hnil, List.take_zero]
    refine .inr ⟨dst, src, by rw [evbufferAddBuffer, if_pos hnil], hd, hs, ?_, hempty⟩
    rw [hempty, List.append_nil]
  · have hlen : dst.len + src.contents.length ≤ maxTotal := by
      rw [hs.contents_length]
      exact hneed
    rw [evbufferAddBuffer, if_neg hnil]
    rcases evbufferAdd_spec a hd hlen with ⟨hg, hadd⟩ | ⟨dst', hadd, hd', hcon⟩
    · rw [Raw.contents] at hadd
      exact .inl ⟨hg, by rw [hadd]; rfl⟩
    · rw [Raw.contents] at hadd
      refine .inr ⟨dst', { src with len := 0 }, by rw [hadd]; rfl, hd', ?_, hcon, rfl⟩
      exact ⟨hs.block, Nat.zero_le _, hs.size⟩

theorem evbufferRemoveBuffer_spec (a : Alloc) {src dst : Raw} (hs : src.Good) (hd : dst.Good)
    {len : ℕ} (hneed : dst.len + min len src.len ≤ maxTotal) :
    (a.granted = false ∧ evbufferRemoveBuffer a src dst len = some (.refusal 0, src, dst)) ∨
      ∃ src' dst', evbufferRemoveBuffer a src dst len =
          some (.code (min len src.len : ℕ), src', dst') ∧ src'.Good ∧ dst'.Good ∧
        src'.contents = src.contents.drop len ∧
        dst'.contents = dst.contents ++ src.contents.take len := by
  have hclamp := clamp_eq src len
  unfold evbufferRemoveBuffer
  dsimp only
  by_cases hnil : clamp src len = 0
  · have htake : src.contents.take len = [] := by
      rw [← take_clamp, hnil, List.take_zero]
    have hdrop : src.contents.drop len = src.contents := by
      rcases Nat.min_eq_zero_iff.mp (hclamp.symm.trans hnil) with hz | hz
      · rw [hz, List.drop_zero]
      · rw [Raw.contents, hz, List.take_zero, List.drop_nil]
    refine .inr ⟨src, dst, ?_, hs, hd, hdrop.symm, ?_⟩
    · rw [if_pos hnil, ← hclamp, hnil]
      rfl
    · rw [htake, List.append_nil]
  · have htake : (src.mem.take (clamp src len)).length = min len src.len := by
      rw [take_clamp, List.length_take, hs.contents_length]
    rw [if_neg hnil]
    rcases evbufferAdd_spec a hd (by rw [htake]; exact hneed) with ⟨hg, hadd⟩ | ⟨dst', hadd, hd', hcon⟩
    · exact .inl ⟨hg, by rw [hadd]; rfl⟩
    · obtain ⟨hgood, hrest⟩ := hs.shift len
      refine .inr ⟨src.shift (clamp src len), dst', ?_, hgood, hd', hrest, ?_⟩
      · rw [hadd, ← hclamp]
        rfl
      · rw [hcon, take_clamp]

end Contents

section Abstraction

variable {b : Raw} {e : Buffer.Evbuffer}

/-- A buffer in memory and the bytes it stands for. -/
structure Represents (b : Raw) (e : Buffer.Evbuffer) : Prop where
  good : b.Good
  data : b.contents = e.data
  cap : b.cap = e.cap

theorem Represents.len (h : Represents b e) : b.len = e.data.length := by
  rw [← h.data, h.good.contents_length]

theorem evbufferReserve_abstract (a : Alloc) (h : Represents b e) {need : ℕ}
    (hneed : e.data.length + need ≤ maxTotal) :
    (evbufferReserve a b need).map (fun r ↦ if r.1 then some r.2.cap else none) =
      some (Buffer.evbufferReserve (fun _ ↦ a.granted) e.data.length e.cap need) := by
  have hlen := h.len
  rw [← hlen] at hneed ⊢
  rw [← h.cap, evbufferReserve, Buffer.evbufferReserve, sizeT_of_le hneed,
    (growCap_eq h.good hneed).1]
  by_cases hroom : b.len + need ≤ b.cap
  · rw [if_pos hroom, if_pos hroom]
    rfl
  · rw [if_neg hroom, if_neg hroom]
    cases a.granted <;> rfl

/-- The outcome of an addition is the one that the bytes and the answer of `realloc`
decide. -/
theorem evbufferAdd_abstract (a : Alloc) (h : Represents b e) {bs : Bytes}
    (hneed : e.data.length + bs.length ≤ maxTotal) :
    match Buffer.evbufferAdd (fun _ ↦ a.granted) e bs with
    | none => evbufferAdd a b (some bs) = some (.refusal (-1), b)
    | some e' => ∃ b', evbufferAdd a b (some bs) = some (.code 0, b') ∧ Represents b' e' := by
  have hres := evbufferReserve_abstract a h hneed
  have hneed' : b.len + bs.length ≤ maxTotal := h.len ▸ hneed
  rcases evbufferReserve_spec a h.good hneed' with ⟨-, hr⟩ | ⟨b', hr, -⟩
  · rw [hr] at hres
    have hnone := (Option.some.inj hres).symm
    rw [Buffer.evbufferAdd_none hnone]
    rw [evbufferAdd, hr]
    rfl
  · rw [hr] at hres
    obtain ⟨e', hadd, hdata, hcap⟩ := Buffer.evbufferAdd_some (Option.some.inj hres).symm
    rw [hadd]
    have hdone : evbufferAdd a b (some bs) = some (.code 0, b'.appended bs) := by
      rw [evbufferAdd, hr]
      rfl
    rcases evbufferAdd_spec a h.good hneed' with ⟨-, hbad⟩ | ⟨b'', hgood, hb'', hcon⟩
    · rw [hdone] at hbad
      cases hbad
    · rw [hdone] at hgood
      obtain rfl : b'.appended bs = b'' := (Prod.mk.inj (Option.some.inj hgood)).2
      exact ⟨_, hdone, hb'', by rw [hcon, hdata, h.data], hcap.symm⟩

theorem evbufferDrain_abstract (h : Represents b e) (len : ℕ) :
    Represents (evbufferDrain b len).2 (Buffer.evbufferDrain e len) := by
  obtain ⟨hgood, hrest⟩ := h.good.shift len
  exact ⟨hgood, hrest.trans (by rw [h.data]; rfl), h.cap⟩

end Abstraction

end Xfrpc.Event.RawBuffer
