import Mathlib.Data.List.Basic

namespace Xfrpc.Foundations.Block

variable {α : Type}

/-- A block after `memcpy` of `bs` to the offset `i`. -/
def store (mem : List α) (i : ℕ) (bs : List α) : List α :=
  mem.take i ++ (bs ++ mem.drop (i + bs.length))

/-- `memmove` of `n` cells within a block. -/
def memmove (mem : List α) (dst src n : ℕ) : List α := store mem dst ((mem.drop src).take n)

/-- `realloc` to `n` cells, the new ones with what `fill` says. -/
def realloc (fill : ℕ → α) (mem : List α) (n : ℕ) : List α :=
  mem.take n ++ (List.range (n - mem.length)).map fill

/-- `n` cells from the offset `i` on, if they lie in the block. -/
def load? (mem : List α) (i n : ℕ) : Option (List α) :=
  if i + n ≤ mem.length then some ((mem.drop i).take n) else none

/-- `memcpy` of `bs` to the offset `i`, if it stays in the block. -/
def store? (mem : List α) (i : ℕ) (bs : List α) : Option (List α) :=
  if i + bs.length ≤ mem.length then some (store mem i bs) else none

theorem store_length {mem bs : List α} {i : ℕ} (h : i + bs.length ≤ mem.length) :
    (store mem i bs).length = mem.length := by
  simp only [store, List.length_append, List.length_take, List.length_drop]
  omega

theorem getElem?_store {mem bs : List α} {i : ℕ} (h : i ≤ mem.length) (j : ℕ) :
    (store mem i bs)[j]? =
      if j < i then mem[j]? else if j < i + bs.length then bs[j - i]? else mem[j]? := by
  have hpre : (mem.take i).length = i := List.length_take_of_le h
  unfold store
  split_ifs with hj hbs
  · rw [List.getElem?_append_left (by omega), List.getElem?_take_of_lt hj]
  · rw [List.getElem?_append_right (by omega), hpre, List.getElem?_append_left (by omega)]
  · rw [List.getElem?_append_right (by omega), hpre, List.getElem?_append_right (by omega),
      List.getElem?_drop]
    congr 1
    omega

theorem load?_eq {mem : List α} {i n : ℕ} (h : i + n ≤ mem.length) :
    load? mem i n = some ((mem.drop i).take n) := if_pos h

theorem store?_eq {mem bs : List α} {i : ℕ} (h : i + bs.length ≤ mem.length) :
    store? mem i bs = some (store mem i bs) := if_pos h

theorem length_drop_take {mem : List α} {i n : ℕ} (h : i + n ≤ mem.length) :
    ((mem.drop i).take n).length = n := by
  rw [List.length_take, List.length_drop]
  omega

theorem getElem?_drop_take {mem : List α} {i n j : ℕ} (h : j < n) :
    ((mem.drop i).take n)[j]? = mem[i + j]? := by
  rw [List.getElem?_take_of_lt h, List.getElem?_drop]

theorem store_take {mem bs : List α} {i : ℕ} (h : i ≤ mem.length) :
    (store mem i bs).take (i + bs.length) = mem.take i ++ bs := by
  have hlen : (mem.take i ++ bs).length = i + bs.length := by
    rw [List.length_append, List.length_take_of_le h]
  rw [store, ← List.append_assoc, List.take_left' hlen]

/-- The cells behind what is stored. -/
theorem drop_store {mem bs : List α} {i k : ℕ} (h : i ≤ mem.length) (hk : i + bs.length ≤ k) :
    (store mem i bs).drop k = mem.drop k := by
  apply List.ext_getElem?
  intro j
  rw [List.getElem?_drop, List.getElem?_drop, getElem?_store h, if_neg (by omega),
    if_neg (by omega)]

/-- Replacing a cell that has been written before. -/
theorem store_take_inner {mem pre post : List α} {x y : α}
    (h : mem.take (pre.length + (post.length + 1)) = pre ++ x :: post) :
    (store mem pre.length [y]).take (pre.length + (post.length + 1)) = pre ++ y :: post := by
  have hpre : mem.take pre.length = pre := by
    have htake := congrArg (List.take pre.length) h
    rwa [List.take_take, Nat.min_eq_left (Nat.le_add_right _ _), List.take_left] at htake
  have hpost : (mem.drop (pre.length + 1)).take post.length = post := by
    have hlen : pre.length + (post.length + 1) - (pre.length + 1) = post.length := by omega
    have hcons : (pre ++ x :: post).drop (pre.length + 1) = post := by
      rw [← List.drop_drop, List.drop_left, List.drop_one, List.tail_cons]
    have hdrop := congrArg (List.drop (pre.length + 1)) h
    rwa [List.drop_take, hlen, hcons] at hdrop
  rw [store, hpre, List.take_length_add_append, List.singleton_append, List.take_succ_cons,
    List.length_singleton, hpost]

theorem memmove_length {mem : List α} {dst src n : ℕ} (hdst : dst + n ≤ mem.length) :
    (memmove mem dst src n).length = mem.length := by
  apply store_length
  rw [List.length_take, List.length_drop]
  omega

/-- Moving to the front leaves the cells moved there first. -/
theorem memmove_front_take {mem : List α} {src n : ℕ} (h : src + n ≤ mem.length) :
    (memmove mem 0 src n).take n = (mem.drop src).take n := by
  have hlen : ((mem.drop src).take n).length = n := by
    rw [List.length_take, List.length_drop]
    omega
  have ht := @store_take _ mem ((mem.drop src).take n) 0 (Nat.zero_le mem.length)
  rw [hlen, Nat.zero_add, List.take_zero, List.nil_append] at ht
  exact ht

/-- Making room at the front and filling it puts the new cells before the old ones. -/
theorem store_memmove_take {mem bs : List α} {len : ℕ} (h : len + bs.length ≤ mem.length) :
    (store (memmove mem bs.length 0 len) 0 bs).take (len + bs.length) =
      bs ++ mem.take len := by
  have hlen : (mem.take len).length = len := List.length_take_of_le (by omega)
  have hroom : (memmove mem bs.length 0 len).drop bs.length =
      mem.take len ++ mem.drop (bs.length + len) := by
    have hpre : (mem.take bs.length).length = bs.length := List.length_take_of_le (by omega)
    rw [memmove, store, List.drop_zero, hlen, List.drop_left' hpre]
  rw [store, List.take_zero, List.nil_append, Nat.zero_add, hroom, ← List.append_assoc,
    List.take_left' (by rw [List.length_append, hlen, Nat.add_comm])]

theorem realloc_length (fill : ℕ → α) (mem : List α) (n : ℕ) : (realloc fill mem n).length = n := by
  simp only [realloc, List.length_append, List.length_take, List.length_map, List.length_range]
  omega

theorem realloc_take (fill : ℕ → α) {mem : List α} {len n : ℕ} (hlen : len ≤ mem.length)
    (hn : mem.length ≤ n) : (realloc fill mem n).take len = mem.take len := by
  rw [realloc, List.take_of_length_le hn, List.take_append_of_le_length hlen]

end Xfrpc.Foundations.Block
