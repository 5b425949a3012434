import Mathlib.Data.List.Perm.Subperm
import Xfrpc.Uthash.Buckets

namespace Xfrpc.Uthash.Expansion

open Foundations.DoublyLinked Macros Buckets

variable {α : Type}

/-- The part of the table that depends on the items of `l` alone, not on their order. -/
structure TableOf (h : Hash α) (l : List α) : Prop where
  spread : Spread h.bkt h.hashv h.tbl.buckets (· ∈ l)
  size : h.tbl.buckets.length = h.tbl.numBuckets
  log2 : h.tbl.numBuckets = 2 ^ h.tbl.log2NumBuckets
  items : h.tbl.numItems = l.length

/-- Nothing but the buckets has changed. -/
structure SameItems (h h' : Hash α) : Prop where
  head : h'.head = h.head
  tail : h'.tbl.tail = h.tbl.tail
  app : h'.app = h.app
  key : h'.key = h.key
  keylen : h'.keylen = h.keylen
  hashv : h'.hashv = h.hashv

theorem SameItems.trans {h h' h'' : Hash α} (hs : SameItems h h') (hs' : SameItems h' h'') :
    SameItems h h'' :=
  ⟨hs'.head.trans hs.head, hs'.tail.trans hs.tail, hs'.app.trans hs.app, hs'.key.trans hs.key,
    hs'.keylen.trans hs.keylen, hs'.hashv.trans hs.hashv⟩

theorem chain_length_le {h : Hash α} {l c : List α} {b : Bucket α} {i : ℕ} (ht : TableOf h l)
    (hc : Holds h.bkt b c) (hmem : ∀ a, a ∈ c ↔ a ∈ l ∧ h.hashv a % h.tbl.buckets.length = i) :
    c.length ≤ h.tbl.numItems := by
  rw [ht.items]
  exact (List.Nodup.subperm hc.list.nodup fun x hx ↦ ((hmem x).mp hx).1).length_le

variable [DecidableEq α] {h : Hash α} {ideal : ℕ} (hideal : 0 < ideal)

include hideal

theorem moveItem_spec {e : Expansion α} {Done : α → Prop} {thh : α}
    (he : Spread e.bkt h.hashv e.newBuckets Done)
    (hlen : e.newBuckets.length = h.tbl.numBuckets * 2) (hthh : ¬ Done thh) :
    ∃ e', moveItem h ideal thh e = .ok e' ∧
      Spread e'.bkt h.hashv e'.newBuckets (fun x ↦ x = thh ∨ Done x) ∧
      e'.newBuckets.length = h.tbl.numBuckets * 2 ∧
      ∀ x, x ≠ thh → e'.bkt.next x = e.bkt.next x := by
  obtain ⟨b, hb, hi⟩ := he.index (h.hashv thh)
  unfold moveItem
  dsimp only
  rw [← hlen, hb]
  dsimp only
  have hpush := he.push hthh hb hi.symm
  by_cases hlong : ideal < b.count + 1
  · rw [if_pos hlong, if_neg (by omega)]
    exact ⟨_, rfl, hpush _, List.length_set, fun x hx ↦ pushFront_next hx⟩
  · rw [if_neg hlong]
    exact ⟨_, rfl, hpush _, List.length_set, fun x hx ↦ pushFront_next hx⟩

/-- A chain is taken apart from its first item on; what is left of it is still linked. -/
theorem moveChain_spec {e : Expansion α} {Done : α → Prop} {f : Option α} {c : List α} {fuel : ℕ}
    (he : Spread e.bkt h.hashv e.newBuckets Done)
    (hlen : e.newBuckets.length = h.tbl.numBuckets * 2) (hpath : e.bkt.Path f c) (hnd : c.Nodup)
    (hnew : ∀ x ∈ c, ¬ Done x) (hfuel : c.length < fuel) :
    ∃ e', moveChain h ideal fuel f e = .ok e' ∧
      Spread e'.bkt h.hashv e'.newBuckets (fun x ↦ x ∈ c ∨ Done x) ∧
      e'.newBuckets.length = h.tbl.numBuckets * 2 ∧
      ∀ x ∉ c, e'.bkt.next x = e.bkt.next x := by
  induction c generalizing e Done f fuel with
  | nil =>
    obtain ⟨n, rfl⟩ : ∃ n, fuel = n + 1 := ⟨fuel - 1, by omega⟩
    have hf : f = none := hpath
    refine ⟨e, by rw [hf]; rfl, he.congr fun a ↦ by simp, hlen, fun x _ ↦ rfl⟩
  | cons a c ih =>
    obtain ⟨n, rfl⟩ : ∃ n, fuel = n + 1 := ⟨fuel - 1, by omega⟩
    obtain ⟨hf, hrest⟩ := hpath
    obtain ⟨hac, hc⟩ := List.nodup_cons.mp hnd
    rw [List.length_cons] at hfuel
    obtain ⟨e₁, hmove, he₁, hlen₁, hnext₁⟩ :=
      moveItem_spec hideal he hlen (hnew a List.mem_cons_self)
    have hpath₁ : e₁.bkt.Path (e.bkt.next a) c :=
      hrest.congr fun x hx ↦ hnext₁ x fun he ↦ hac (he ▸ hx)
    obtain ⟨e₂, hloop, he₂, hlen₂, hnext₂⟩ := ih he₁ hlen₁ hpath₁ hc (fun x hx hdone ↦ by
      obtain rfl | hdone := hdone
      · exact hac hx
      · exact hnew x (List.mem_cons_of_mem _ hx) hdone) (show c.length < n by omega)
    refine ⟨e₂, ?_, he₂.congr fun x ↦ ?_, hlen₂, fun x hx ↦ ?_⟩
    · rw [hf, moveChain, hmove]
      exact hloop
    · rw [List.mem_cons, or_left_comm, or_assoc]
    · rw [List.mem_cons, not_or] at hx
      rw [hnext₂ x hx.2, hnext₁ x hx.1]

/-- The buckets from the one with the number `i` on. -/
theorem moveBuckets_spec {l : List α} (ht : TableOf h l) {e : Expansion α} {i : ℕ}
    {bs : List (Bucket α)} (hbs : h.tbl.buckets.drop i = bs)
    (he : Spread e.bkt h.hashv e.newBuckets
      (fun x ↦ x ∈ l ∧ h.hashv x % h.tbl.buckets.length < i))
    (hlen : e.newBuckets.length = h.tbl.numBuckets * 2)
    (hnext : ∀ x, i ≤ h.hashv x % h.tbl.buckets.length → e.bkt.next x = h.bkt.next x) :
    ∃ e', moveBuckets h ideal bs e = .ok e' ∧
      Spread e'.bkt h.hashv e'.newBuckets (· ∈ l) ∧
      e'.newBuckets.length = h.tbl.numBuckets * 2 := by
  induction bs generalizing e i with
  | nil =>
    have hi : h.tbl.buckets.length ≤ i := List.drop_eq_nil_iff.mp hbs
    refine ⟨e, rfl, he.congr fun x ↦ ?_, hlen⟩
    have hpos : 0 < h.tbl.buckets.length := by
      rw [ht.size, ht.log2]
      exact Nat.two_pow_pos _
    have hlt := Nat.mod_lt (h.hashv x) hpos
    exact ⟨fun hx ↦ hx.1, fun hx ↦ ⟨hx, by omega⟩⟩
  | cons b bs ih =>
    have hb : h.tbl.buckets[i]? = some b := by
      rw [← List.head?_drop, hbs]
      rfl
    have hrest : h.tbl.buckets.drop (i + 1) = bs := by
      rw [← List.drop_drop, hbs]
      rfl
    obtain ⟨c, hc, hmem⟩ := ht.spread.chain hb
    have hlong := chain_length_le ht hc hmem
    have hpath : e.bkt.Path b.hhHead c := hc.list.segment.path.congr fun x hx ↦
      hnext x (Nat.le_of_eq ((hmem x).mp hx).2.symm)
    obtain ⟨e₁, hmove, he₁, hlen₁, hnext₁⟩ := moveChain_spec hideal he hlen hpath hc.list.nodup
      (fun x hx hdone ↦ by
        have hxi := ((hmem x).mp hx).2
        omega) (Nat.lt_succ_of_le hlong)
    have hdone : ∀ x, x ∈ c ∨ (x ∈ l ∧ h.hashv x % h.tbl.buckets.length < i) ↔
        x ∈ l ∧ h.hashv x % h.tbl.buckets.length < i + 1 := by
      intro x
      rw [hmem, ← and_or_left, Nat.lt_succ_iff_lt_or_eq, or_comm]
    have hleft : ∀ x, i + 1 ≤ h.hashv x % h.tbl.buckets.length →
        e₁.bkt.next x = h.bkt.next x := by
      intro x hx
      have hxc : x ∉ c := fun hxc ↦ by
        have hxi := ((hmem x).mp hxc).2
        omega
      rw [hnext₁ x hxc, hnext x (by omega)]
    obtain ⟨e₂, hloop, he₂, hlen₂⟩ := ih hrest (he₁.congr hdone) hlen₁ hleft
    refine ⟨e₂, ?_, he₂, hlen₂⟩
    rw [moveBuckets, hmove]
    exact hloop

omit hideal

/-- Doubling the buckets keeps every item, and divides by no zero. -/
theorem hashExpandBuckets_spec (room : ℕ → Bool) {l : List α} (ht : TableOf h l) (hl : l ≠ []) :
    (∃ h', hashExpandBuckets room h = .ok h' ∧ TableOf h' l ∧ SameItems h h') ∨
      (∃ n, room n = false) ∧ hashExpandBuckets room h = .error .fatal := by
  unfold hashExpandBuckets
  dsimp only
  by_cases hroom : room (2 * h.tbl.numBuckets) = false
  · rw [if_pos hroom]
    exact .inr ⟨⟨_, hroom⟩, rfl⟩
  rw [if_neg hroom]
  have hdouble : h.tbl.numBuckets * 2 = 2 ^ (h.tbl.log2NumBuckets + 1) := by
    rw [ht.log2, Nat.pow_succ]
  generalize hideal : h.tbl.numItems >>> (h.tbl.log2NumBuckets + 1) +
    (if h.tbl.numItems &&& (h.tbl.numBuckets * 2 - 1) ≠ 0 then 1 else 0) = ideal
  -- the ideal length is rounded up, so that some item makes it at least one
  have hpos : 0 < ideal := by
    have hitems : 0 < h.tbl.numItems := by
      rw [ht.items]
      exact List.length_pos_iff.mpr hl
    rw [hdouble, Nat.and_two_pow_sub_one_eq_mod, Nat.shiftRight_eq_div_pow] at hideal
    have hsum := Nat.div_add_mod h.tbl.numItems (2 ^ (h.tbl.log2NumBuckets + 1))
    by_contra hnone
    obtain rfl : ideal = 0 := by omega
    obtain ⟨hdiv, hmod⟩ := Nat.add_eq_zero_iff.mp hideal
    rw [hdiv, Nat.mul_zero, Nat.zero_add] at hsum
    rw [hsum, if_pos (by omega)] at hmod
    cases hmod
  have hzero : Spread h.bkt h.hashv (.replicate (2 * h.tbl.numBuckets) .zero)
      (fun x ↦ x ∈ l ∧ h.hashv x % h.tbl.buckets.length < 0) :=
    (Spread.zero (by rw [Nat.mul_comm, hdouble]) h.bkt h.hashv).congr fun x ↦
      ⟨False.elim, fun hx ↦ absurd hx.2 (Nat.not_lt_zero _)⟩
  obtain ⟨e, hmove, he, hlen⟩ := moveBuckets_spec hpos ht
    (e := ⟨.replicate (2 * h.tbl.numBuckets) .zero, 0, h.bkt⟩) List.drop_zero hzero
    (by rw [List.length_replicate, Nat.mul_comm]) fun x _ ↦ rfl
  rw [hmove]
  exact .inl ⟨_, rfl, ⟨he, hlen, hdouble, ht.items⟩, rfl, rfl, rfl, rfl, rfl, rfl⟩

end Xfrpc.Uthash.Expansion
