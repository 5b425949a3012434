import Xfrpc.Uthash.Macros

namespace Xfrpc.Uthash.Buckets

open Foundations.DoublyLinked Macros

variable {α : Type}

/-- The bucket `b` holds the items of `c`. -/
structure Holds (L : Links α) (b : Bucket α) (c : List α) : Prop where
  list : L.IsList b.hhHead c
  count : b.count = c.length

/-- The items with `P` are spread over the buckets by their hash values. -/
structure Spread (L : Links α) (hashv : α → ℕ) (bs : List (Bucket α)) (P : α → Prop) : Prop where
  size : ∃ k, bs.length = 2 ^ k
  chain : ∀ {i : ℕ} {b : Bucket α}, bs[i]? = some b →
    ∃ c, Holds L b c ∧ ∀ a, a ∈ c ↔ P a ∧ hashv a % bs.length = i

theorem hashToBkt_eq {n k : ℕ} (hn : n = 2 ^ k) (hashv : ℕ) : hashToBkt hashv n = hashv % n := by
  rw [hashToBkt, hn, Nat.and_two_pow_sub_one_eq_mod]

variable {L L' : Links α} {hashv : α → ℕ} {bs : List (Bucket α)} {P Q : α → Prop}

theorem Spread.index (h : Spread L hashv bs P) (v : ℕ) :
    ∃ b, bs[hashToBkt v bs.length]? = some b ∧ hashToBkt v bs.length = v % bs.length := by
  obtain ⟨k, hk⟩ := h.size
  have hlt : v % bs.length < bs.length := Nat.mod_lt _ (by rw [hk]; exact Nat.two_pow_pos k)
  rw [hashToBkt_eq hk]
  exact ⟨bs[v % bs.length], List.getElem?_eq_getElem hlt, rfl⟩

theorem Spread.congr (h : Spread L hashv bs P) (hPQ : ∀ a, P a ↔ Q a) : Spread L hashv bs Q := by
  refine ⟨h.size, fun hb ↦ ?_⟩
  obtain ⟨c, hc, hmem⟩ := h.chain hb
  exact ⟨c, hc, fun a ↦ by rw [hmem, hPQ]⟩

theorem Spread.hashv_congr {hashv' : α → ℕ} (h : Spread L hashv bs P)
    (hv : ∀ a, P a → hashv' a = hashv a) : Spread L hashv' bs P := by
  refine ⟨h.size, fun hb ↦ ?_⟩
  obtain ⟨c, hc, hmem⟩ := h.chain hb
  refine ⟨c, hc, fun a ↦ ?_⟩
  rw [hmem]
  exact and_congr_right fun ha ↦ by rw [hv a ha]

theorem Spread.zero {n k : ℕ} (hn : n = 2 ^ k) (L : Links α) (hashv : α → ℕ) :
    Spread L hashv (.replicate n .zero) (fun _ ↦ False) := by
  refine ⟨⟨k, by rw [List.length_replicate, hn]⟩, fun {i b} hb ↦ ⟨[], ?_, fun a ↦ by simp⟩⟩
  obtain rfl := List.eq_of_mem_replicate (List.mem_of_getElem? hb)
  exact ⟨.nil L, rfl⟩

variable [DecidableEq α]

/-- An item is put in front of the chain of its bucket. -/
theorem Spread.push (h : Spread L hashv bs P) {a : α} (ha : ¬ P a) {i : ℕ} {b : Bucket α}
    (hb : bs[i]? = some b) (hi : hashv a % bs.length = i) (mult : ℕ) :
    Spread (L.pushFront b.hhHead a) hashv (bs.set i ⟨some a, b.count + 1, mult⟩)
      (fun x ↦ x = a ∨ P x) := by
  obtain ⟨hilt, -⟩ := List.getElem?_eq_some_iff.mp hb
  obtain ⟨c, hc, hmem⟩ := h.chain hb
  have hac : a ∉ c := fun hx ↦ ha ((hmem a).mp hx).1
  refine ⟨by rw [List.length_set]; exact h.size, fun {j b'} hb' ↦ ?_⟩
  rw [List.length_set]
  by_cases hij : i = j
  · subst hij
    rw [List.getElem?_set_self hilt] at hb'
    obtain rfl := Option.some.inj hb'
    refine ⟨a :: c, ⟨hc.list.pushFront hac, ?_⟩, fun x ↦ ?_⟩
    · rw [List.length_cons, ← hc.count]
    · rw [List.mem_cons, hmem]
      constructor
      · rintro (rfl | ⟨hP, hx⟩)
        · exact ⟨.inl rfl, hi⟩
        · exact ⟨.inr hP, hx⟩
      · rintro ⟨rfl | hP, hx⟩
        · exact .inl rfl
        · exact .inr ⟨hP, hx⟩
  · rw [List.getElem?_set_ne hij] at hb'
    obtain ⟨c', hc', hmem'⟩ := h.chain hb'
    have hframe : ∀ x ∈ c', (L.pushFront b.hhHead a).prev x = L.prev x ∧
        (L.pushFront b.hhHead a).next x = L.next x := by
      intro x hx
      obtain ⟨hPx, hxj⟩ := (hmem' x).mp hx
      refine pushFront_frame (fun he ↦ ha (he ▸ hPx)) fun hf ↦ hij ?_
      exact ((hmem x).mp (hc.list.segment.first_mem hf)).2.symm.trans hxj
    refine ⟨c', ⟨hc'.list.congr (fun x hx ↦ (hframe x hx).1) fun x hx ↦ (hframe x hx).2,
      hc'.count⟩, fun x ↦ ?_⟩
    rw [hmem']
    constructor
    · rintro ⟨hP, hx⟩
      exact ⟨.inr hP, hx⟩
    · rintro ⟨rfl | hP, hx⟩
      · exact absurd (hi.symm.trans hx) hij
      · exact ⟨hP, hx⟩

/-- An item is taken out of its bucket. -/
theorem Spread.unlink (h : Spread L hashv bs P) {a : α} (ha : P a) {i : ℕ} {b : Bucket α}
    (hb : bs[i]? = some b) (hi : hashv a % bs.length = i) :
    Spread (L.unlink a) hashv
      (bs.set i ⟨if b.hhHead = some a then L.next a else b.hhHead, b.count - 1, b.expandMult⟩)
      (fun x ↦ x ≠ a ∧ P x) := by
  obtain ⟨hilt, -⟩ := List.getElem?_eq_some_iff.mp hb
  obtain ⟨c, hc, hmem⟩ := h.chain hb
  have hac : a ∈ c := (hmem a).mpr ⟨ha, hi⟩
  refine ⟨by rw [List.length_set]; exact h.size, fun {j b'} hb' ↦ ?_⟩
  rw [List.length_set]
  by_cases hij : i = j
  · subst hij
    rw [List.getElem?_set_self hilt] at hb'
    obtain rfl := Option.some.inj hb'
    obtain ⟨pre, post, rfl⟩ := List.append_of_mem hac
    refine ⟨pre ++ post, ⟨hc.list.unlink, ?_⟩, fun x ↦ ?_⟩
    · have hcount := hc.count
      rw [List.length_append, List.length_cons] at hcount
      rw [List.length_append]
      dsimp only
      omega
    · have hnd := List.nodup_middle.mp hc.list.nodup
      have hx := hmem x
      rw [List.mem_append, List.mem_cons] at hx
      rw [List.mem_append]
      constructor
      · intro hin
        have hne : x ≠ a := fun he ↦
          (List.nodup_cons.mp hnd).1 (he ▸ List.mem_append.mpr hin)
        obtain ⟨hP, hxi⟩ := hx.mp (hin.imp_right .inr)
        exact ⟨⟨hne, hP⟩, hxi⟩
      · rintro ⟨⟨hne, hP⟩, hxi⟩
        exact (hx.mpr ⟨hP, hxi⟩).imp_right fun h ↦ h.resolve_left hne
  · rw [List.getElem?_set_ne hij] at hb'
    obtain ⟨c', hc', hmem'⟩ := h.chain hb'
    have hother : ∀ x ∈ c', x ∉ c := fun x hx hxc ↦
      hij (((hmem x).mp hxc).2.symm.trans ((hmem' x).mp hx).2)
    have hframe := fun x (hx : x ∈ c') ↦ hc.list.unlink_frame hac (hother x hx)
    refine ⟨c', ⟨hc'.list.congr (fun x hx ↦ (hframe x hx).1) fun x hx ↦ (hframe x hx).2,
      hc'.count⟩, fun x ↦ ?_⟩
    rw [hmem']
    constructor
    · rintro ⟨hP, hx⟩
      exact ⟨⟨fun he ↦ hij (hi.symm.trans (he ▸ hx)), hP⟩, hx⟩
    · rintro ⟨⟨-, hP⟩, hx⟩
      exact ⟨hP, hx⟩

end Xfrpc.Uthash.Buckets
