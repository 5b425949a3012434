import Mathlib.Algebra.BigOperators.Group.List.Basic
import Xfrpc.Uthash.Expansion

namespace Xfrpc.Uthash.Refinement

open Foundations.DoublyLinked Macros Buckets Expansion

/-- What a table stands for: its items with their keys, in the order they were added. -/
abbrev Entries (α : Type) := List (α × Bytes)

def items {α : Type} (es : Entries α) : List α := es.map Prod.fst

inductive Op (α : Type)
  | add (keyptr : Bytes) (a : α)
  | delete (a : α)
  | clear
  deriving DecidableEq, Repr

section Abstract

variable {α : Type} [DecidableEq α]

def Op.apply : Op α → Entries α → Entries α
  | .add keyptr a, es => es ++ [(a, keyptr)]
  | .delete a, es => es.filter (·.1 ≠ a)
  | .clear, _ => []

/-- What the macros leave to their callers. -/
def Op.Legal : Op α → Entries α → Prop
  | .add _ a, es => a ∉ items es
  | .delete a, es => a ∈ items es
  | .clear, _ => True

instance (es : Entries α) : ∀ op : Op α, Decidable (op.Legal es)
  | .add _ a => inferInstanceAs (Decidable (a ∉ items es))
  | .delete a => inferInstanceAs (Decidable (a ∈ items es))
  | .clear => .isTrue trivial

def LegalRun : List (Op α) → Entries α → Prop
  | [], _ => True
  | op :: ops, es => op.Legal es ∧ LegalRun ops (op.apply es)

instance decidableLegalRun : ∀ (ops : List (Op α)) (es : Entries α), Decidable (LegalRun ops es)
  | [], _ => .isTrue trivial
  | op :: ops, es =>
    have := decidableLegalRun ops (op.apply es)
    inferInstanceAs (Decidable (op.Legal es ∧ LegalRun ops (op.apply es)))

def applyAll (ops : List (Op α)) (es : Entries α) : Entries α := ops.foldl (fun es op ↦ op.apply es) es

variable (room : ℕ → Bool) (hashFcn : Bytes → ℕ)

def step (op : Op α) (h : Hash α) : Except Stop (Hash α) :=
  match op with
  | .add keyptr a => hashAddKeyptr room hashFcn keyptr a h
  | .delete a => hashDelete a h
  | .clear => .ok (hashClear h)

def run : List (Op α) → Hash α → Except Stop (Hash α)
  | [], h => .ok h
  | op :: ops, h => do run ops (← step room hashFcn op h)

end Abstract

variable {α : Type} {hashFcn : Bytes → ℕ}

structure Represents (hashFcn : Bytes → ℕ) (h : Hash α) (es : Entries α) : Prop where
  app : h.app.IsList h.head (items es)
  keys : ∀ e ∈ es, h.key e.1 = e.2 ∧ h.keylen e.1 = e.2.length ∧ h.hashv e.1 = hashFcn e.2
  table : es ≠ [] → TableOf h (items es) ∧ h.tbl.tail = lastOf none (items es)

variable {h : Hash α} {es : Entries α}

theorem items_eq_nil : items es = [] ↔ es = [] := List.map_eq_nil_iff

theorem Represents.head_eq_none (hr : Represents hashFcn h es) : h.head = none ↔ es = [] := by
  constructor
  · intro hnone
    cases es with
    | nil => rfl
    | cons e es =>
      have hfirst := hr.app.segment.first
      rw [hnone] at hfirst
      cases hfirst
  · rintro rfl
    exact hr.app.segment

theorem represents_nil (hhead : h.head = none) : Represents hashFcn h [] := by
  refine ⟨?_, fun e he ↦ absurd he List.not_mem_nil, fun hne ↦ absurd rfl hne⟩
  rw [hhead]
  exact .nil h.app

variable [DecidableEq α]

omit [DecidableEq α] in
theorem items_middle (pre post : Entries α) (e : α × Bytes) :
    items (pre ++ e :: post) = items pre ++ e.1 :: items post := by
  simp only [items, List.map_append, List.map_cons]

/-- The items are told apart. -/
theorem delete_middle {pre post : Entries α} {e : α × Bytes}
    (hnd : (items (pre ++ e :: post)).Nodup) :
    (pre ++ e :: post).filter (·.1 ≠ e.1) = pre ++ post := by
  rw [items_middle] at hnd
  obtain ⟨ha, -⟩ := List.nodup_cons.mp (List.nodup_middle.mp hnd)
  have hkeep : ∀ x ∈ pre ++ post, decide (x.1 ≠ e.1) = true := by
    intro x hx
    rw [decide_eq_true_iff]
    intro he
    apply ha
    rw [← he, items, items, ← List.map_append]
    exact List.mem_map_of_mem hx
  have hself : (pre ++ post).filter (·.1 ≠ e.1) = pre ++ post := List.filter_eq_self.mpr hkeep
  rw [List.filter_append] at hself
  rw [List.filter_append, List.filter_cons_of_neg (by simp), hself]

/-- The new item goes behind the others in the application order, if the table can be had. -/
theorem appendItem_spec (room : ℕ → Bool) (hr : Represents hashFcn h es) {a : α}
    (ha : a ∉ items es) :
    (∃ h', appendItem room a h = .ok h' ∧ h'.app.IsList h'.head (items es ++ [a]) ∧
      h'.head ≠ none ∧ TableOf h' (items es) ∧ h'.tbl.tail = some a ∧ h'.key = h.key ∧
      h'.keylen = h.keylen ∧ h'.hashv = h.hashv) ∨
    (∃ n, room n = false) ∧ appendItem room a h = .error .fatal := by
  unfold appendItem
  cases hhead : h.head with
  | none =>
    dsimp only
    by_cases hroom : room hashInitialNumBuckets = false
    · rw [if_pos hroom]
      exact .inr ⟨⟨_, hroom⟩, rfl⟩
    · rw [if_neg hroom, hr.head_eq_none.mp hhead]
      refine .inl ⟨_, rfl, ⟨⟨rfl, ?_, ?_⟩, List.nodup_singleton a⟩, by simp, ?_, rfl, rfl, rfl,
        rfl⟩
      · rw [prev_setPrev, if_pos rfl]
      · change _ = none
        rw [next_setPrev, next_setNext, if_pos rfl]
      · refine ⟨(Spread.zero (k := 5) rfl _ _).congr fun x ↦ ?_, rfl, rfl, rfl⟩
        exact ⟨False.elim, List.not_mem_nil⟩
  | some first =>
    have hne : es ≠ [] := fun hnil ↦ by
      rw [hr.head_eq_none.mpr hnil] at hhead
      cases hhead
    obtain ⟨htable, htail⟩ := hr.table hne
    cases hlast : lastOf none (items es) with
    | none => exact absurd (items_eq_nil.mp (lastOf_eq_none hlast)) hne
    | some tail =>
      rw [hlast] at htail
      dsimp only
      rw [htail]
      have happ := hr.app.pushBack hlast ha
      rw [hhead] at happ
      exact .inl ⟨_, rfl, happ, Option.some_ne_none first, ⟨htable.spread, htable.size, htable.log2,
        htable.items⟩, rfl, rfl, rfl, rfl⟩

theorem hashAddToBkt_spec (room : ℕ → Bool) {l : List α} {a : α}
    (hs : Spread h.bkt h.hashv h.tbl.buckets (· ∈ l)) (hsize : h.tbl.buckets.length = h.tbl.numBuckets)
    (hlog : h.tbl.numBuckets = 2 ^ h.tbl.log2NumBuckets) (hitems : h.tbl.numItems = l.length + 1)
    (ha : a ∉ l) :
    (∃ h', hashAddToBkt room (hashToBkt (h.hashv a) h.tbl.numBuckets) a h = .ok h' ∧
      TableOf h' (l ++ [a]) ∧ SameItems h h') ∨
    (∃ n, room n = false) ∧
      hashAddToBkt room (hashToBkt (h.hashv a) h.tbl.numBuckets) a h = .error .fatal := by
  obtain ⟨b, hb, hi⟩ := hs.index (h.hashv a)
  rw [hsize] at hb hi
  have hof : TableOf (putInBkt (hashToBkt (h.hashv a) h.tbl.numBuckets) b a h) (l ++ [a]) := by
    refine ⟨(hs.push ha hb (by rw [hsize]; exact hi.symm) b.expandMult).congr fun x ↦ ?_, ?_,
      hlog, ?_⟩
    · rw [List.mem_append, List.mem_singleton, or_comm]
    · exact List.length_set.trans hsize
    · rw [List.length_append, List.length_singleton]
      exact hitems
  have hsame : SameItems h (putInBkt (hashToBkt (h.hashv a) h.tbl.numBuckets) b a h) :=
    ⟨rfl, rfl, rfl, rfl, rfl, rfl⟩
  unfold hashAddToBkt
  rw [hb]
  dsimp only
  split_ifs with hfull
  · obtain ⟨h', hexpand, hof', hsame'⟩ | ⟨hroom, hfatal⟩ := hashExpandBuckets_spec room hof
      (List.append_ne_nil_of_right_ne_nil l (List.cons_ne_nil a []))
    · exact .inl ⟨h', hexpand, hof', hsame.trans hsame'⟩
    · exact .inr ⟨hroom, hfatal⟩
  · exact .inl ⟨_, rfl, hof, hsame⟩

theorem hashAddKeyptr_spec (room : ℕ → Bool) (hr : Represents hashFcn h es) {a : α}
    (ha : a ∉ items es) (keyptr : Bytes) :
    (∃ h', hashAddKeyptr room hashFcn keyptr a h = .ok h' ∧
      Represents hashFcn h' (es ++ [(a, keyptr)])) ∨
    (∃ n, room n = false) ∧ hashAddKeyptr room hashFcn keyptr a h = .error .fatal := by
  have hother : ∀ e ∈ es, e.1 ≠ a := fun e he heq ↦ ha (heq ▸ List.mem_map_of_mem he)
  have hstart : Represents hashFcn { h with
      key := Function.update h.key a keyptr
      keylen := Function.update h.keylen a keyptr.length } es := by
    refine ⟨hr.app, fun e he ↦ ?_, fun hne ↦ ?_⟩
    · dsimp only
      rw [Function.update_of_ne (hother e he), Function.update_of_ne (hother e he)]
      exact hr.keys e he
    · obtain ⟨htable, htail⟩ := hr.table hne
      exact ⟨⟨htable.spread, htable.size, htable.log2, htable.items⟩, htail⟩
  unfold hashAddKeyptr
  obtain ⟨h₁, happend, happ, hhead, htable, htail, hkey, hkeylen, hhashv⟩ | ⟨hroom, hfatal⟩ :=
    appendItem_spec room hstart ha
  swap
  · rw [hfatal]
    exact .inr ⟨hroom, rfl⟩
  rw [happend]
  have hmem : items (es ++ [(a, keyptr)]) = items es ++ [a] := List.map_append
  have hspread : Spread h₁.bkt (Function.update h₁.hashv a (hashFcn keyptr)) h₁.tbl.buckets
      (· ∈ items es) :=
    htable.spread.hashv_congr fun x hx ↦ Function.update_of_ne (ne_of_mem_of_not_mem hx ha) _ _
  have hadd := hashAddToBkt_spec room (h := { h₁ with
    tbl := { h₁.tbl with numItems := h₁.tbl.numItems + 1 }
    hashv := Function.update h₁.hashv a (hashFcn keyptr) }) hspread htable.size htable.log2
    (by rw [htable.items]) ha
  dsimp only at hadd
  rw [Function.update_self] at hadd
  obtain ⟨h₂, hadd, hof, hsame⟩ | ⟨hroom, hfatal⟩ := hadd
  · refine .inl ⟨h₂, hadd, ?_, fun e he ↦ ?_, fun _ ↦ ?_⟩
    · rw [hmem, hsame.app, hsame.head]
      exact happ
    · rw [hsame.key, hsame.keylen, hsame.hashv]
      dsimp only
      rw [hkey, hkeylen, hhashv]
      dsimp only
      obtain he | he := List.mem_append.mp he
      · have hne := hother e he
        rw [Function.update_of_ne hne, Function.update_of_ne hne, Function.update_of_ne hne]
        exact hr.keys e he
      · obtain rfl := List.mem_singleton.mp he
        rw [Function.update_self, Function.update_self, Function.update_self]
        exact ⟨rfl, rfl, rfl⟩
    · rw [hmem, lastOf_snoc, hsame.tail]
      exact ⟨hof, htail⟩
  · exact .inr ⟨hroom, hfatal⟩

/-- An item alone is deleted with the table; the tail and the head move to a neighbour. -/
theorem hashDelete_spec {pre post : Entries α} {e : α × Bytes}
    (hr : Represents hashFcn h (pre ++ e :: post)) :
    ∃ h', hashDelete e.1 h = .ok h' ∧ Represents hashFcn h' (pre ++ post) := by
  obtain ⟨a, keyptr⟩ := e
  have happ := hr.app
  rw [items_middle] at happ
  have hne : pre ++ (a, keyptr) :: post ≠ [] :=
    List.append_ne_nil_of_right_ne_nil pre (List.cons_ne_nil _ post)
  obtain ⟨htable, htail⟩ := hr.table hne
  rw [items_middle] at htail
  obtain ⟨hprev, -, hpost⟩ := happ.neighbours
  have hmem : a ∈ items pre ++ a :: items post := List.mem_append_right _ List.mem_cons_self
  have hleft : items (pre ++ post) = items pre ++ items post := List.map_append
  unfold hashDelete
  rw [if_neg fun hnil ↦ hne (hr.head_eq_none.mp hnil)]
  by_cases halone : h.app.prev a = none ∧ h.app.next a = none
  · rw [if_pos halone]
    rw [hprev] at halone
    rw [lastOf_eq_none halone.1, hpost.eq_nil halone.2] at hleft
    rw [items_eq_nil.mp hleft]
    exact ⟨_, rfl, represents_nil rfl⟩
  rw [if_neg halone]
  have happ' := happ.unlink
  -- the head moves on when the first item goes
  have hhead : (if (h.app.prev a).isSome = true then h.head else h.app.next a) =
      if h.head = some a then h.app.next a else h.head := by
    by_cases hfirst : h.head = some a
    · rw [if_pos hfirst, (happ.prev_eq_none hmem).mpr hfirst, if_neg (by simp)]
    · rw [if_neg hfirst, if_pos]
      exact Option.isSome_iff_ne_none.mpr fun hnone ↦ hfirst ((happ.prev_eq_none hmem).mp hnone)
  have hnot : ¬ (if (h.app.prev a).isSome = true then h.head else h.app.next a) = none := by
    rw [hhead]
    intro hnone
    rw [hnone] at happ'
    obtain ⟨hpre, hpost'⟩ := List.append_eq_nil_iff.mp (happ'.segment.eq_nil rfl)
    rw [hpre] at hprev
    rw [hpost'] at hpost
    exact halone ⟨hprev, hpost⟩
  dsimp only
  rw [if_neg hnot]
  obtain ⟨b, hb, hi⟩ := htable.spread.index (h.hashv a)
  rw [htable.size] at hb hi
  rw [hashDelInBkt, hb]
  refine ⟨_, rfl, ?_, fun e he ↦ hr.keys e ?_, fun _ ↦ ⟨⟨?_, ?_, htable.log2, ?_⟩, ?_⟩⟩
  · rw [hleft]
    dsimp only
    rw [hhead]
    exact happ'
  · exact List.mem_append.mpr ((List.mem_append.mp he).imp_right (List.mem_cons_of_mem _))
  · have hnd := List.nodup_middle.mp happ.nodup
    refine (htable.spread.unlink (by rw [items_middle]; exact hmem) hb
      (by rw [htable.size]; exact hi.symm)).congr fun x ↦ ?_
    rw [items_middle, hleft]
    have hx : x = a → x ∉ items pre ++ items post := fun he ↦ he ▸ (List.nodup_cons.mp hnd).1
    rw [List.mem_append] at hx ⊢
    rw [List.mem_append, List.mem_cons]
    tauto
  · exact List.length_set.trans htable.size
  · have hitems := htable.items
    rw [items_middle, List.length_append, List.length_cons] at hitems
    rw [hleft, List.length_append]
    dsimp only
    omega
  · rw [hleft]
    dsimp only
    rw [htail, lastOf_append, lastOf_append, hprev]
    cases hrest : items post with
    | nil => exact if_pos rfl
    | cons c l =>
      have hnd := (List.nodup_append.mp happ.nodup).2.1
      rw [hrest] at hnd
      refine if_neg fun he ↦ (List.nodup_cons.mp hnd).1 ?_
      have hlast : lastOf (some c) l = some a := he
      exact lastOf_some_mem hlast

omit [DecidableEq α] in
/-- A key is found exactly where there is an item with it. -/
theorem hashFind_spec (hr : Represents hashFcn h es) (keyptr : Bytes) :
    ∃ r, hashFind hashFcn keyptr h = .ok r ∧ (∀ a, r = some a → (a, keyptr) ∈ es) ∧
      (r = none → ∀ a, (a, keyptr) ∉ es) := by
  unfold hashFind
  cases hhead : h.head with
  | none =>
    obtain rfl := hr.head_eq_none.mp hhead
    refine ⟨none, rfl, fun a ha ↦ ?_, fun _ a ↦ List.not_mem_nil⟩
    cases ha
  | some first =>
    have hne : es ≠ [] := fun hnil ↦ by
      rw [hr.head_eq_none.mpr hnil] at hhead
      cases hhead
    obtain ⟨htable, -⟩ := hr.table hne
    obtain ⟨b, hb, hi⟩ := htable.spread.index (hashFcn keyptr)
    obtain ⟨c, hc, hmem⟩ := htable.spread.chain hb
    have hscan := hc.list.segment.scan (sameKey h keyptr)
      (Nat.lt_succ_of_le (chain_length_le htable hc hmem))
    rw [htable.size] at hb
    have hsame : ∀ e ∈ es, (sameKey h keyptr e.1 = true ↔ e.2 = keyptr) := by
      intro e he
      obtain ⟨hkey, hkeylen, -⟩ := hr.keys e he
      rw [sameKey, hkey, hkeylen, Bool.and_eq_true, beq_iff_eq, beq_iff_eq]
      exact ⟨fun h ↦ h.2, fun h ↦ ⟨by rw [h], h⟩⟩
    dsimp only
    rw [hb]
    dsimp only
    rw [hscan]
    refine ⟨_, rfl, fun a ha ↦ ?_, fun hnone a ha ↦ ?_⟩
    · obtain ⟨e, he, rfl⟩ := List.mem_map.mp ((hmem a).mp (List.mem_of_find?_eq_some ha)).1
      rw [← (hsame e he).mp (List.find?_some ha)]
      exact he
    · refine List.find?_eq_none.mp hnone a ((hmem a).mpr ⟨List.mem_map_of_mem ha, ?_⟩)
        ((hsame _ ha).mpr rfl)
      rw [(hr.keys _ ha).2.2, hi]

omit [DecidableEq α] in
theorem hashCnt_spec (hr : Represents hashFcn h es) : hashCnt h = es.length := by
  unfold hashCnt
  cases hhead : h.head with
  | none =>
    rw [hr.head_eq_none.mp hhead]
    rfl
  | some first =>
    have hne : es ≠ [] := fun hnil ↦ by
      rw [hr.head_eq_none.mpr hnil] at hhead
      cases hhead
    exact (hr.table hne).1.items.trans (List.length_map _)

theorem step_spec (room : ℕ → Bool) (hr : Represents hashFcn h es) {op : Op α}
    (hop : op.Legal es) :
    (∃ h', step room hashFcn op h = .ok h' ∧ Represents hashFcn h' (op.apply es)) ∨
    (∃ n, room n = false) ∧ step room hashFcn op h = .error .fatal := by
  cases op with
  | add keyptr a => exact hashAddKeyptr_spec room hr hop keyptr
  | delete a =>
    obtain ⟨e, he, rfl⟩ := List.mem_map.mp hop
    obtain ⟨pre, post, rfl⟩ := List.append_of_mem he
    rw [Op.apply, delete_middle hr.app.nodup]
    exact .inl (hashDelete_spec hr)
  | clear => exact .inl ⟨_, rfl, represents_nil rfl⟩

theorem run_spec (room : ℕ → Bool) {ops : List (Op α)} (hr : Represents hashFcn h es)
    (hops : LegalRun ops es) :
    (∃ h', run room hashFcn ops h = .ok h' ∧ Represents hashFcn h' (applyAll ops es)) ∨
    (∃ n, room n = false) ∧ run room hashFcn ops h = .error .fatal := by
  induction ops generalizing h es with
  | nil => exact .inl ⟨h, rfl, hr⟩
  | cons op ops ih =>
    obtain ⟨hop, hrest⟩ := hops
    rw [run]
    obtain ⟨h₁, hstep, hr₁⟩ | ⟨hroom, hfatal⟩ := step_spec room hr hop
    · rw [hstep]
      exact ih hr₁ hrest
    · rw [hfatal]
      exact .inr ⟨hroom, rfl⟩

end Xfrpc.Uthash.Refinement
