import Xfrpc.Uthash.Refinement

namespace Xfrpc.Uthash.Runs

open Foundations.DoublyLinked Macros Buckets Expansion Refinement

section Integrity

variable {α : Type}

theorem fsckWalk_eq [DecidableEq α] {L : Links α} {b f : Option α} {l : List α} {fuel : ℕ}
    (h : L.Segment b f l none) (hfuel : l.length < fuel) (n : ℕ) :
    fsckWalk L fuel f b n = some (n + l.length) := by
  induction l generalizing b f fuel n with
  | nil =>
    obtain ⟨k, rfl⟩ : ∃ k, fuel = k + 1 := ⟨fuel - 1, by omega⟩
    have hf : f = none := h
    rw [hf]
    rfl
  | cons a l ih =>
    obtain ⟨k, rfl⟩ : ∃ k, fuel = k + 1 := ⟨fuel - 1, by omega⟩
    obtain ⟨hf, hb, hrest⟩ := h
    rw [List.length_cons] at hfuel ⊢
    rw [hf, fsckWalk, hb, if_neg (fun hne ↦ hne rfl), ih hrest (by omega) (n + 1)]
    congr 1
    omega

/-- One of `n` classes. -/
theorem sum_indicator (v n : ℕ) :
    ((List.range n).map fun i ↦ if v = i then 1 else 0).sum = if v < n then 1 else 0 := by
  induction n with
  | zero => rfl
  | succ n ih =>
    rw [List.range_succ, List.map_append, List.sum_append, ih]
    simp only [List.map_cons, List.map_nil, List.sum_cons, List.sum_nil]
    split_ifs <;> omega

/-- Items told apart by a number below `n`, counted class by class. -/
theorem sum_countP (f : α → ℕ) {n : ℕ} (l : List α) (hf : ∀ a ∈ l, f a < n) :
    ((List.range n).map fun i ↦ l.countP (f · = i)).sum = l.length := by
  induction l with
  | nil => simp
  | cons a l ih =>
    have hsplit : ∀ i, (a :: l).countP (f · = i) =
        l.countP (f · = i) + if f a = i then 1 else 0 := by
      intro i
      rw [List.countP_cons]
      simp only [decide_eq_true_eq]
    simp only [hsplit]
    rw [List.sum_map_add, ih fun x hx ↦ hf x (List.mem_cons_of_mem _ hx), sum_indicator,
      if_pos (hf a List.mem_cons_self), List.length_cons]

/-- The counts of the buckets add up to the items. -/
theorem sum_count {h : Hash α} {l : List α} (ht : TableOf h l) (hnd : l.Nodup) :
    (h.tbl.buckets.map Bucket.count).sum = l.length := by
  have hpos : 0 < h.tbl.buckets.length := by
    rw [ht.size, ht.log2]
    exact Nat.two_pow_pos _
  rw [← sum_countP (fun a ↦ h.hashv a % h.tbl.buckets.length) l fun a _ ↦ Nat.mod_lt _ hpos]
  congr 1
  apply List.ext_getElem?
  intro i
  rw [List.getElem?_map, List.getElem?_map]
  by_cases hi : i < h.tbl.buckets.length
  · obtain ⟨c, hc, hmem⟩ := ht.spread.chain (List.getElem?_eq_getElem hi)
    have hperm : c.Perm (l.filter fun a ↦ h.hashv a % h.tbl.buckets.length = i) := by
      refine (List.perm_ext_iff_of_nodup hc.list.nodup (hnd.filter _)).mpr fun a ↦ ?_
      rw [hmem, List.mem_filter, decide_eq_true_iff]
    rw [List.getElem?_eq_getElem hi, List.getElem?_range hi, Option.map_some, Option.map_some,
      hc.count, hperm.length_eq, List.countP_eq_length_filter]
  · rw [List.getElem?_eq_none (by omega), List.getElem?_eq_none (by rw [List.length_range]; omega)]
    rfl

variable {hashFcn : Bytes → ℕ} {h : Hash α} {es : Entries α}

/-- The check that `HASH_DEBUG` turns on passes. -/
theorem hashFsck_eq [DecidableEq α] (hr : Represents hashFcn h es) : hashFsck h = true := by
  unfold hashFsck
  cases hhead : h.head with
  | none => rfl
  | some first =>
    have hne : es ≠ [] := fun hnil ↦ by
      rw [hr.head_eq_none.mpr hnil] at hhead
      cases hhead
    obtain ⟨htable, -⟩ := hr.table hne
    have happ := fsckWalk_eq hr.app.segment
      (show (items es).length < h.tbl.numItems + 1 by rw [htable.items]; omega) 0
    rw [hhead, Nat.zero_add, ← htable.items] at happ
    dsimp only
    rw [Bool.and_eq_true, Bool.and_eq_true, beq_iff_eq, beq_iff_eq, List.all_eq_true]
    refine ⟨⟨fun b hb ↦ ?_, ?_⟩, happ⟩
    · obtain ⟨i, hi⟩ := List.getElem?_of_mem hb
      obtain ⟨c, hc, hmem⟩ := htable.spread.chain hi
      rw [fsckWalk_eq hc.list.segment (Nat.lt_succ_of_le (chain_length_le htable hc hmem)) 0,
        Nat.zero_add, hc.count]
      exact beq_self_eq_true _
    · rw [sum_count htable hr.app.nodup, htable.items]

end Integrity

/-- Whatever the hash function and however often the buckets have been doubled, a table run by
legal steps is an insertion-ordered list of items: its own integrity check passes, lookups are
exact, the count is right, and the application order is that of the insertions. No macro goes
out of bounds, divides by zero or runs for ever; at worst there is no memory. -/
theorem uthash_refines {α : Type} [DecidableEq α] (room : ℕ → Bool) (hashFcn : Bytes → ℕ)
    {h₀ : Hash α} (hhead : h₀.head = none) {ops : List (Op α)} (hops : LegalRun ops []) :
    (∃ h, run room hashFcn ops h₀ = .ok h ∧ hashFsck h = true ∧
      hashCnt h = (applyAll ops []).length ∧
      h.app.IsList h.head (items (applyAll ops [])) ∧
      ∀ keyptr, ∃ r, hashFind hashFcn keyptr h = .ok r ∧
        (∀ a, r = some a → (a, keyptr) ∈ applyAll ops []) ∧
        (r = none → ∀ a, (a, keyptr) ∉ applyAll ops [])) ∨
    (∃ n, room n = false) ∧ run room hashFcn ops h₀ = .error .fatal := by
  obtain ⟨h, hrun, hr⟩ | hfatal := run_spec room (represents_nil hhead) hops
  · exact .inl ⟨h, hrun, hashFsck_eq hr, hashCnt_spec hr, hr.app, hashFind_spec hr⟩
  · exact .inr hfatal

/-- A table before its first item, in memory that holds zeros. -/
def emptyTable : Hash ℕ where
  head := none
  tbl := hashMakeTable 0
  app := ⟨fun _ ↦ none, fun _ ↦ none⟩
  bkt := ⟨fun _ ↦ none, fun _ ↦ none⟩
  key _ := []
  keylen _ := 0
  hashv _ := 0

/-- Three items, the one in the middle deleted, with the default hash function. -/
def threeItems : List (Op ℕ) := [.add [1, 0, 0, 0] 10, .add [3, 0, 0, 0] 11, .add [5, 0, 0, 0] 12,
  .delete 11]

theorem uthash_refines_threeItems :
    (∃ h, run (fun _ ↦ true) hashJen threeItems emptyTable = .ok h ∧ hashFsck h = true ∧
      hashCnt h = 2 ∧ h.app.IsList h.head [10, 12] ∧
      ∀ keyptr, ∃ r, hashFind hashJen keyptr h = .ok r ∧
        (∀ a, r = some a → (a, keyptr) ∈ [(10, [1, 0, 0, 0]), (12, [5, 0, 0, 0])]) ∧
        (r = none → ∀ a, (a, keyptr) ∉ [(10, [1, 0, 0, 0]), (12, [5, 0, 0, 0])])) ∨
    (∃ n : ℕ, (fun _ ↦ true) n = false) ∧
      run (fun _ ↦ true) hashJen threeItems emptyTable = .error .fatal :=
  uthash_refines (fun _ ↦ true) hashJen rfl (by decide)

section Iteration

variable {α : Type} [DecidableEq α] {hashFcn : Bytes → ℕ}

/-- A body of `HASH_ITER` that deletes the element, or leaves the table alone, and takes down
what it has seen. -/
def visit (keep : α → Bool) (el : α) (s : Hash α × List α) : Except Stop (Hash α × List α) :=
  if keep el then .ok (s.1, s.2 ++ [el])
  else (hashDelete el s.1).map fun h ↦ (h, s.2 ++ [el])

/-- The element ahead has been read before the body runs, so that it may go. -/
theorem hashIter_spec (keep : α → Bool) {h : Hash α} {done rest : Entries α} {fuel : ℕ}
    (hr : Represents hashFcn h (done ++ rest)) (hfuel : rest.length < fuel) (seen : List α) :
    ∃ h', hashIter Prod.fst (visit keep) fuel (items rest).head? (items rest).tail.head? (h, seen) =
        .ok (h', seen ++ items rest) ∧
      Represents hashFcn h' (done ++ rest.filter fun e ↦ keep e.1) := by
  induction rest generalizing h done seen fuel with
  | nil =>
    obtain ⟨k, rfl⟩ : ∃ k, fuel = k + 1 := ⟨fuel - 1, by omega⟩
    exact ⟨h, by rw [items, List.map_nil, List.append_nil]; rfl, hr⟩
  | cons e rest ih =>
    obtain ⟨k, rfl⟩ : ∃ k, fuel = k + 1 := ⟨fuel - 1, by omega⟩
    rw [List.length_cons] at hfuel
    -- `tmp` moves on to what follows it in the table the body leaves
    have hahead : ∀ {h₁ : Hash α} {pre : Entries α}, Represents hashFcn h₁ (pre ++ rest) →
        (items rest).head?.bind h₁.app.next = (items rest).tail.head? := by
      intro h₁ pre hr₁
      cases rest with
      | nil => rfl
      | cons c l =>
        have hlist := hr₁.app
        rw [items_middle] at hlist
        exact hlist.next_eq_head
    change ∃ h', hashIter Prod.fst (visit keep) (k + 1) (some e.1) (items rest).head? (h, seen) =
      .ok (h', seen ++ e.1 :: items rest) ∧ _
    rw [hashIter, visit, List.append_cons seen e.1 (items rest)]
    by_cases hkeep : keep e.1 = true
    · rw [List.append_cons] at hr
      obtain ⟨h', hloop, hr'⟩ := ih hr (show rest.length < k by omega) (seen ++ [e.1])
      rw [← hahead hr] at hloop
      rw [if_pos hkeep, List.filter_cons, if_pos hkeep, List.append_cons done]
      exact ⟨h', hloop, hr'⟩
    · obtain ⟨h₁, hdel, hr₁⟩ := hashDelete_spec hr
      obtain ⟨h', hloop, hr'⟩ := ih hr₁ (show rest.length < k by omega) (seen ++ [e.1])
      rw [← hahead hr₁] at hloop
      rw [if_neg hkeep, hdel, List.filter_cons, if_neg hkeep]
      exact ⟨h', hloop, hr'⟩

end Iteration

/-- `HASH_ITER` around a body that may delete the element it is given, after any legal run:
each item is visited once, in the order of insertion, and the table is left with those that
were kept. With a body that keeps none, the table is freed. -/
theorem hashIter_visits {α : Type} [DecidableEq α] (room : ℕ → Bool) (hashFcn : Bytes → ℕ)
    {h₀ h : Hash α} (hhead : h₀.head = none) {ops : List (Op α)} (hops : LegalRun ops [])
    (hrun : run room hashFcn ops h₀ = .ok h) (keep : α → Bool) :
    ∃ h', hashIterAll Prod.fst (visit keep) (hashCnt h + 1) (h, []) =
        .ok (h', items (applyAll ops [])) ∧
      h'.app.IsList h'.head ((items (applyAll ops [])).filter keep) ∧ hashFsck h' = true ∧
      ∀ keyptr, ∃ r, hashFind hashFcn keyptr h' = .ok r ∧
        (∀ a, r = some a → keep a = true ∧ (a, keyptr) ∈ applyAll ops []) ∧
        (r = none → ∀ a, keep a = true → (a, keyptr) ∉ applyAll ops []) := by
  obtain ⟨h₁, hrun₁, hr⟩ | ⟨-, hfatal⟩ := run_spec room (represents_nil hhead) hops
  swap
  · rw [hrun] at hfatal
    cases hfatal
  rw [hrun] at hrun₁
  obtain rfl := Except.ok.inj hrun₁
  obtain ⟨h', hiter, hr'⟩ := @hashIter_spec α _ hashFcn keep h [] (applyAll ops []) _ hr
    (show (applyAll ops []).length < hashCnt h + 1 by rw [hashCnt_spec hr]; omega) []
  have hfilter : items ((applyAll ops []).filter fun e ↦ keep e.1) =
      (items (applyAll ops [])).filter keep := by
    rw [items, items, List.filter_map]
    rfl
  have happ := hr'.app
  rw [List.nil_append, hfilter] at happ
  refine ⟨h', ?_, happ, hashFsck_eq hr', fun keyptr ↦ ?_⟩
  · have hahead : h.head.bind h.app.next = (items (applyAll ops [])).tail.head? := by
      rw [hr.app.first_eq_head]
      have hlist := hr.app
      cases hitems : items (applyAll ops []) with
      | nil => rfl
      | cons c l =>
        rw [hitems] at hlist
        exact @Links.IsList.next_eq_head _ _ _ _ [] l hlist
    rw [hashIterAll]
    dsimp only
    rw [hahead, hr.app.first_eq_head]
    exact hiter
  · obtain ⟨r, hfind, hsome, hnone⟩ := hashFind_spec hr' keyptr
    refine ⟨r, hfind, fun a ha ↦ ?_, fun hr a hkeep ha ↦ hnone hr a ?_⟩
    · exact (List.mem_filter.mp (hsome a ha)).symm
    · exact List.mem_filter.mpr ⟨ha, hkeep⟩

theorem hashIter_visits_threeItems :
    ∃ h h', run (fun _ ↦ true) hashJen threeItems emptyTable = .ok h ∧
      hashIterAll Prod.fst (visit (· = 12)) (hashCnt h + 1) (h, []) = .ok (h', [10, 12]) ∧
      h'.app.IsList h'.head [12] ∧ hashFsck h' = true ∧
      ∀ keyptr, ∃ r, hashFind hashJen keyptr h' = .ok r ∧
        (∀ a, r = some a →
          decide (a = 12) = true ∧ (a, keyptr) ∈ [(10, [1, 0, 0, 0]), (12, [5, 0, 0, 0])]) ∧
        (r = none → ∀ a, decide (a = 12) = true →
          (a, keyptr) ∉ [(10, [1, 0, 0, 0]), (12, [5, 0, 0, 0])]) := by
  have hops : LegalRun threeItems [] := by decide
  obtain ⟨h, hrun, -⟩ | ⟨⟨n, hroom⟩, -⟩ :=
    run_spec (fun _ ↦ true) (@represents_nil _ hashJen emptyTable rfl) hops
  · obtain ⟨h', hvisit⟩ := hashIter_visits (fun _ ↦ true) hashJen rfl hops hrun (· = 12)
    exact ⟨h, h', hrun, hvisit⟩
  · cases hroom

end Xfrpc.Uthash.Runs
