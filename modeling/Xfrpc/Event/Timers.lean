import Xfrpc.Foundations.LinkedList
import Xfrpc.Foundations.Runs

namespace Xfrpc.Event.Timers

open Foundations.LinkedList Foundations.Runs

structure Timeval where
  sec : ℤ
  usec : ℤ
  deriving DecidableEq, Repr

def tvToUs (tv : Timeval) : ℤ := tv.sec * 1000000 + tv.usec

/-- The fields of a `struct event` besides its pointers. -/
structure Timer where
  expire : ℤ
  pending : Bool
  deriving DecidableEq, Repr

variable {Addr : Type}

/-- The list of the base with the pointers in the events, the events that are allocated,
and the clock. -/
structure EventBase (Addr : Type) where
  events : Links Addr
  timer : Addr → Option Timer
  clock : ℤ

def EventBase.Live (b : EventBase Addr) (ev : Addr) : Prop := (b.timer ev).isSome = true

def eventBaseNew (clock : ℤ) : EventBase Addr := ⟨.empty, fun _ ↦ none, clock⟩

/-- The test of the loop: pending, and the time has come. -/
def EventBase.due (b : EventBase Addr) (now : ℤ) (ev : Addr) : Bool :=
  match b.timer ev with
  | none => false
  | some t => t.pending && decide (t.expire ≤ now)

/-- The links of the list and the events agree. -/
structure Sound (b : EventBase Addr) (l : List Addr) : Prop where
  linked : b.events.WellLinked l
  live : ∀ ev ∈ l, b.Live ev
  pending : ∀ ev t, b.timer ev = some t → t.pending = true → ev ∈ l

section Due

variable {b b' : EventBase Addr} {now : ℤ} {ev a : Addr}

theorem due_iff : b.due now ev = true ↔
    ∃ t, b.timer ev = some t ∧ t.pending = true ∧ t.expire ≤ now := by
  rw [EventBase.due]
  cases b.timer ev with
  | none => exact iff_of_false Bool.false_ne_true (fun ⟨_, ht, _⟩ ↦ by cases ht)
  | some t =>
    rw [Bool.and_eq_true, decide_eq_true_iff]
    exact ⟨fun h ↦ ⟨t, rfl, h⟩, fun ⟨_, ht, h⟩ ↦ Option.some.inj ht ▸ h⟩

theorem live_of_due (h : b.due now ev = true) : b.Live ev := by
  obtain ⟨t, ht, -⟩ := due_iff.mp h
  rw [EventBase.Live, ht]
  rfl

theorem due_congr (h : b'.timer a = b.timer a) : b'.due now a = b.due now a := by
  rw [EventBase.due, h, EventBase.due]

theorem not_due_of {v : Option Timer} (h : b.timer a = v)
    (hv : ∀ t ∈ v, t.pending = true → now < t.expire) : ¬ b.due now a = true := by
  intro hdue
  obtain ⟨t, ht, hpending, hexpire⟩ := due_iff.mp hdue
  have hlt := hv t (h.symm.trans ht) hpending
  omega

theorem Sound.due_mem {l : List Addr} (h : Sound b l) (hdue : b.due now ev = true) : ev ∈ l := by
  obtain ⟨t, ht, hpending, -⟩ := due_iff.mp hdue
  exact h.pending ev t ht hpending

end Due

variable [DecidableEq Addr]

def eventNew (b : EventBase Addr) (ev : Addr) : EventBase Addr :=
  { b with
    timer := Function.update b.timer ev (some ⟨0, false⟩)
    events := b.events.clear ev }

def eventAdd (b : EventBase Addr) (ev : Addr) (tv : Timeval) : EventBase Addr :=
  { b with
    timer := Function.update b.timer ev (some ⟨b.clock + tvToUs tv, true⟩)
    events := if b.events.prevNext ev = none then b.events.pushFront ev else b.events }

/-- `ev->pending = 0`. -/
def EventBase.clearPending (b : EventBase Addr) (ev : Addr) : EventBase Addr :=
  let stopped := (b.timer ev).map fun t ↦ { t with pending := false }
  { b with timer := Function.update b.timer ev stopped }

def eventDel (b : EventBase Addr) (ev : Addr) : EventBase Addr :=
  { b.clearPending ev with events := b.events.unlink ev }

def eventFree (b : EventBase Addr) (ev : Addr) : EventBase Addr :=
  { eventDel b ev with timer := Function.update (eventDel b ev).timer ev none }

/-- What a callback can do with timers; the clock goes on meanwhile. -/
inductive Action (Addr : Type)
  | new (ev : Addr)
  | add (ev : Addr) (tv : Timeval)
  | del (ev : Addr)
  | free (ev : Addr)
  | wait (us : ℕ)
  deriving DecidableEq, Repr

def EventBase.perform (b : EventBase Addr) : Action Addr → EventBase Addr
  | .new ev => eventNew b ev
  | .add ev tv => eventAdd b ev tv
  | .del ev => eventDel b ev
  | .free ev => eventFree b ev
  | .wait us => { b with clock := b.clock + us }

/-- Memory that was freed is not used, new memory is not in use, and a delay is
positive. -/
def Action.Legal (b : EventBase Addr) : Action Addr → Prop
  | .new ev => ¬ b.Live ev
  | .add ev tv => b.Live ev ∧ 0 < tvToUs tv
  | .del ev | .free ev => b.Live ev
  | .wait _ => True

/-- The timer is armed again, deleted or freed. -/
def Action.touches (ev : Addr) : Action Addr → Prop
  | .add e _ | .del e | .free e => e = ev
  | .new _ | .wait _ => False

/-- What happens in a pass: a timer fires, or its callback does something. -/
inductive Entry (Addr : Type)
  | fire (ev : Addr)
  | act (x : Action Addr)
  deriving DecidableEq, Repr

def EventBase.apply (b : EventBase Addr) : Entry Addr → EventBase Addr
  | .fire ev => b.clearPending ev
  | .act x => b.perform x

def EventBase.replay (b : EventBase Addr) (log : List (Entry Addr)) : EventBase Addr :=
  log.foldl EventBase.apply b

def Entry.Legal (now : ℤ) (b : EventBase Addr) : Entry Addr → Prop
  | .fire ev => b.due now ev = true
  | .act x => x.Legal b

def Entry.concerns (ev : Addr) : Entry Addr → Prop
  | .fire e => e = ev
  | .act x => x.touches ev

/-- Callbacks may do anything legal, also depending on what has happened so far. -/
structure Callbacks (Addr : Type) [DecidableEq Addr] where
  act : List (Entry Addr) → EventBase Addr → Addr → List (Action Addr)
  legal : ∀ log b ev, b.Live ev → Along EventBase.perform Action.Legal b (act log b ev)

/-- The timer loop of `event_base_dispatch`; none is too little fuel. -/
def timerPass (now : ℤ) (cb : Callbacks Addr) :
    ℕ → EventBase Addr → List (Entry Addr) → Option (EventBase Addr × List (Entry Addr))
  | 0, _, _ => none
  | n + 1, b, log =>
    match b.events.scan (b.due now) n b.events.head with
    | none => none
    | some none => some (b, log)
    | some (some ev) =>
      let b₁ := b.clearPending ev
      let acts := cb.act log b₁ ev
      timerPass now cb n (acts.foldl EventBase.perform b₁) (log ++ .fire ev :: acts.map .act)

/-- The states of a base, from `event_base_new` on. -/
inductive Reachable : EventBase Addr → Prop
  | new (clock : ℤ) : Reachable (eventBaseNew clock)
  | act {b : EventBase Addr} {x : Action Addr} :
      Reachable b → x.Legal b → Reachable (b.perform x)
  | fire {b : EventBase Addr} {ev : Addr} :
      Reachable b → b.Live ev → Reachable (b.clearPending ev)

/-- What a pass at `now` that began in `b` may have done. -/
structure Exact (now : ℤ) (b : EventBase Addr) (log : List (Entry Addr)) : Prop where
  once : ∀ ev, b.due now ev = true → log.count (.fire ev) = 1 ∨
    .fire ev ∉ log ∧ ∃ x, .act x ∈ log ∧ x.touches ev
  due : ∀ pre ev post, log = pre ++ .fire ev :: post →
    b.due now ev = true ∧ (b.replay pre).due now ev = true
  untouched : ∀ pre ev post, log = pre ++ .fire ev :: post → ∀ x, .act x ∈ pre → ¬ x.touches ev

section Entries

variable {b b' : EventBase Addr} {now : ℤ} {ev a : Addr}

/-- An operation that writes one event, which is not due afterwards. -/
theorem due_update_iff {v : Option Timer} (h : b'.timer = Function.update b.timer ev v)
    (hv : ∀ t ∈ v, t.pending = true → now < t.expire) :
    b'.due now a = true ↔ b.due now a = true ∧ ev ≠ a := by
  by_cases ha : a = ev
  · obtain rfl := ha
    refine iff_of_false (not_due_of (v := v) ?_ hv) (fun hd ↦ hd.2 rfl)
    rw [h, Function.update_self]
  · have hsame : b'.timer a = b.timer a := by
      rw [h, Function.update_of_ne ha]
    rw [due_congr hsame]
    exact (and_iff_left (Ne.symm ha)).symm

theorem due_clearPending_iff :
    (b.clearPending ev).due now a = true ↔ b.due now a = true ∧ ev ≠ a := by
  refine due_update_iff rfl fun t ht hpending ↦ ?_
  obtain ⟨t', -, rfl⟩ := Option.map_eq_some_iff.mp ht
  exact absurd hpending Bool.false_ne_true

/-- Nothing that a callback does makes a timer due. -/
theorem due_perform_iff {x : Action Addr} (hx : x.Legal b) (hnow : now ≤ b.clock) :
    (b.perform x).due now a = true ↔ b.due now a = true ∧ ¬ x.touches a := by
  cases x with
  | new ev =>
    have hnew : (eventNew b ev).due now a = true ↔ b.due now a = true ∧ ev ≠ a := by
      refine due_update_iff rfl fun t ht hpending ↦ ?_
      obtain rfl := Option.some.inj ht
      exact absurd hpending Bool.false_ne_true
    have hne : b.due now a = true → ev ≠ a := fun hdue he ↦ hx (he ▸ live_of_due hdue)
    exact hnew.trans (and_congr_right fun hdue ↦ iff_of_true (hne hdue) not_false)
  | add ev tv =>
    refine due_update_iff rfl fun t ht _ ↦ ?_
    obtain rfl := Option.some.inj ht
    have hpos : 0 < tvToUs tv := hx.2
    have hexpire : now < b.clock + tvToUs tv := by omega
    exact hexpire
  | del ev => exact due_clearPending_iff
  | free ev =>
    have htimer : (eventFree b ev).timer = Function.update b.timer ev none :=
      Function.update_idem _ _ _
    exact due_update_iff htimer fun t ht ↦ absurd ht (Option.not_mem_none t)
  | wait us => exact (and_iff_left not_false).symm

theorem due_apply_iff {e : Entry Addr} (he : e.Legal now b) (hnow : now ≤ b.clock) :
    (b.apply e).due now a = true ↔ b.due now a = true ∧ ¬ e.concerns a := by
  cases e with
  | fire ev => exact due_clearPending_iff
  | act x => exact due_perform_iff he hnow

theorem clock_le_apply (e : Entry Addr) : b.clock ≤ (b.apply e).clock := by
  match e with
  | .fire ev => exact Int.le_refl _
  | .act (.new ev) => exact Int.le_refl _
  | .act (.add ev tv) => exact Int.le_refl _
  | .act (.del ev) => exact Int.le_refl _
  | .act (.free ev) => exact Int.le_refl _
  | .act (.wait us) =>
    have hclock : b.clock ≤ b.clock + us := by omega
    exact hclock

/-- The timers that are due after a part of the pass are those that were due before it
and have been left alone since. -/
theorem due_replay_iff {log : List (Entry Addr)}
    (hlog : Along EventBase.apply (Entry.Legal now) b log) (hnow : now ≤ b.clock) :
    (b.replay log).due now a = true ↔ b.due now a = true ∧ ∀ e ∈ log, ¬ e.concerns a := by
  induction log generalizing b with
  | nil => exact (and_iff_left (List.forall_mem_nil _)).symm
  | cons e log ih =>
    have hclock := clock_le_apply (b := b) e
    have hrest := ih hlog.2 (by omega)
    have hfirst := due_apply_iff (a := a) hlog.1 hnow
    rw [List.forall_mem_cons, ← and_assoc, ← hfirst]
    exact hrest

end Entries

section Invariant

variable {b : EventBase Addr} {l : List Addr} {ev : Addr}

theorem timer_clearPending (a : Addr) :
    (b.clearPending ev).timer a =
      if a = ev then (b.timer a).map (fun t ↦ { t with pending := false }) else b.timer a := by
  rw [EventBase.clearPending]
  dsimp only
  by_cases ha : a = ev
  · rw [if_pos ha, ha, Function.update_self]
  · rw [if_neg ha, Function.update_of_ne ha]

theorem live_clearPending (a : Addr) : (b.clearPending ev).Live a ↔ b.Live a := by
  rw [EventBase.Live, timer_clearPending, EventBase.Live]
  split_ifs
  · rw [Option.isSome_map]
  · exact Iff.rfl

theorem pending_clearPending {a : Addr} {t : Timer} (ht : (b.clearPending ev).timer a = some t)
    (hpending : t.pending = true) : a ≠ ev ∧ b.timer a = some t := by
  rw [timer_clearPending] at ht
  split_ifs at ht with ha
  · obtain ⟨t', -, rfl⟩ := Option.map_eq_some_iff.mp ht
    exact absurd hpending Bool.false_ne_true
  · exact ⟨ha, ht⟩

theorem Sound.clearPending (h : Sound b l) (ev : Addr) : Sound (b.clearPending ev) l where
  linked := h.linked
  live a ha := (live_clearPending a).mpr (h.live a ha)
  pending a t ht hpending := h.pending a t (pending_clearPending ht hpending).2 hpending

theorem Sound.eventNew (h : Sound b l) (hev : ¬ b.Live ev) : Sound (eventNew b ev) l := by
  have hmem : ev ∉ l := fun hm ↦ hev (h.live ev hm)
  have htimer : ∀ a, a ≠ ev → (Timers.eventNew b ev).timer a = b.timer a :=
    fun a ha ↦ Function.update_of_ne ha _ _
  refine ⟨h.linked.clear hmem, fun a ha ↦ ?_, fun a t ht hpending ↦ ?_⟩
  · have hne : a ≠ ev := fun he ↦ hmem (he ▸ ha)
    rw [EventBase.Live, htimer a hne]
    exact h.live a ha
  · by_cases ha : a = ev
    · have hself : (Timers.eventNew b ev).timer a = some ⟨0, false⟩ := by
        rw [ha]
        exact Function.update_self _ _ _
      obtain rfl := Option.some.inj (hself.symm.trans ht)
      exact absurd hpending Bool.false_ne_true
    · exact h.pending a t ((htimer a ha).symm.trans ht) hpending

theorem Sound.eventAdd (h : Sound b l) (ev : Addr) (tv : Timeval) :
    ∃ l', Sound (eventAdd b ev tv) l' := by
  have htimer : ∀ a, a ≠ ev → (Timers.eventAdd b ev tv).timer a = b.timer a :=
    fun a ha ↦ Function.update_of_ne ha _ _
  have hself : (Timers.eventAdd b ev tv).Live ev := by
    rw [EventBase.Live, Timers.eventAdd]
    dsimp only
    rw [Function.update_self]
    rfl
  have hlive : ∀ a, b.Live a → (Timers.eventAdd b ev tv).Live a := by
    intro a ha
    by_cases he : a = ev
    · rw [he]
      exact hself
    · rw [EventBase.Live, htimer a he]
      exact ha
  by_cases hprev : b.events.prevNext ev = none
  · refine ⟨ev :: l, ?_, fun a ha ↦ ?_, fun a t ht hpending ↦ ?_⟩
    · have hevents : (Timers.eventAdd b ev tv).events = b.events.pushFront ev := if_pos hprev
      rw [hevents]
      exact h.linked.pushFront hprev
    · obtain rfl | ha := List.mem_cons.mp ha
      · exact hself
      · exact hlive a (h.live a ha)
    · by_cases he : a = ev
      · rw [he]
        exact List.mem_cons_self
      · exact List.mem_cons_of_mem _ (h.pending a t ((htimer a he).symm.trans ht) hpending)
  · refine ⟨l, ?_, fun a ha ↦ hlive a (h.live a ha), fun a t ht hpending ↦ ?_⟩
    · have hevents : (Timers.eventAdd b ev tv).events = b.events := if_neg hprev
      rw [hevents]
      exact h.linked
    · by_cases he : a = ev
      · rw [he]
        exact (h.linked.linked ev).mpr hprev
      · exact h.pending a t ((htimer a he).symm.trans ht) hpending

theorem Sound.eventDel (h : Sound b l) (ev : Addr) : Sound (eventDel b ev) (l.erase ev) where
  linked := h.linked.unlink ev
  live a ha := (live_clearPending a).mpr (h.live a (List.mem_of_mem_erase ha))
  pending a t ht hpending := by
    obtain ⟨hne, ht⟩ := pending_clearPending ht hpending
    exact (List.mem_erase_of_ne hne).mpr (h.pending a t ht hpending)

theorem Sound.eventFree (h : Sound b l) (ev : Addr) : Sound (eventFree b ev) (l.erase ev) := by
  have hdel := h.eventDel ev
  have htimer : ∀ a, a ≠ ev → (Timers.eventFree b ev).timer a = (Timers.eventDel b ev).timer a :=
    fun a ha ↦ Function.update_of_ne ha _ _
  refine ⟨hdel.linked, fun a ha ↦ ?_, fun a t ht hpending ↦ ?_⟩
  · have hne : a ≠ ev := fun he ↦ h.linked.nodup.not_mem_erase (he ▸ ha)
    rw [EventBase.Live, htimer a hne]
    exact hdel.live a ha
  · by_cases ha : a = ev
    · have hnone : (Timers.eventFree b ev).timer a = none := by
        rw [ha]
        exact Function.update_self _ _ _
      rw [hnone] at ht
      cases ht
    · exact hdel.pending a t ((htimer a ha).symm.trans ht) hpending

theorem Sound.perform (h : Sound b l) {x : Action Addr} (hx : x.Legal b) :
    ∃ l', Sound (b.perform x) l' := by
  cases x with
  | new ev => exact ⟨l, h.eventNew hx⟩
  | add ev tv => exact h.eventAdd ev tv
  | del ev => exact ⟨l.erase ev, h.eventDel ev⟩
  | free ev => exact ⟨l.erase ev, h.eventFree ev⟩
  | wait us => exact ⟨l, h.linked, h.live, h.pending⟩

theorem Reachable.sound (h : Reachable b) : ∃ l, Sound b l := by
  induction h with
  | new clock =>
    exact ⟨[], .nil, List.forall_mem_nil _, fun _ _ ht _ ↦ by cases ht⟩
  | act _ hx ih =>
    obtain ⟨l, hl⟩ := ih
    exact hl.perform hx
  | @fire b ev _ _ ih =>
    obtain ⟨l, hl⟩ := ih
    exact ⟨l, hl.clearPending ev⟩

theorem Sound.replay (h : Sound b l) {now : ℤ} {log : List (Entry Addr)}
    (hlog : Along EventBase.apply (Entry.Legal now) b log) : ∃ l', Sound (b.replay log) l' := by
  have hstep : ∀ (b : EventBase Addr) (e : Entry Addr),
      (∃ l, Sound b l) → e.Legal now b → ∃ l, Sound (b.apply e) l := by
    rintro b e ⟨l, hl⟩ he
    cases e with
    | fire ev => exact ⟨l, hl.clearPending ev⟩
    | act x => exact hl.perform he
  exact (always_of_along hstep ⟨l, h⟩ hlog).last

end Invariant

section Loop

variable {now : ℤ} {cb : Callbacks Addr} {b : EventBase Addr} {l : List Addr} {ev : Addr}
  {log : List (Entry Addr)}

/-- What one round of the loop adds to the log. -/
def round (cb : Callbacks Addr) (log : List (Entry Addr)) (b : EventBase Addr) (ev : Addr) :
    List (Entry Addr) :=
  .fire ev :: (cb.act log (b.clearPending ev) ev).map .act

theorem round_legal (cb : Callbacks Addr) (log : List (Entry Addr)) (hdue : b.due now ev = true) :
    Along EventBase.apply (Entry.Legal now) b (round cb log b ev) := by
  refine ⟨hdue, (along_map Entry.act).mpr ?_⟩
  exact cb.legal log (b.clearPending ev) ev ((live_clearPending ev).mpr (live_of_due hdue))

theorem clock_le_replay (log : List (Entry Addr)) : b.clock ≤ (b.replay log).clock := by
  induction log generalizing b with
  | nil => exact Int.le_refl _
  | cons e log ih => exact Int.le_trans (clock_le_apply e) ih

theorem timerPass_fire (h : Sound b l) (hfind : l.find? (b.due now) = some ev) {n : ℕ}
    (hn : l.length < n) :
    timerPass now cb (n + 1) b log =
      timerPass now cb n (b.replay (round cb log b ev)) (log ++ round cb log b ev) := by
  have hscan : b.events.scan (b.due now) n b.events.head = some (some ev) := by
    rw [← hfind]
    exact h.linked.chain.scan (b.due now) hn
  rw [timerPass, hscan]
  dsimp only
  rw [EventBase.replay, round, List.foldl_cons, List.foldl_map]
  rfl

theorem timerPass_stop (h : Sound b l) (hfind : l.find? (b.due now) = none) {n : ℕ}
    (hn : l.length < n) : timerPass now cb (n + 1) b log = some (b, log) := by
  have hscan : b.events.scan (b.due now) n b.events.head = some none := by
    rw [← hfind]
    exact h.linked.chain.scan (b.due now) hn
  rw [timerPass, hscan]

/-- The loop comes to its end: every round takes one timer out of those that are due, of
which `cover` has all. -/
theorem timerPass_ends (cb : Callbacks Addr) (h : Sound b l) (hnow : now ≤ b.clock)
    {cover : List Addr} (hcover : ∀ a, b.due now a = true → a ∈ cover) (log : List (Entry Addr)) :
    ∃ rest N, (∀ n ≥ N, timerPass now cb n b log = some (b.replay rest, log ++ rest)) ∧
      Along EventBase.apply (Entry.Legal now) b rest ∧
      ∀ a, ¬ (b.replay rest).due now a = true := by
  induction hk : cover.length using Nat.strong_induction_on generalizing cover b l log with
  | _ k ih =>
    cases hfind : l.find? (b.due now) with
    | none =>
      refine ⟨[], l.length + 2, fun n hn ↦ ?_, trivial, fun a hdue ↦ ?_⟩
      · obtain ⟨m, rfl⟩ : ∃ m, n = m + 1 := ⟨n - 1, by omega⟩
        rw [timerPass_stop h hfind (by omega), List.append_nil]
        rfl
      · exact List.find?_eq_none.mp hfind a (h.due_mem hdue) hdue
    | some ev =>
      have hdue : b.due now ev = true := List.find?_some hfind
      have hround := round_legal cb log hdue
      obtain ⟨l', hl'⟩ := h.replay hround
      have hclock := clock_le_replay (b := b) (round cb log b ev)
      have hlt : (cover.filter (· ≠ ev)).length < k := by
        rw [← hk, List.length_filter_lt_length_iff_exists]
        exact ⟨ev, hcover ev hdue, by simp⟩
      have hcover' : ∀ a, (b.replay (round cb log b ev)).due now a = true →
          a ∈ cover.filter (· ≠ ev) := by
        intro a ha
        obtain ⟨hold, hleft⟩ := (due_replay_iff hround hnow).mp ha
        have hne : a ≠ ev := fun he ↦ hleft (.fire ev) List.mem_cons_self he.symm
        rw [List.mem_filter]
        exact ⟨hcover a hold, decide_eq_true hne⟩
      obtain ⟨rest, N, hrun, hlegal, hend⟩ :=
        ih _ hlt hl' (by omega) hcover' (log ++ round cb log b ev) rfl
      have hreplay : b.replay (round cb log b ev ++ rest) =
          (b.replay (round cb log b ev)).replay rest := List.foldl_append
      refine ⟨round cb log b ev ++ rest, l.length + N + 2, fun n hn ↦ ?_,
        along_append.mpr ⟨hround, hlegal⟩, fun a ↦ ?_⟩
      · obtain ⟨m, rfl⟩ : ∃ m, n = m + 1 := ⟨n - 1, by omega⟩
        rw [timerPass_fire h hfind (by omega), hrun m (by omega), hreplay, List.append_assoc]
      · rw [hreplay]
        exact hend a

/-- A timer that fires was due from the beginning of the pass and left alone. -/
theorem due_of_fire (hlog : Along EventBase.apply (Entry.Legal now) b log) (hnow : now ≤ b.clock)
    {pre post : List (Entry Addr)} (hsplit : log = pre ++ .fire ev :: post) :
    (b.replay pre).due now ev = true ∧ b.due now ev = true ∧ ∀ e ∈ pre, ¬ e.concerns ev := by
  rw [hsplit] at hlog
  obtain ⟨hpre, hfire, -⟩ := along_append.mp hlog
  exact ⟨hfire, (due_replay_iff hpre hnow).mp hfire⟩

theorem count_fire (hlog : Along EventBase.apply (Entry.Legal now) b log) (hnow : now ≤ b.clock)
    (hmem : Entry.fire ev ∈ log) : log.count (.fire ev) = 1 := by
  obtain ⟨pre, post, hsplit⟩ := List.append_of_mem hmem
  have hpre : Entry.fire ev ∉ pre :=
    fun hm ↦ (due_of_fire hlog hnow hsplit).2.2 _ hm rfl
  have hpost : Entry.fire ev ∉ post := by
    intro hm
    obtain ⟨pre', post', hsplit'⟩ := List.append_of_mem hm
    have hsecond : log = (pre ++ .fire ev :: pre') ++ .fire ev :: post' := by
      rw [hsplit, hsplit', List.append_assoc]
      rfl
    exact (due_of_fire hlog hnow hsecond).2.2 (.fire ev)
      (List.mem_append_right _ List.mem_cons_self) rfl
  rw [hsplit, List.count_append, List.count_cons_self, List.count_eq_zero.mpr hpre,
    List.count_eq_zero.mpr hpost]

theorem exact_of_legal (hlog : Along EventBase.apply (Entry.Legal now) b log)
    (hnow : now ≤ b.clock) (hend : ∀ a, ¬ (b.replay log).due now a = true) : Exact now b log where
  once ev hdue := by
    by_cases hmem : Entry.fire ev ∈ log
    · exact Or.inl (count_fire hlog hnow hmem)
    · refine Or.inr ⟨hmem, ?_⟩
      have hsome : ¬ ∀ e ∈ log, ¬ e.concerns ev :=
        fun hnone ↦ hend ev ((due_replay_iff hlog hnow).mpr ⟨hdue, hnone⟩)
      push Not at hsome
      obtain ⟨e, he, hconcerns⟩ := hsome
      cases e with
      | fire e =>
        obtain rfl : e = ev := hconcerns
        exact absurd he hmem
      | act x => exact ⟨x, he, hconcerns⟩
  due pre ev post hsplit :=
    have h := due_of_fire hlog hnow hsplit
    ⟨h.2.1, h.1⟩
  untouched pre ev post hsplit x hx := (due_of_fire hlog hnow hsplit).2.2 (.act x) hx

end Loop

/-- Whatever the callbacks do, the timer loop ends, and it has fired just the timers that
were due when it began and that no callback had touched before. -/
theorem timer_pass_exact (b : EventBase Addr) (hb : Reachable b) (now : ℤ) (hnow : now ≤ b.clock)
    (cb : Callbacks Addr) :
    ∃ b' log N, (∀ n ≥ N, timerPass now cb n b [] = some (b', log)) ∧ Exact now b log := by
  obtain ⟨l, hl⟩ := hb.sound
  obtain ⟨log, N, hrun, hlegal, hend⟩ := timerPass_ends cb hl hnow (fun _ ↦ hl.due_mem) []
  exact ⟨b.replay log, log, N, hrun, exact_of_legal hlegal hnow hend⟩

/-- Callbacks that take some time and arm their timer again. -/
def rearm : Callbacks ℕ where
  act _ _ ev := [.wait 3, .add ev ⟨1, 0⟩]
  legal _ _ _ hev := ⟨trivial, ⟨hev, by decide⟩, trivial⟩

def twoTimers : EventBase ℕ :=
  [.new 1, .new 2, .add 1 ⟨0, 5⟩, .add 2 ⟨0, 7⟩, .wait 10].foldl EventBase.perform (eventBaseNew 0)

theorem timer_pass_two : Reachable twoTimers ∧
    ∃ b' log N, (∀ n ≥ N, timerPass 10 rearm n twoTimers [] = some (b', log)) ∧
      Exact 10 twoTimers log := by
  have h₁ : Reachable (EventBase.perform (eventBaseNew 0) (.new 1)) :=
    .act (.new 0) Bool.false_ne_true
  have h₂ := Reachable.act (x := .new 2) h₁ Bool.false_ne_true
  have h₃ := Reachable.act (x := .add 1 ⟨0, 5⟩) h₂ ⟨rfl, by decide⟩
  have h₄ := Reachable.act (x := .add 2 ⟨0, 7⟩) h₃ ⟨rfl, by decide⟩
  have h₅ : Reachable twoTimers := .act (x := .wait 10) h₄ trivial
  exact ⟨h₅, timer_pass_exact twoTimers h₅ 10 (by decide) rearm⟩

example : (timerPass 10 rearm 6 twoTimers []).map Prod.snd =
    some [.fire 2, .act (.wait 3), .act (.add 2 ⟨1, 0⟩),
      .fire 1, .act (.wait 3), .act (.add 1 ⟨1, 0⟩)] := by decide

end Xfrpc.Event.Timers
