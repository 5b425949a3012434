import Mathlib.Data.List.Nodup
import Mathlib.Data.Int.Notation

namespace Xfrpc.Event.Dispatch

/-- What `event_base_dispatch` reads of a `struct bufferevent`. -/
structure Bev where
  fd : ℤ
  connecting : Bool
  evRead : Bool
  evWrite : Bool
  hasOutput : Bool
  tls : Bool
  hsDone : Bool
  wantRead : Bool
  wantWrite : Bool
  pending : ℤ
  deriving DecidableEq, Repr

/-- `struct event_base`: the list of bufferevents, what the memory of each of them
holds, and whether a timer is pending. -/
structure Base where
  bevs : List ℕ
  node : ℕ → Bev
  timers : Bool
  breakFlag : Bool
  stopFlag : Bool

/-- What a callback does to the base: it frees bufferevents and puts new ones at the
head of the list, calls what changes them, and may end the loop. -/
structure Effect where
  freed : ℕ → Bool
  added : List ℕ
  node : (ℕ → Bev) → ℕ → Bev
  breaks : Bool
  stops : Bool

def Effect.apply (e : Effect) (s : Base) : Base :=
  { s with
    bevs := e.added ++ s.bevs.filter (fun q ↦ !e.freed q)
    node := e.node s.node
    breakFlag := s.breakFlag || e.breaks
    stopFlag := s.stopFlag || e.stops }

inductive Call
  | checkConnect | driveHandshake | readInput | flushOutput | checkTimeouts
  deriving DecidableEq, Repr

/-- What an iteration meets: the descriptors that `select` leaves in its sets, the flags
that another task sets meanwhile, the callbacks of the timers that are due, what each
call for a bufferevent does, and the link that is read from memory already freed. -/
structure Env where
  readable : ℤ → Bool
  writable : ℤ → Bool
  breaks : Bool
  stops : Bool
  timers : List Effect
  call : ℕ → Call → Effect
  stale : ℕ → Option ℕ

def wantsRead (n : Bev) : Bool :=
  if n.connecting then false
  else if n.tls && !n.hsDone then n.wantRead || !n.wantWrite
  else n.evRead || (n.tls && (n.wantRead || decide (0 < n.pending)))

def wantsWrite (n : Bev) : Bool :=
  if n.connecting then true
  else if n.tls && !n.hsDone then n.wantWrite || !n.wantRead
  else n.evWrite && (n.hasOutput || n.wantWrite)

/-- The descriptors that the first loop puts into a set. -/
def armed (wants : Bev → Bool) (s : Base) (fd : ℤ) : Bool :=
  s.bevs.any fun q ↦ decide (0 ≤ (s.node q).fd) && decide ((s.node q).fd = fd) && wants (s.node q)

structure FdSets where
  rfds : ℤ → Bool
  wfds : ℤ → Bool

/-- The sets after `select`, which only takes descriptors out of them, or nothing when
it fails. -/
def select (env : Env) (s : Base) : FdSets :=
  { rfds := fun fd ↦ armed wantsRead s fd && env.readable fd
    wfds := fun fd ↦ armed wantsWrite s fd && env.writable fd }

def haveFds (s : Base) : Bool :=
  s.bevs.any fun q ↦ decide (0 ≤ (s.node q).fd) && (wantsRead (s.node q) || wantsWrite (s.node q))

/-- The calls made so far, and one more. -/
def Env.make (env : Env) (q : ℕ) (c : Call) (r : List Call × Base) : List Call × Base :=
  (r.1 ++ [c], (env.call q c).apply r.2)

/-- A turn with a handshake in flight; `bev_ssl_apply_backlog` is the read when bytes
are pending. -/
def handshakeTurn (env : Env) (q : ℕ) (s : Base) : List Call × Base :=
  let r := env.make q .driveHandshake ([], s)
  if q ∉ r.2.bevs then r
  else if !(r.2.node q).hsDone then env.make q .checkTimeouts r
  else
    let r := env.make q .flushOutput r
    if q ∉ r.2.bevs then r
    else
      let r := if 0 < (r.2.node q).pending then env.make q .readInput r else r
      if q ∉ r.2.bevs then r else env.make q .checkTimeouts r

def connectedTurn (env : Env) (sets : FdSets) (q : ℕ) (s : Base) : List Call × Base :=
  let r :=
    if !(s.node q).connecting && sets.rfds (s.node q).fd then env.make q .readInput ([], s)
    else ([], s)
  if q ∉ r.2.bevs then r
  else
    let r :=
      if !(r.2.node q).connecting && sets.wfds (r.2.node q).fd then env.make q .flushOutput r
      else r
    if q ∉ r.2.bevs then r else env.make q .checkTimeouts r

/-- The body of the second loop for one bufferevent. -/
def turn (env : Env) (sets : FdSets) (q : ℕ) (s : Base) : List Call × Base :=
  let n := s.node q
  if n.fd < 0 ∨ q ∉ s.bevs then ([], s)
  else if n.connecting && sets.wfds n.fd then env.make q .checkConnect ([], s)
  else if !n.connecting && n.tls && !n.hsDone then handshakeTurn env q s
  else connectedTurn env sets q s

/-- `bev->next`, read before the turn. -/
def nextOf (env : Env) (s : Base) (q : ℕ) : Option ℕ :=
  if q ∈ s.bevs then (s.bevs.dropWhile (· ≠ q)).tail.head? else env.stale q

/-- The bufferevents the second loop comes to, each with the base it finds. -/
def visits (env : Env) (sets : FdSets) : ℕ → Option ℕ → Base → List (ℕ × Base)
  | 0, _, _ => []
  | _ + 1, none, _ => []
  | fuel + 1, some q, s =>
    (q, s) :: visits env sets fuel (nextOf env s q) (turn env sets q s).2

def stopped (s : Base) : Bool := s.breakFlag || s.stopFlag

/-- One iteration of `event_base_dispatch` up to the second loop: the base it starts
with, unless the function returns before. -/
def upToBevs (env : Env) (s : Base) : Option Base :=
  if stopped s then none
  else if !haveFds s && !s.timers then none
  else
    let s := { s with breakFlag := s.breakFlag || env.breaks, stopFlag := s.stopFlag || env.stops }
    if stopped s then none
    else
      let s := env.timers.foldl (fun s e ↦ e.apply s) s
      if stopped s then none else some s

def turns (env : Env) (fuel : ℕ) (s : Base) : List (ℕ × Base) :=
  match upToBevs env s with
  | none => []
  | some s' => visits env (select env s) fuel s'.bevs.head? s'

/-- The iteration calls `bev_read_input` for a bufferevent. -/
def ReadCalled (env : Env) (s : Base) (p : ℕ) : Prop :=
  ∃ fuel t, (p, t) ∈ turns env fuel s ∧ .readInput ∈ (turn env (select env s) p t).1

/-- A bufferevent that is connected over TLS, reads, and has bytes in its transport, at
the start of an iteration. -/
structure Waiting (s : Base) (p : ℕ) : Prop where
  running : stopped s = false
  linked : p ∈ s.bevs
  fd : 0 ≤ (s.node p).fd
  connected : (s.node p).connecting = false
  tls : (s.node p).tls = true
  hsDone : (s.node p).hsDone = true
  evRead : (s.node p).evRead = true
  pending : 0 < (s.node p).pending

/-- Two states of one connection, with the same descriptor. -/
structure SameConnection (n n' : Bev) : Prop where
  fd : n'.fd = n.fd
  connecting : n'.connecting = n.connecting
  tls : n'.tls = n.tls
  hsDone : n'.hsDone = n.hsDone

/-- Unless it frees the bufferevent, the callback leaves its connection alone. -/
def Effect.Keeps (e : Effect) (p : ℕ) : Prop :=
  p ∉ e.added ∧ (e.freed p = false → ∀ node, SameConnection (node p) (e.node node p))

structure Env.Keeps (env : Env) (p : ℕ) : Prop where
  timers : ∀ e ∈ env.timers, e.Keeps p
  call : ∀ q c, (env.call q c).Keeps p

/-- The second loop comes to a bufferevent that is still linked. -/
def TurnComes (env : Env) (s : Base) (p : ℕ) : Prop :=
  ∃ fuel t, (p, t) ∈ turns env fuel s ∧ p ∈ t.bevs

section Turn

variable {env : Env} {sets : FdSets} {Inv : Base → Prop}

/-- What every call for a bufferevent keeps, its turn keeps. -/
theorem turn_preserves {q : ℕ} (hI : ∀ c t, Inv t → Inv ((env.call q c).apply t)) {s : Base}
    (hs : Inv s) : Inv (turn env sets q s).2 := by
  have hmake : ∀ (c : Call) {r : List Call × Base}, Inv r.2 → Inv (env.make q c r).2 :=
    fun c _ hr ↦ hI c _ hr
  have hite : ∀ {P : Prop} [Decidable P] {r r' : List Call × Base},
      Inv r.2 → Inv r'.2 → Inv (if P then r else r').2 := by
    intro P _ r r' hr hr'
    split_ifs
    · exact hr
    · exact hr'
  have hstart : Inv (([], s) : List Call × Base).2 := hs
  have hhandshake : Inv (handshakeTurn env q s).2 := by
    have hdriven := hmake .driveHandshake hstart
    have hflushed := hmake .flushOutput hdriven
    have hread := fun (P : Prop) [Decidable P] ↦
      hite (P := P) (hmake .readInput hflushed) hflushed
    exact hite hdriven (hite (hmake .checkTimeouts hdriven) (hite hflushed
      (hite (hread _) (hmake .checkTimeouts (hread _)))))
  have hconnected : Inv (connectedTurn env sets q s).2 := by
    have hread := fun (P : Prop) [Decidable P] ↦ hite (P := P) (hmake .readInput hstart) hstart
    have hflushed := fun (P P' : Prop) [Decidable P] [Decidable P'] ↦
      hite (P := P) (hmake .flushOutput (hread P')) (hread P')
    exact hite (hread _) (hite (hflushed _ _) (hmake .checkTimeouts (hflushed _ _)))
  exact hite hstart (hite (hmake .checkConnect hstart) (hite hhandshake hconnected))

theorem visits_preserve (hI : ∀ q c t, Inv t → Inv ((env.call q c).apply t)) {fuel : ℕ}
    {cur : Option ℕ} {s : Base} (hs : Inv s) : ∀ v ∈ visits env sets fuel cur s, Inv v.2 := by
  induction fuel generalizing cur s with
  | zero => exact List.forall_mem_nil _
  | succ fuel ih =>
    cases cur with
    | none => exact List.forall_mem_nil _
    | some q => exact List.forall_mem_cons.mpr ⟨hs, ih (turn_preserves (hI q) hs)⟩

end Turn

section Kept

variable {env : Env} {s : Base} {p : ℕ}

/-- While a bufferevent is linked, its connection is the one of the start. -/
def Kept (s : Base) (p : ℕ) (t : Base) : Prop :=
  p ∈ t.bevs → SameConnection (s.node p) (t.node p)

theorem Kept.apply {t : Base} (h : Kept s p t) {e : Effect} (he : e.Keeps p) :
    Kept s p (e.apply t) := by
  intro hp
  obtain ⟨hnew, hsame⟩ := he
  obtain ⟨hlinked, hfree⟩ := List.mem_filter.mp ((List.mem_append.mp hp).resolve_left hnew)
  have hnode := hsame (by simpa using hfree) t.node
  have hbefore := h hlinked
  exact ⟨hnode.fd.trans hbefore.fd, hnode.connecting.trans hbefore.connecting,
    hnode.tls.trans hbefore.tls, hnode.hsDone.trans hbefore.hsDone⟩

theorem Kept.foldl {es : List Effect} (hes : ∀ e ∈ es, e.Keeps p) {t : Base} (h : Kept s p t) :
    Kept s p (es.foldl (fun t e ↦ e.apply t) t) := by
  induction es generalizing t with
  | nil => exact h
  | cons e es ih =>
    obtain ⟨he, hrest⟩ := List.forall_mem_cons.mp hes
    exact ih hrest (h.apply he)

theorem turns_kept (hkeep : env.Keeps p) {fuel : ℕ} {v : ℕ × Base} (hv : v ∈ turns env fuel s) :
    Kept s p v.2 := by
  unfold turns at hv
  cases hup : upToBevs env s with
  | none =>
    rw [hup] at hv
    cases hv
  | some s' =>
    rw [hup] at hv
    have hstart : Kept s p s' := by
      unfold upToBevs at hup
      dsimp only at hup
      split_ifs at hup
      rw [← Option.some.inj hup]
      exact Kept.foldl hkeep.timers (fun _ ↦ ⟨rfl, rfl, rfl, rfl⟩)
    exact visits_preserve (fun q c _ ht ↦ ht.apply (hkeep.call q c)) hstart v hv

/-- The turn of a connected bufferevent reads exactly when the read set has its
descriptor. -/
theorem readInput_mem_turn_iff {sets : FdSets} {t : Base} (hlinked : p ∈ t.bevs)
    (hfd : 0 ≤ (t.node p).fd) (hconn : (t.node p).connecting = false)
    (hdone : (t.node p).hsDone = true) :
    .readInput ∈ (turn env sets p t).1 ↔ sets.rfds (t.node p).fd = true := by
  have hturn : turn env sets p t = connectedTurn env sets p t := by
    unfold turn
    dsimp only
    rw [if_neg (not_or.mpr ⟨Int.not_lt.mpr hfd, not_not.mpr hlinked⟩), if_neg (by simp [hconn]),
      if_neg (by simp [hdone])]
  rw [hturn, connectedTurn, hconn]
  cases hset : sets.rfds (t.node p).fd with
  | true =>
    refine iff_of_true ?_ rfl
    simp only [Bool.not_false, Bool.and_self, if_true]
    split_ifs <;> simp [Env.make]
  | false =>
    refine iff_of_false ?_ Bool.false_ne_true
    simp only [Bool.not_false, Bool.and_false, Bool.false_eq_true, if_false]
    split_ifs <;> simp [Env.make]

theorem Waiting.wantsRead (hw : Waiting s p) : wantsRead (s.node p) = true := by
  simp [Dispatch.wantsRead, hw.connected, hw.hsDone, hw.evRead]

theorem Waiting.armed (hw : Waiting s p) : armed Dispatch.wantsRead s (s.node p).fd = true := by
  refine List.any_eq_true.mpr ⟨p, hw.linked, ?_⟩
  simp [hw.fd, hw.wantsRead]

theorem readCalled_iff (hw : Waiting s p) (hkeep : env.Keeps p) :
    ReadCalled env s p ↔ env.readable (s.node p).fd = true ∧ TurnComes env s p := by
  have hset : (select env s).rfds (s.node p).fd = env.readable (s.node p).fd := by
    dsimp only [select]
    rw [hw.armed, Bool.true_and]
  have hreads : ∀ {fuel : ℕ} {t : Base}, (p, t) ∈ turns env fuel s → p ∈ t.bevs →
      (.readInput ∈ (turn env (select env s) p t).1 ↔ env.readable (s.node p).fd = true) := by
    intro fuel t ht hlinked
    have hsame := turns_kept hkeep ht hlinked
    rw [readInput_mem_turn_iff hlinked (by rw [hsame.fd]; exact hw.fd)
      (by rw [hsame.connecting]; exact hw.connected) (by rw [hsame.hsDone]; exact hw.hsDone),
      hsame.fd, hset]
  constructor
  · rintro ⟨fuel, t, ht, hread⟩
    have hlinked : p ∈ t.bevs := by
      by_contra hgone
      rw [turn, if_pos (.inr hgone)] at hread
      cases hread
    exact ⟨(hreads ht hlinked).mp hread, fuel, t, ht, hlinked⟩
  · rintro ⟨hready, fuel, t, ht, hlinked⟩
    exact ⟨fuel, t, ht, (hreads ht hlinked).mpr hready⟩

end Kept

/-- Nothing ends the iteration before the second loop, and the callbacks do not come in
the way of a bufferevent: those of the timers do not free it, and those of the calls free
none but their own. -/
structure Env.Undisturbed (env : Env) (p : ℕ) : Prop where
  breaks : env.breaks = false
  stops : env.stops = false
  timers : ∀ e ∈ env.timers, e.breaks = false ∧ e.stops = false ∧ e.added = [] ∧ e.freed p = false
  calls : ∀ q c, (env.call q c).added = [] ∧ ∀ x, x ≠ q → (env.call q c).freed x = false

section Reach

variable {env : Env} {s : Base} {p : ℕ}

theorem foldl_undisturbed {es : List Effect}
    (hes : ∀ e ∈ es, e.breaks = false ∧ e.stops = false ∧ e.added = [] ∧ e.freed p = false)
    {t : Base} (hrun : stopped t = false) (hp : p ∈ t.bevs) (hnd : t.bevs.Nodup) :
    let t' := es.foldl (fun t e ↦ e.apply t) t
    stopped t' = false ∧ p ∈ t'.bevs ∧ t'.bevs.Nodup := by
  induction es generalizing t with
  | nil => exact ⟨hrun, hp, hnd⟩
  | cons e es ih =>
    obtain ⟨⟨hbreak, hstop, hadd, hfree⟩, hrest⟩ := List.forall_mem_cons.mp hes
    have hbevs : (e.apply t).bevs = t.bevs.filter (fun q ↦ !e.freed q) := by
      rw [Effect.apply, hadd, List.nil_append]
    have hrun' : stopped (e.apply t) = false := by
      unfold stopped at hrun ⊢
      rw [Effect.apply, hbreak, hstop, Bool.or_false, Bool.or_false]
      exact hrun
    apply ih hrest hrun'
    · rw [hbevs]
      exact List.mem_filter.mpr ⟨hp, by simp [hfree]⟩
    · rw [hbevs]
      exact hnd.filter _

/-- The list has lost `q` at most. -/
def LostAtMost (pre : List ℕ) (q : ℕ) (suf : List ℕ) (t : Base) : Prop :=
  ∃ pre', t.bevs = pre' ++ suf ∧ (pre' = pre ++ [q] ∨ pre' = pre)

theorem turn_bevs (sets : FdSets) {q : ℕ} {pre suf : List ℕ}
    (hcalls : ∀ c, (env.call q c).added = [] ∧ ∀ x, x ≠ q → (env.call q c).freed x = false)
    (hpre : q ∉ pre) (hsuf : q ∉ suf) (hs : s.bevs = pre ++ q :: suf) :
    LostAtMost pre q suf (turn env sets q s).2 := by
  have hothers : ∀ (c : Call) (l : List ℕ), q ∉ l →
      l.filter (fun x ↦ !(env.call q c).freed x) = l := by
    intro c l hl
    refine List.filter_eq_self.mpr ?_
    intro x hx
    have hne : x ≠ q := fun h ↦ hl (h ▸ hx)
    rw [(hcalls c).2 x hne, Bool.not_false]
  apply turn_preserves
  · rintro c t ⟨pre', hbevs, hpre'⟩
    have hnew : ((env.call q c).apply t).bevs =
        pre'.filter (fun x ↦ !(env.call q c).freed x) ++ suf := by
      rw [Effect.apply, (hcalls c).1, List.nil_append, hbevs, List.filter_append,
        hothers c suf hsuf]
    refine ⟨_, hnew, ?_⟩
    rcases hpre' with rfl | rfl
    · rw [List.filter_append, hothers c pre hpre]
      cases hfree : (env.call q c).freed q with
      | true => exact .inr (by simp [hfree])
      | false => exact .inl (by simp [hfree])
    · exact .inr (hothers c _ hpre)
  · exact ⟨pre ++ [q], by rw [hs, List.append_assoc]; rfl, .inl rfl⟩

theorem nextOf_eq {q : ℕ} {pre suf : List ℕ} (hpre : q ∉ pre) (hs : s.bevs = pre ++ q :: suf) :
    nextOf env s q = suf.head? := by
  have hmem : q ∈ s.bevs := by
    rw [hs]
    exact List.mem_append_right pre List.mem_cons_self
  have hdrop : (pre ++ q :: suf).dropWhile (· ≠ q) = q :: suf := by
    rw [List.dropWhile_append_of_pos]
    · simp
    · intro x hx
      simpa using fun h : x = q ↦ hpre (h ▸ hx)
  rw [nextOf, if_pos hmem, hs, hdrop, List.tail_cons]

theorem visits_reach (sets : FdSets)
    (hcalls : ∀ q c, (env.call q c).added = [] ∧ ∀ x, x ≠ q → (env.call q c).freed x = false)
    {pre suf : List ℕ} {t : Base} (ht : t.bevs = pre ++ suf) (hnd : t.bevs.Nodup) (hp : p ∈ suf) :
    ∃ fuel t', (p, t') ∈ visits env sets fuel suf.head? t ∧ p ∈ t'.bevs := by
  induction suf generalizing pre t with
  | nil => cases hp
  | cons q suf ih =>
    by_cases hq : q = p
    · subst hq
      exact ⟨1, t, List.mem_cons_self, by rw [ht]; exact List.mem_append_right pre hp⟩
    · have hrest : p ∈ suf := (List.mem_cons.mp hp).resolve_left (Ne.symm hq)
      rw [ht] at hnd
      obtain ⟨hndpre, hndsuf, hdisj⟩ := List.nodup_append.mp hnd
      obtain ⟨hqsuf, hndsuf'⟩ := List.nodup_cons.mp hndsuf
      have hqpre : q ∉ pre := fun h ↦ hdisj q h q List.mem_cons_self rfl
      obtain ⟨pre', hbevs, hpre'⟩ := turn_bevs sets (hcalls q) hqpre hqsuf ht
      have hnd' : (turn env sets q t).2.bevs.Nodup := by
        rw [hbevs]
        rcases hpre' with rfl | rfl
        · rw [List.append_assoc]
          exact hnd
        · exact hnd.sublist ((List.sublist_cons_self q suf).append_left _)
      obtain ⟨fuel, t', ht', hlinked⟩ := ih hbevs hnd' hrest
      refine ⟨fuel + 1, t', List.mem_cons_of_mem _ ?_, hlinked⟩
      rw [nextOf_eq hqpre ht]
      exact ht'

theorem Waiting.haveFds (hw : Waiting s p) : haveFds s = true := by
  refine List.any_eq_true.mpr ⟨p, hw.linked, ?_⟩
  simp [hw.fd, hw.wantsRead]

theorem Waiting.turnComes (hw : Waiting s p) (hnd : s.bevs.Nodup) (hun : env.Undisturbed p) :
    TurnComes env s p := by
  obtain ⟨hrun, hp, hnd'⟩ := foldl_undisturbed hun.timers hw.running hw.linked hnd
  have hup : upToBevs env s = some (env.timers.foldl (fun t e ↦ e.apply t) s) := by
    have hsame : ({ s with
        breakFlag := s.breakFlag || env.breaks, stopFlag := s.stopFlag || env.stops } : Base) = s := by
      rw [hun.breaks, hun.stops, Bool.or_false, Bool.or_false]
    unfold upToBevs
    dsimp only
    rw [hsame, hw.running, hw.haveFds, hrun]
    rfl
  obtain ⟨fuel, t, ht, hlinked⟩ := visits_reach (select env s) hun.calls
    (List.nil_append _).symm hnd' hp
  refine ⟨fuel, t, ?_, hlinked⟩
  rw [turns, hup]
  exact ht

end Reach

def Effect.idle : Effect :=
  { freed := fun _ ↦ false, added := [], node := id, breaks := false, stops := false }

/-- Callbacks that do nothing, and a socket that is readable or not. -/
def calm (readable : Bool) : Env :=
  { readable := fun _ ↦ readable, writable := fun _ ↦ false, breaks := false, stops := false
    timers := [], call := fun _ _ ↦ .idle, stale := fun _ ↦ none }

/-- One TLS connection with a hundred bytes in its transport. -/
def backlog : Base where
  bevs := [0]
  node _ :=
    { fd := 5, connecting := false, evRead := true, evWrite := true, hasOutput := false
      tls := true, hsDone := true, wantRead := false, wantWrite := false, pending := 100 }
  timers := false
  breakFlag := false
  stopFlag := false

theorem backlog_waiting : Waiting backlog 0 :=
  ⟨rfl, List.mem_cons_self, by decide, rfl, rfl, rfl, rfl, by decide⟩

theorem calm_keeps (readable : Bool) (p : ℕ) : (calm readable).Keeps p :=
  ⟨List.forall_mem_nil _, fun _ _ ↦ ⟨List.not_mem_nil, fun _ _ ↦ ⟨rfl, rfl, rfl, rfl⟩⟩⟩

theorem calm_undisturbed (readable : Bool) (p : ℕ) : (calm readable).Undisturbed p :=
  ⟨rfl, rfl, List.forall_mem_nil _, fun _ _ ↦ ⟨rfl, fun _ _ ↦ rfl⟩⟩

/-- The loop comes to the connection and leaves its bytes where they are. -/
theorem backlog_quiet_not_read :
    Waiting backlog 0 ∧ TurnComes (calm false) backlog 0 ∧ ¬ ReadCalled (calm false) backlog 0 := by
  have hcomes := backlog_waiting.turnComes (List.nodup_singleton 0) (calm_undisturbed false 0)
  refine ⟨backlog_waiting, hcomes, ?_⟩
  intro hread
  have hready := ((readCalled_iff backlog_waiting (calm_keeps false 0)).mp hread).1
  cases hready

/-- `bev_read_input` is called in just those iterations in which `select` reports the
socket itself and the second loop comes to the bufferevent, whatever waits in its
transport; and it does come to it when no callback is in the way. -/
theorem readCalled_iff_readable {env : Env} {s : Base} {p : ℕ} (hw : Waiting s p)
    (hkeep : env.Keeps p) :
    (ReadCalled env s p ↔ env.readable (s.node p).fd = true ∧ TurnComes env s p) ∧
      (s.bevs.Nodup → env.Undisturbed p →
        (ReadCalled env s p ↔ env.readable (s.node p).fd = true)) := by
  refine ⟨readCalled_iff hw hkeep, ?_⟩
  intro hnd hun
  rw [readCalled_iff hw hkeep]
  exact ⟨fun h ↦ h.1, fun h ↦ ⟨h, hw.turnComes hnd hun⟩⟩

theorem readCalled_iff_readable_backlog : ReadCalled (calm true) backlog 0 :=
  ((readCalled_iff_readable backlog_waiting (calm_keeps true 0)).2 (List.nodup_singleton 0)
    (calm_undisturbed true 0)).mpr rfl

end Xfrpc.Event.Dispatch
