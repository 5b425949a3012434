import Xfrpc.Foundations.BigEndian
import Xfrpc.Foundations.Runs

namespace Xfrpc.Health.Check

open Foundations.Runs

inductive CheckType
  | tcp | http
  deriving DecidableEq, Repr

def CheckType.ofName (s : String) : Option CheckType :=
  if s = "tcp" then some .tcp else if s = "http" then some .http else none

/-- The first value an `int` cannot hold. -/
def intLimit : ℕ := 2147483648

/-- `struct proxy_service` as far as its health check reads it; `localIp` says
whether the address is one `inet_pton` takes. -/
structure Service where
  healthCheckType : Option String
  healthCheckMaxFailed : ℤ
  localIp : Option Bool
  localPort : ℤ
  startTime : ℕ
  endTime : ℕ
  maxFailed_lt : healthCheckMaxFailed < intLimit

inductive HcState
  | idle | connecting | reading
  deriving DecidableEq, Repr

/-- `check_bev`, with what the response has brought so far. -/
structure CheckBev where
  connecting : Bool
  input : Bytes
  deriving DecidableEq, Repr

/-- A check that is concluded: its number, its result, and what the callback was told. -/
structure Finished where
  id : ℕ
  healthy : Bool
  told : Option Bool
  deriving DecidableEq, Repr

/-- `struct health_check_entry`; `timer` says that the timer is pending. The code
does not count the checks, nor keep what has become of them. -/
structure Entry where
  checkType : CheckType
  validIp : Bool
  startTime : ℕ
  endTime : ℕ
  maxFailed : ℕ
  failedCount : ℤ
  isHealthy : Bool
  state : HcState
  timer : Bool
  checkBev : Option CheckBev
  started : ℕ
  finished : List Finished
  deriving DecidableEq, Repr

def maxFailedOf (n : ℤ) : ℕ := if n > 0 then n.toNat else 1

/-- The entry `health_check_start_all` makes for a service. -/
def healthCheckStart (ps : Service) : Option Entry :=
  match ps.healthCheckType.bind CheckType.ofName, ps.localIp with
  | some checkType, some validIp =>
    if ps.localPort ≤ 0 then none
    else
      some
        { checkType, validIp, startTime := ps.startTime, endTime := ps.endTime
          maxFailed := maxFailedOf ps.healthCheckMaxFailed
          failedCount := 0, isHealthy := true, state := .idle, timer := true, checkBev := none
          started := 0, finished := [] }
  | _, _ => none

def hcScheduleNext (e : Entry) : Entry := { e with timer := true }

/-- `failed_count++`, which wraps. -/
def incr (n : ℤ) : ℤ := Int.bmod (n + 1) (2 * intLimit)

def hcFinishCheck (e : Entry) (healthy : Bool) : Entry :=
  let failedCount := if healthy then 0 else incr e.failedCount
  let isHealthy :=
    if healthy then true else if failedCount ≥ e.maxFailed then false else e.isHealthy
  let told := if e.isHealthy ≠ isHealthy then some isHealthy else none
  hcScheduleNext
    { e with
      checkBev := none, state := .idle, failedCount, isHealthy
      finished := e.finished ++ [⟨e.started - 1, healthy, told⟩] }

/-- `hc_start_check`. Both kinds of check connect in the same way; `bev` and
`connect` say what comes of `bufferevent_socket_new` and `bufferevent_socket_connect`. -/
def hcStartCheck (e : Entry) (bev connect : Bool) : Entry :=
  let e := { e with checkBev := none, started := e.started + 1 }
  if bev = false then hcFinishCheck e false
  else
    let e := { e with state := .connecting, checkBev := some ⟨true, []⟩ }
    if e.validIp = false ∨ connect = false then hcFinishCheck e false else e

def outside (e : Entry) (hour : ℕ) : Bool :=
  if e.startTime = 0 ∧ e.endTime = 0 then false
  else if e.startTime ≤ e.endTime then decide (hour < e.startTime ∨ hour ≥ e.endTime)
  else decide (hour < e.startTime ∧ hour ≥ e.endTime)

def hcTimerCb (e : Entry) (hour : ℕ) (bev connect : Bool) : Entry :=
  if outside e hour then hcScheduleNext e else hcStartCheck e bev connect

inductive What
  | connected | eof | error | timeout
  deriving DecidableEq, Repr

def hcTcpEventCb (e : Entry) (what : What) : Entry := hcFinishCheck e (decide (what = .connected))

def hcHttpEventCb (e : Entry) (what : What) : Entry :=
  if what = .connected then { e with state := .reading } else hcFinishCheck e false

def hcEventCb (e : Entry) (what : What) : Entry :=
  match e.checkType with
  | .tcp => hcTcpEventCb e what
  | .http => hcHttpEventCb e what

def splitLine : Bytes → Option (Bytes × Bytes)
  | [] => none
  | b :: bs =>
    if b = 0x0d ∧ bs.head? = some 0x0a then some ([0x0d, 0x0a], bs.drop 1)
    else (splitLine bs).map fun p ↦ (b :: p.1, p.2)

def isSpace (b : UInt8) : Bool := b == 0x20 || (0x09 ≤ b && b ≤ 0x0d)

def isDigit (b : UInt8) : Bool := 0x30 ≤ b && b ≤ 0x39

/-- `%d` of `sscanf`. -/
def scanInt (s : Bytes) : Option (ℤ × Bytes) :=
  let s := s.dropWhile isSpace
  let (neg, s) := match s with
    | 0x2d :: t => (true, t)
    | 0x2b :: t => (false, t)
    | t => (false, t)
  let digits := s.takeWhile isDigit
  let n : ℕ := digits.foldl (fun n b ↦ n * 10 + (b.toNat - 0x30)) 0
  if digits = [] then none else some (if neg then -n else n, s.drop digits.length)

def scanText (text s : Bytes) : Option Bytes :=
  if text <+: s then some (s.drop text.length) else none

/-- `sscanf(data, "HTTP/%*d.%*d %d", ..)` on a line that ends at its first NUL. -/
def statusCode (line : Bytes) : Option ℤ := do
  let s ← scanText [0x48, 0x54, 0x54, 0x50, 0x2f] (line.takeWhile (· != 0))
  let (_, s) ← scanInt s
  let s ← scanText [0x2e] s
  let (_, s) ← scanInt s
  let (n, _) ← scanInt s
  return n

def passed (line : Bytes) : Bool := (statusCode line).any fun n ↦ 200 ≤ n && n < 400

/-- `hc_http_read_cb` on the input `b` holds. -/
def hcHttpReadCb (e : Entry) (b : CheckBev) (malloc : Bool) : Entry :=
  match splitLine b.input with
  | none => { e with checkBev := some b }
  | some (line, _) => hcFinishCheck e (malloc && passed line)

/-- What the event loop reports: the timer, and on the connection of a check that
it is up, that it failed, ended or timed out, or bytes of the response. -/
inductive Event
  | timer (hour : ℕ) (bev connect : Bool)
  | bev (what : What)
  | data (bs : Bytes) (malloc : Bool)
  deriving DecidableEq, Repr

/-- An event of the connection, which comes up only once; bytes come when it is up. -/
def step (e : Entry) : Event → Entry
  | .timer hour bev connect =>
    if e.timer then hcTimerCb { e with timer := false } hour bev connect else e
  | .bev what =>
    match e.checkBev with
    | none => e
    | some b =>
      if what = .connected ∧ b.connecting = false then e
      else hcEventCb { e with checkBev := some { b with connecting := false } } what
  | .data bs malloc =>
    match e.checkBev with
    | none => e
    | some b =>
      if b.connecting ∨ bs = [] ∨ e.checkType = .tcp then e
      else hcHttpReadCb e { b with input := b.input ++ bs } malloc

def results (e : Entry) : List Bool := e.finished.map Finished.healthy

def failures (rs : List Bool) : ℕ := (rs.reverse.takeWhile (!·)).length

def healthyAfter (maxFailed : ℕ) (rs : List Bool) : Bool := decide (failures rs < maxFailed)

def change (maxFailed : ℕ) (rs : List Bool) (r : Bool) : Option Bool :=
  if healthyAfter maxFailed rs = healthyAfter maxFailed (rs ++ [r]) then none
  else some (healthyAfter maxFailed (rs ++ [r]))

def concluded (e : Entry) : ℕ := if e.checkBev.isSome then e.started - 1 else e.started

/-- Either the timer is pending or a check is in flight; every check but that one
has been finished once; the health is what the results say, and the callback was told
of its changes. -/
structure WellRun (e : Entry) : Prop where
  exactlyOne : e.timer = true ↔ e.checkBev = none
  finishedOnce : e.finished.map Finished.id = List.range (concluded e)
  unhealthy : e.isHealthy = false ↔ e.maxFailed ≤ failures (results e)
  told : ∀ pre c post, e.finished = pre ++ c :: post →
    c.told = change e.maxFailed (pre.map Finished.healthy) c.healthy

structure Counted (e : Entry) : Prop where
  positive : 0 < e.maxFailed
  small : e.maxFailed < intLimit
  failedCount : e.failedCount = Int.bmod (failures (results e)) (2 * intLimit)
  inFlight : e.checkBev.isSome = true → 0 < e.started
  idle : e.state = .idle ↔ e.checkBev = none

structure Due (e : Entry) : Prop where
  positive : 0 < e.maxFailed
  small : e.maxFailed < intLimit
  failedCount : e.failedCount = Int.bmod (failures (results e)) (2 * intLimit)
  started : 0 < e.started
  finishedOnce : e.finished.map Finished.id = List.range (e.started - 1)
  unhealthy : e.isHealthy = false ↔ e.maxFailed ≤ failures (results e)
  told : ∀ pre c post, e.finished = pre ++ c :: post →
    c.told = change e.maxFailed (pre.map Finished.healthy) c.healthy

theorem failures_success (rs : List Bool) : failures (rs ++ [true]) = 0 := by
  simp [failures]

theorem failures_failure (rs : List Bool) : failures (rs ++ [false]) = failures rs + 1 := by
  simp [failures]

theorem isHealthy_eq {e : Entry} (h : e.isHealthy = false ↔ e.maxFailed ≤ failures (results e)) :
    e.isHealthy = healthyAfter e.maxFailed (results e) := by
  unfold healthyAfter
  cases hh : e.isHealthy with
  | true =>
    have hno : ¬ e.maxFailed ≤ failures (results e) := by
      rw [← h, hh]
      decide
    rw [decide_eq_true (by omega)]
  | false =>
    have hle := h.mp hh
    rw [decide_eq_false (by omega)]

theorem incr_bmod (n : ℕ) :
    incr (Int.bmod n (2 * intLimit)) = Int.bmod (n + 1 : ℕ) (2 * intLimit) := by
  rw [incr, Int.bmod_add_bmod]
  push_cast
  rfl

theorem limit_reached {n m : ℕ} (hm : m < intLimit) (hn : n < m) :
    Int.bmod (n + 1 : ℕ) (2 * intLimit) ≥ m ↔ m ≤ n + 1 := by
  have hsmall : Int.bmod (n + 1 : ℕ) (2 * intLimit) = (n + 1 : ℕ) := by
    unfold intLimit at hm ⊢
    exact Int.bmod_eq_of_le (by omega) (by omega)
  rw [hsmall]
  omega

theorem hcFinishCheck_isHealthy {e : Entry} (h : Due e) (r : Bool) :
    (hcFinishCheck e r).isHealthy = healthyAfter e.maxFailed (results e ++ [r]) := by
  have hpos := h.positive
  cases r with
  | true =>
    show true = _
    rw [healthyAfter, failures_success, decide_eq_true hpos]
  | false =>
    show (if incr e.failedCount ≥ e.maxFailed then false else e.isHealthy) = _
    rw [healthyAfter, failures_failure, h.failedCount, incr_bmod]
    by_cases hn : failures (results e) < e.maxFailed
    · have hlim := limit_reached h.small hn
      have hup : e.isHealthy = true := by
        rw [isHealthy_eq h.unhealthy, healthyAfter, decide_eq_true hn]
      by_cases hreach : e.maxFailed ≤ failures (results e) + 1
      · rw [if_pos (hlim.mpr hreach), decide_eq_false (by omega)]
      · rw [if_neg (fun hge ↦ hreach (hlim.mp hge)), hup, decide_eq_true (by omega)]
    · have hdown : e.isHealthy = false := h.unhealthy.mpr (by omega)
      rw [hdown, ite_self, decide_eq_false (by omega)]

theorem hcFinishCheck_finished {e : Entry} (h : Due e) (r : Bool) :
    (hcFinishCheck e r).finished =
      e.finished ++ [⟨e.started - 1, r, change e.maxFailed (results e) r⟩] := by
  have hh := hcFinishCheck_isHealthy h r
  have hb := isHealthy_eq h.unhealthy
  have htold : (if e.isHealthy ≠ (hcFinishCheck e r).isHealthy then
      some (hcFinishCheck e r).isHealthy else none) = change e.maxFailed (results e) r := by
    rw [hh, hb, change]
    split_ifs <;> simp_all
  show e.finished ++ [⟨e.started - 1, r, _⟩] = _
  rw [← htold]
  rfl

theorem told_snoc {m : ℕ} {l : List Finished} {c : Finished}
    (h : ∀ pre c post, l = pre ++ c :: post →
      c.told = change m (pre.map Finished.healthy) c.healthy)
    (hc : c.told = change m (l.map Finished.healthy) c.healthy) :
    ∀ pre c' post, l ++ [c] = pre ++ c' :: post →
      c'.told = change m (pre.map Finished.healthy) c'.healthy := by
  intro pre c' post heq
  rcases List.eq_nil_or_concat post with rfl | ⟨post', x, rfl⟩
  · obtain ⟨hl, hc'⟩ := List.append_inj' heq rfl
    obtain rfl : c = c' := by simpa using hc'
    rw [← hl]
    exact hc
  · have hsplit : l ++ [c] = (pre ++ c' :: post') ++ [x] := by simpa using heq
    exact h pre c' post' (List.append_inj' hsplit rfl).1

theorem hcFinishCheck_spec {e : Entry} (h : Due e) (r : Bool) :
    WellRun (hcFinishCheck e r) ∧ Counted (hcFinishCheck e r) := by
  have hfin := hcFinishCheck_finished h r
  have hres : results (hcFinishCheck e r) = results e ++ [r] := by
    rw [results, hfin, List.map_append]
    rfl
  have hh := hcFinishCheck_isHealthy h r
  have hconcluded : concluded (hcFinishCheck e r) = e.started := rfl
  refine ⟨⟨⟨fun _ ↦ rfl, fun _ ↦ rfl⟩, ?_, ?_, ?_⟩, ⟨h.positive, h.small, ?_, nofun, ?_⟩⟩
  · obtain ⟨k, hk⟩ : ∃ k, e.started = k + 1 := ⟨e.started - 1, by have := h.started; omega⟩
    rw [hfin, List.map_append, h.finishedOnce, hconcluded, hk, List.range_succ]
    rfl
  · rw [hh, hres, healthyAfter]
    show _ ↔ e.maxFailed ≤ _
    rw [decide_eq_false_iff_not]
    omega
  · rw [hfin]
    exact told_snoc h.told rfl
  · rw [hres]
    cases r with
    | true =>
      rw [failures_success]
      exact Int.zero_bmod.symm
    | false =>
      rw [failures_failure, ← incr_bmod, ← h.failedCount]
      rfl
  · exact ⟨fun _ ↦ rfl, fun _ ↦ rfl⟩

theorem due_of_inFlight {e : Entry} {b : CheckBev} (hw : WellRun e) (hc : Counted e)
    (hb : e.checkBev = some b) (bev : Option CheckBev) : Due { e with checkBev := bev } := by
  have hconcluded : concluded e = e.started - 1 := by simp [concluded, hb]
  refine ⟨hc.positive, hc.small, hc.failedCount, hc.inFlight (by rw [hb]; rfl), ?_, hw.unhealthy,
    hw.told⟩
  rw [← hconcluded]
  exact hw.finishedOnce

theorem due_of_idle {e : Entry} (hw : WellRun e) (hc : Counted e) (ht : e.timer = true)
    (st : HcState) (bev : Option CheckBev) :
    Due { e with timer := false, state := st, checkBev := bev, started := e.started + 1 } := by
  have hconcluded : concluded e = e.started := by simp [concluded, hw.exactlyOne.mp ht]
  refine ⟨hc.positive, hc.small, hc.failedCount, Nat.succ_pos _, ?_, hw.unhealthy, hw.told⟩
  show e.finished.map Finished.id = List.range (e.started + 1 - 1)
  rw [Nat.add_sub_cancel, ← hconcluded]
  exact hw.finishedOnce

theorem inFlight_spec {e : Entry} {b b' : CheckBev} (hw : WellRun e) (hc : Counted e)
    (hb : e.checkBev = some b) {st : HcState} (hst : st ≠ .idle) :
    WellRun { e with state := st, checkBev := some b' } ∧
      Counted { e with state := st, checkBev := some b' } := by
  have hconcluded : concluded e = concluded { e with state := st, checkBev := some b' } := by
    simp [concluded, hb]
  have htimer : e.timer ≠ true := by
    intro ht
    rw [hw.exactlyOne.mp ht] at hb
    cases hb
  refine ⟨⟨⟨fun ht ↦ absurd ht htimer, nofun⟩, ?_, hw.unhealthy, hw.told⟩, ⟨hc.positive, hc.small,
    hc.failedCount, fun _ ↦ hc.inFlight (by rw [hb]; rfl), ⟨fun h ↦ absurd h hst, nofun⟩⟩⟩
  rw [← hconcluded]
  exact hw.finishedOnce

theorem hcTimerCb_spec {e : Entry} (hw : WellRun e) (hc : Counted e) (ht : e.timer = true)
    (hour : ℕ) (bev connect : Bool) :
    WellRun (hcTimerCb { e with timer := false } hour bev connect) ∧
      Counted (hcTimerCb { e with timer := false } hour bev connect) := by
  have hbev := hw.exactlyOne.mp ht
  unfold hcTimerCb
  by_cases ho : outside { e with timer := false } hour = true
  · rw [if_pos ho]
    have hsame : hcScheduleNext { e with timer := false } = e := by
      rw [hcScheduleNext, ← ht]
    rw [hsame]
    exact ⟨hw, hc⟩
  · rw [if_neg ho]
    unfold hcStartCheck
    dsimp only
    by_cases hnew : bev = false
    · rw [if_pos hnew]
      exact hcFinishCheck_spec (due_of_idle hw hc ht e.state none) false
    · rw [if_neg hnew]
      split_ifs
      · exact hcFinishCheck_spec (due_of_idle hw hc ht .connecting (some ⟨true, []⟩)) false
      · have hd := due_of_idle hw hc ht .connecting (some ⟨true, []⟩)
        refine ⟨⟨⟨nofun, nofun⟩, ?_, hd.unhealthy, hd.told⟩,
          ⟨hd.positive, hd.small, hd.failedCount, fun _ ↦ hd.started, ⟨nofun, nofun⟩⟩⟩
        exact hd.finishedOnce

theorem hcEventCb_cases (e : Entry) (what : What) :
    (∃ r, hcEventCb e what = hcFinishCheck e r) ∨ hcEventCb e what = { e with state := .reading } := by
  unfold hcEventCb
  split
  · exact .inl ⟨_, rfl⟩
  · unfold hcHttpEventCb
    split_ifs
    · exact .inr rfl
    · exact .inl ⟨false, rfl⟩

theorem step_spec {e : Entry} (h : WellRun e ∧ Counted e) (ev : Event) :
    WellRun (step e ev) ∧ Counted (step e ev) := by
  obtain ⟨hw, hc⟩ := h
  cases ev with
  | timer hour bev connect =>
    by_cases ht : e.timer = true
    · simp only [step, if_pos ht]
      exact hcTimerCb_spec hw hc ht hour bev connect
    · simp only [step, if_neg ht]
      exact ⟨hw, hc⟩
  | bev what =>
    simp only [step]
    cases hb : e.checkBev with
    | none => exact ⟨hw, hc⟩
    | some b =>
      dsimp only
      by_cases htwice : what = .connected ∧ b.connecting = false
      · rw [if_pos htwice]
        exact ⟨hw, hc⟩
      · rw [if_neg htwice]
        have hdue := due_of_inFlight hw hc hb (some { b with connecting := false })
        have hcases := hcEventCb_cases { e with checkBev := some { b with connecting := false } }
        obtain ⟨r, hr⟩ | hr := hcases what
        · rw [hr]
          exact hcFinishCheck_spec hdue r
        · rw [hr]
          have hst : HcState.reading ≠ .idle := by decide
          exact inFlight_spec hw hc hb hst
  | data bs malloc =>
    simp only [step]
    cases hb : e.checkBev with
    | none => exact ⟨hw, hc⟩
    | some b =>
      dsimp only
      by_cases hno : b.connecting = true ∨ bs = [] ∨ e.checkType = .tcp
      · rw [if_pos hno]
        exact ⟨hw, hc⟩
      · rw [if_neg hno]
        unfold hcHttpReadCb
        cases splitLine (b.input ++ bs) with
        | none =>
          have hst : e.state ≠ .idle := by
            intro hidle
            rw [hc.idle.mp hidle] at hb
            cases hb
          exact inFlight_spec hw hc hb hst
        | some p =>
          have hdue := due_of_inFlight hw hc hb e.checkBev
          exact hcFinishCheck_spec hdue _

theorem maxFailedOf_bounds {n : ℤ} (h : n < intLimit) :
    0 < maxFailedOf n ∧ maxFailedOf n < intLimit := by
  unfold maxFailedOf
  unfold intLimit at h ⊢
  split_ifs <;> omega

theorem healthCheckStart_spec {ps : Service} {e : Entry} (h : healthCheckStart ps = some e) :
    WellRun e ∧ Counted e := by
  obtain ⟨hpos, hlt⟩ := maxFailedOf_bounds ps.maxFailed_lt
  unfold healthCheckStart at h
  split at h
  · by_cases hport : ps.localPort ≤ 0
    · rw [if_pos hport] at h
      cases h
    · rw [if_neg hport] at h
      obtain rfl := Option.some.inj h
      refine ⟨⟨⟨fun _ ↦ rfl, fun _ ↦ rfl⟩, rfl, ⟨nofun, fun hle ↦ ?_⟩, ?_⟩,
        ⟨hpos, hlt, Int.zero_bmod.symm, nofun, ⟨fun _ ↦ rfl, fun _ ↦ rfl⟩⟩⟩
      · exact absurd hle (Nat.not_le.mpr hpos)
      · intro pre c post heq
        have hnil : ([] : List Finished) = pre ++ c :: post := heq
        simp at hnil
  · cases h

/-- The checks of a service go on in the right way whatever happens. -/
theorem health_checks_wellRun {ps : Service} {e : Entry} (h : healthCheckStart ps = some e)
    (events : List Event) : Always step WellRun e events :=
  (always_of_step (P := fun e ↦ WellRun e ∧ Counted e) (fun _ ev h ↦ step_spec h ev)
    (healthCheckStart_spec h) events).mono fun _ h ↦ h.1

def sampleService : Service :=
  { healthCheckType := some "http", healthCheckMaxFailed := 0, localIp := some true, localPort := 80
    startTime := 0, endTime := 0, maxFailed_lt := by decide }

def sampleEntry : Entry :=
  { checkType := .http, validIp := true, startTime := 0, endTime := 0, maxFailed := 1
    failedCount := 0, isHealthy := true, state := .idle, timer := true, checkBev := none
    started := 0, finished := [] }

/-- A refused connection, then a check that passes. -/
theorem wellRun_refused_passed :
    Always step WellRun sampleEntry
      [.timer 0 true true, .bev .error, .timer 0 true true, .bev .connected,
        .data [0x48, 0x54, 0x54, 0x50, 0x2f, 0x31, 0x2e, 0x30, 0x20, 0x32, 0x30, 0x30, 0x0d, 0x0a]
          true] := by
  have hstart : healthCheckStart sampleService = some sampleEntry := rfl
  exact health_checks_wellRun hstart _

end Xfrpc.Health.Check
