import Xfrpc.Foundations.Runs
import Mathlib.Tactic.SplitIfs

namespace Xfrpc.Lifecycle.Task

open Foundations.Runs

inductive Reported
  | connecting | connected | loginOk | reconnecting | fatal | stopped
  deriving DecidableEq, Repr

/-- What a run of the task does that others can see: the states it reports, its
attempts to connect, and the calls of `xfrpc_fatal`. -/
inductive Entry
  | report (state : Reported)
  | attempt
  | fatal
  deriving DecidableEq, Repr

structure Config where
  tcpMux : Bool
  tlsEnable : Bool
  heartbeatTimeout : ℤ
  deriving DecidableEq, Repr

/-- Where the control connection stands; `down` is a connect that failed. -/
inductive Phase
  | connecting | handshaking | up | down
  deriving DecidableEq, Repr

/-- `connect_bev`. It is disabled when it has reported EOF or an error; `expired`
says that it has reported the deadline of the handshake. -/
structure Bev where
  phase : Phase
  tls : Bool
  failed : Bool
  expired : Bool
  deriving DecidableEq, Repr

/-- A work connection of its own. It is an orphan when its client is freed, which
leaves it in the event base. -/
structure Work where
  connecting : Bool
  orphan : Bool
  deriving DecidableEq, Repr

/-- The places of the task: `xfrpc_task`, `init_main_control`, `run_control`,
`event_base_dispatch` and `close_main_control`. A null `main_ctl` makes it crash. -/
inductive Pc
  | idle
  | entered | initLogin | initControl | initBase | initTls
  | connect
  | top | wait | woken | timers | served | bevs
  | leave
  | close | freeBase | freeControl | report
  | exited
  | crashed
  deriving DecidableEq, Repr

/-- A call of `xfrpc_stop` in another task. -/
inductive StopPc
  | idle | called | gotControl | gotBase | returned
  deriving DecidableEq, Repr

/-- `main_ctl` and its event base, the globals of the client, and the calls of
`xfrpc_stop`. The code keeps neither `everLogin` nor `trace`. -/
structure State where
  cfg : Config
  pc : Pc
  ctl : Bool
  base : Bool
  breakFlag : Bool
  stopFlag : Bool
  bev : Option Bev
  tickerPing : Bool
  reconnectTimer : Option ℕ
  works : List Work
  status : Bool
  isLogin : Bool
  pongTime : ℤ
  reconnectRequested : Bool
  retryTimes : ℤ
  fatal : Bool
  callers : ℕ → StopPc
  everLogin : Bool
  trace : List Entry

/-- Before the first start. -/
def boot : State :=
  { cfg := ⟨true, false, 0⟩, pc := .idle, ctl := false, base := false, breakFlag := false
    stopFlag := false, bev := none, tickerPing := false, reconnectTimer := none, works := []
    status := false, isLogin := false, pongTime := 0, reconnectRequested := false, retryTimes := 0
    fatal := false, callers := fun _ ↦ .idle, everLogin := false, trace := [] }

def xfrpcReportState (s : State) (r : Reported) : State :=
  { s with trace := s.trace ++ [.report r] }

def xfrpcFatal (s : State) : State :=
  { s with
    fatal := true, stopFlag := s.stopFlag || (s.ctl && s.base), trace := s.trace ++ [.fatal] }

def reconnectBackoffSeconds (retryCount : ℤ) : ℕ := min (2 <<< min (retryCount - 1).toNat 5) 60

/-- `clear_main_control`, which frees the clients and not their work connections. -/
def clearMainControl (s : State) : State :=
  if s.ctl then
    { s with
      tickerPing := false, reconnectTimer := none, status := false, isLogin := false, pongTime := 0
      trace := s.trace ++ [.report .reconnecting]
      works := s.works.map fun w ↦ { w with orphan := true }, bev := none }
  else s

def freeEventBase (s : State) : State := { s with base := false, works := [] }

def freeMainControl (s : State) : State := { s with ctl := false }

def closeMainControl (s : State) : State :=
  if s.ctl then freeMainControl (freeEventBase (clearMainControl s)) else s

def requestReconnect (s : State) : State :=
  { clearMainControl s with
    reconnectRequested := true, breakFlag := s.breakFlag || (s.ctl && s.base) }

def reconnectTimerCb (s : State) : State := requestReconnect s

def handleConnectionFailure (s : State) (timer : Bool) : State :=
  let s := { s with retryTimes := s.retryTimes + 1 }
  if timer then { s with reconnectTimer := some (reconnectBackoffSeconds s.retryTimes) }
  else requestReconnect { s with reconnectTimer := none }

/-- `time` returns −1 when it fails. -/
def keepControlAlive (s : State) (timer : Bool) (now : ℤ) : State :=
  if timer then { s with tickerPing := decide (now ≠ -1), pongTime := now } else s

def login (s : State) (prepared : Bool) : State := if prepared then s else xfrpcFatal s

def handleConnectionSuccess (s : State) (prepared timer : Bool) (now : ℤ) : State :=
  keepControlAlive (login s prepared) timer now

def checkServerTimeout (s : State) (now : ℤ) : State :=
  if s.pongTime = 0 then s
  else if Int.bmod (now - s.pongTime) 4294967296 > s.cfg.heartbeatTimeout then requestReconnect s
  else s

def heartbeatHandler (s : State) (now : ℤ) : State :=
  if now = -1 then s else checkServerTimeout s now

/-- The messages of the server that matter here, with what comes of them: whether a
response to the login is a good one, whether the work connection can be opened, and
the time of a pong. -/
inductive Message
  | loginResp (good : Bool)
  | reqWorkConn (opened : Bool)
  | pong (now : ℤ)
  | other
  deriving DecidableEq, Repr

def handleLoginResponse (s : State) (good : Bool) : State :=
  if good then
    { xfrpcReportState { s with isLogin := true } .loginOk with status := true, everLogin := true }
  else s

def newClientConnect (s : State) (opened : Bool) : State :=
  if s.cfg.tcpMux = false ∧ opened = true then { s with works := s.works ++ [⟨true, false⟩] } else s

def handleTypeReqWorkConn (s : State) (opened : Bool) : State :=
  newClientConnect { s with status := true } opened

def handleControlWork (s : State) : Message → State
  | .reqWorkConn opened => handleTypeReqWorkConn s opened
  | .pong now => { s with pongTime := now }
  | _ => s

def handleFrpsMsg (s : State) (m : Message) : State :=
  if s.isLogin then handleControlWork s m
  else
    match m with
    | .loginResp good => handleLoginResponse s good
    | _ => s

/-- What the control connection reports: that TCP is up and the handshake begins,
or the events of `connect_event_cb`, or a message. An event brings what the calls of
its callback return. -/
inductive Control
  | tcpUp
  | connected (prepared timer : Bool) (now : ℤ)
  | eof (timer : Bool)
  | error (timer : Bool)
  | timeout
  | message (m : Message)
  deriving DecidableEq, Repr

/-- What `event_base_dispatch` can report of a connection. -/
def reports (b : Bev) : Control → Bool
  | .tcpUp => b.tls && b.phase == .connecting
  | .connected .. => b.phase == if b.tls then .handshaking else .connecting
  | .eof _ => b.phase == .up && (b.tls || !b.failed)
  | .error _ => b.phase != .down && (b.phase != .up || b.tls || !b.failed)
  | .timeout => b.phase == .handshaking
  | .message _ => b.phase == .up && !b.failed

def afterFailure (b : Bev) : Bev :=
  { b with
    phase := if b.phase = .connecting then (if b.tls then .handshaking else .down) else b.phase
    failed := true }

def connectEventCb (s : State) (b : Bev) : Control → State
  | .tcpUp => { s with bev := some { b with phase := .handshaking } }
  | .connected prepared timer now =>
    handleConnectionSuccess { s with bev := some { b with phase := .up }, retryTimes := 0 }
      prepared timer now
  | .eof timer => handleConnectionFailure { s with bev := some (afterFailure b) } timer
  | .error timer => handleConnectionFailure { s with bev := some (afterFailure b) } timer
  | .timeout => { s with bev := some { b with expired := true } }
  | .message m => handleFrpsMsg s m

def handleClientConnected (s : State) (i : ℕ) (w : Work) : State :=
  { s with works := s.works.set i { w with connecting := false }, status := true }

inductive WorkEvent
  | connected | gone | message (m : Message)
  deriving DecidableEq, Repr

def clientStartEventCb (s : State) (i : ℕ) (w : Work) : WorkEvent → State
  | .connected => if w.connecting then handleClientConnected s i w else s
  | .gone => { s with works := s.works.eraseIdx i }
  | .message m => if w.connecting then s else handleFrpsMsg s m

def startBaseConnect (s : State) (ok : Bool) : State :=
  let s := { s with trace := s.trace ++ [Entry.attempt] }
  if ok then { s with bev := some ⟨.connecting, s.cfg.tlsEnable, false, false⟩ }
  else xfrpcFatal { s with bev := none }

/-- A connection that is in the sets `select` gets. -/
def armed (s : State) : Bool :=
  s.bev.any fun b ↦ b.phase == .connecting || b.phase == .handshaking || b.phase == .up && !b.failed

def flagged (s : State) : Bool := s.breakFlag || s.stopFlag

/-- The next step of the task. `ok` is the result of what it calls there; before the
wait it says that the base has other connections or timers. -/
def taskStep (s : State) (ok : Bool) : State :=
  match s.pc with
  | .entered => { xfrpcReportState s .connecting with pc := .initLogin }
  | .initLogin => { if ok then s else xfrpcFatal s with pc := .initControl }
  | .initControl =>
    let s := closeMainControl s
    if ok then { s with ctl := true, pc := .initBase } else { xfrpcFatal s with pc := .connect }
  | .initBase =>
    if ok then { s with base := true, breakFlag := false, stopFlag := false, pc := .initTls }
    else { xfrpcFatal (freeMainControl s) with pc := .connect }
  | .initTls =>
    if s.cfg.tlsEnable = true ∧ ok = false then
      { xfrpcFatal (freeMainControl (freeEventBase s)) with pc := .connect }
    else { s with pc := .connect }
  | .connect =>
    if s.ctl then
      { startBaseConnect { s with reconnectRequested := false } ok with
        breakFlag := false, pc := .top }
    else { s with reconnectRequested := false, pc := .crashed }
  | .top =>
    if flagged s then { s with pc := .leave }
    else if !armed s && !s.tickerPing && s.reconnectTimer.isNone && !ok then { s with pc := .leave }
    else { s with pc := .wait }
  | .wait => { s with pc := .woken }
  | .woken => { s with pc := if flagged s then .leave else .timers }
  | .timers => { s with pc := .served }
  | .served => { s with pc := if flagged s then .leave else .bevs }
  | .bevs => { s with pc := .top }
  | .leave => { s with pc := if s.reconnectRequested then .connect else .close }
  | .close => { clearMainControl s with pc := .freeBase }
  | .freeBase => { freeEventBase s with pc := .freeControl }
  | .freeControl => { freeMainControl s with pc := .report }
  | .report => { xfrpcReportState s (if s.fatal then .fatal else .stopped) with pc := .exited }
  | .idle | .exited | .crashed => s

/-- `xfrpc_launch` in a client that does not run. -/
def xfrpcLaunch (s : State) (cfg : Config) : State :=
  if s.pc = .idle ∨ s.pc = .exited then
    { s with cfg, pc := .entered, callers := fun _ ↦ .idle, everLogin := false, trace := [] }
  else s

def Pc.live : Pc → Bool
  | .idle | .exited | .crashed => false
  | _ => true

def setCaller (s : State) (i : ℕ) (p : StopPc) : State :=
  { s with callers := fun j ↦ if j = i then p else s.callers j }

/-- The next step of call `i` of `xfrpc_stop`: the call, the reads of `main_ctl` and
of its base, and `mini_event_base_stop`. -/
def xfrpcStop (s : State) (i : ℕ) : State :=
  match s.callers i with
  | .idle => if s.pc.live then setCaller s i .called else s
  | .called => setCaller s i (if s.ctl then .gotControl else .returned)
  | .gotControl => setCaller s i (if s.base then .gotBase else .returned)
  | .gotBase => setCaller { s with stopFlag := s.stopFlag || s.base } i .returned
  | .returned => s

/-- A start, a step of the task, a timer that expires, an event of a connection, or
a step of another task that stops the client. -/
inductive Event
  | start (cfg : Config)
  | task (ok : Bool)
  | heartbeat (now : ℤ)
  | reconnect
  | control (c : Control)
  | work (i : ℕ) (e : WorkEvent)
  | stop (i : ℕ)
  deriving DecidableEq, Repr

/-- Timers and connections report in their part of the loop. -/
def step (s : State) : Event → State
  | .start cfg => xfrpcLaunch s cfg
  | .task ok => taskStep s ok
  | .heartbeat now => if s.pc = .timers ∧ s.tickerPing then heartbeatHandler s now else s
  | .reconnect => if s.pc = .timers ∧ s.reconnectTimer.isSome then reconnectTimerCb s else s
  | .control c =>
    match s.bev with
    | some b => if s.pc = .bevs ∧ reports b c then connectEventCb s b c else s
    | none => s
  | .work i e =>
    match s.works[i]? with
    | some w => if s.pc = .bevs then clientStartEventCb s i w e else s
    | none => s
  | .stop i => xfrpcStop s i

/-- What no callback changes: the place of the task, what it has allocated, and the
calls of `xfrpc_stop`. Only the loop is stopped for good by some. -/
structure Stays (s t : State) : Prop where
  cfg : t.cfg = s.cfg
  pc : t.pc = s.pc
  ctl : t.ctl = s.ctl
  base : t.base = s.base
  callers : t.callers = s.callers
  stopFlag : s.stopFlag = true → t.stopFlag = true

theorem Stays.refl (s : State) : Stays s s := ⟨rfl, rfl, rfl, rfl, rfl, id⟩

theorem Stays.trans {s t u : State} (h : Stays s t) (h' : Stays t u) : Stays s u :=
  ⟨h'.cfg.trans h.cfg, h'.pc.trans h.pc, h'.ctl.trans h.ctl, h'.base.trans h.base,
    h'.callers.trans h.callers, fun hs ↦ h'.stopFlag (h.stopFlag hs)⟩

theorem xfrpcFatal_stays (s : State) : Stays s (xfrpcFatal s) := by
  refine ⟨rfl, rfl, rfl, rfl, rfl, fun hs ↦ ?_⟩
  simp [xfrpcFatal, hs]

theorem clearMainControl_stays (s : State) : Stays s (clearMainControl s) := by
  unfold clearMainControl
  split_ifs
  · exact ⟨rfl, rfl, rfl, rfl, rfl, id⟩
  · exact .refl s

theorem requestReconnect_stays (s : State) : Stays s (requestReconnect s) :=
  (clearMainControl_stays s).trans ⟨rfl, rfl, rfl, rfl, rfl, id⟩

theorem handleConnectionFailure_stays (s : State) (timer : Bool) :
    Stays s (handleConnectionFailure s timer) := by
  cases timer with
  | true => exact ⟨rfl, rfl, rfl, rfl, rfl, id⟩
  | false =>
    refine Stays.trans ?_ (requestReconnect_stays _)
    exact ⟨rfl, rfl, rfl, rfl, rfl, id⟩

theorem login_stays (s : State) (prepared : Bool) : Stays s (login s prepared) := by
  cases prepared with
  | true => exact .refl s
  | false => exact xfrpcFatal_stays s

theorem keepControlAlive_stays (s : State) (timer : Bool) (now : ℤ) :
    Stays s (keepControlAlive s timer now) := by
  cases timer with
  | true => exact ⟨rfl, rfl, rfl, rfl, rfl, id⟩
  | false => exact .refl s

theorem heartbeatHandler_stays (s : State) (now : ℤ) : Stays s (heartbeatHandler s now) := by
  unfold heartbeatHandler checkServerTimeout
  split_ifs
  · exact .refl s
  · exact .refl s
  · exact requestReconnect_stays s
  · exact .refl s

theorem handleFrpsMsg_stays (s : State) (m : Message) : Stays s (handleFrpsMsg s m) := by
  unfold handleFrpsMsg
  cases m with
  | loginResp good =>
    cases good <;> cases s.isLogin <;> exact ⟨rfl, rfl, rfl, rfl, rfl, id⟩
  | reqWorkConn opened =>
    simp only [handleControlWork, handleTypeReqWorkConn, newClientConnect]
    split_ifs <;> exact ⟨rfl, rfl, rfl, rfl, rfl, id⟩
  | pong now => cases s.isLogin <;> exact ⟨rfl, rfl, rfl, rfl, rfl, id⟩
  | other => cases s.isLogin <;> exact .refl s

theorem connectEventCb_stays (s : State) (b : Bev) (c : Control) :
    Stays s (connectEventCb s b c) := by
  cases c with
  | tcpUp => exact ⟨rfl, rfl, rfl, rfl, rfl, id⟩
  | connected prepared timer now =>
    refine Stays.trans ?_ ((login_stays _ prepared).trans (keepControlAlive_stays _ timer now))
    exact ⟨rfl, rfl, rfl, rfl, rfl, id⟩
  | eof timer =>
    refine Stays.trans ?_ (handleConnectionFailure_stays _ timer)
    exact ⟨rfl, rfl, rfl, rfl, rfl, id⟩
  | error timer =>
    refine Stays.trans ?_ (handleConnectionFailure_stays _ timer)
    exact ⟨rfl, rfl, rfl, rfl, rfl, id⟩
  | timeout => exact ⟨rfl, rfl, rfl, rfl, rfl, id⟩
  | message m => exact handleFrpsMsg_stays s m

theorem clientStartEventCb_stays (s : State) (i : ℕ) (w : Work) (e : WorkEvent) :
    Stays s (clientStartEventCb s i w e) := by
  cases e with
  | connected => cases hw : w.connecting <;> simp [clientStartEventCb, hw] <;>
      exact ⟨rfl, rfl, rfl, rfl, rfl, id⟩
  | gone => exact ⟨rfl, rfl, rfl, rfl, rfl, id⟩
  | message m =>
    simp only [clientStartEventCb]
    split_ifs
    · exact .refl s
    · exact handleFrpsMsg_stays s m

def Event.callback : Event → Bool
  | .heartbeat _ | .reconnect | .control _ | .work _ _ => true
  | _ => false

theorem callback_stays (s : State) {e : Event} (he : e.callback = true) : Stays s (step s e) := by
  cases e with
  | start cfg => cases he
  | task ok => cases he
  | heartbeat now =>
    simp only [step]
    split_ifs
    · exact heartbeatHandler_stays s now
    · exact .refl s
  | reconnect =>
    simp only [step]
    split_ifs
    · exact requestReconnect_stays s
    · exact .refl s
  | control c =>
    simp only [step]
    split
    · split_ifs
      · exact connectEventCb_stays s _ c
      · exact .refl s
    · exact .refl s
  | work i e =>
    simp only [step]
    split
    · split_ifs
      · exact clientStartEventCb_stays s i _ e
      · exact .refl s
    · exact .refl s
  | stop i => cases he

theorem callback_idle {s : State} (ht : s.pc ≠ .timers) (hb : s.pc ≠ .bevs) {e : Event}
    (he : e.callback = true) : step s e = s := by
  cases e with
  | start cfg => cases he
  | task ok => cases he
  | heartbeat now => exact if_neg fun h ↦ ht h.1
  | reconnect => exact if_neg fun h ↦ ht h.1
  | control c =>
    simp only [step]
    split
    · exact if_neg fun h ↦ hb h.1
    · rfl
  | work i e =>
    simp only [step]
    split
    · exact if_neg hb
    · rfl
  | stop i => cases he

theorem xfrpcStop_eq (s : State) (i : ℕ) :
    ∃ stopFlag p, xfrpcStop s i = setCaller { s with stopFlag } i p ∧
      (s.stopFlag = true → stopFlag = true) := by
  unfold xfrpcStop
  have hkeep : s = setCaller { s with stopFlag := s.stopFlag } i (s.callers i) := by
    have hc : s.callers = fun j ↦ if j = i then s.callers i else s.callers j := by
      funext j
      split_ifs with hj
      · rw [hj]
      · rfl
    unfold setCaller
    rw [← hc]
  cases hp : s.callers i with
  | idle =>
    dsimp only
    split_ifs
    · exact ⟨s.stopFlag, .called, rfl, id⟩
    · exact ⟨s.stopFlag, _, hkeep, id⟩
  | called => exact ⟨s.stopFlag, _, rfl, id⟩
  | gotControl => exact ⟨s.stopFlag, _, rfl, id⟩
  | gotBase => exact ⟨s.stopFlag || s.base, _, rfl, fun hs ↦ by rw [hs]; rfl⟩
  | returned => exact ⟨s.stopFlag, _, hkeep, id⟩

end Xfrpc.Lifecycle.Task
