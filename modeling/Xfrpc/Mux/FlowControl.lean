import Xfrpc.Foundations.Runs
import Xfrpc.Mux.Stream

namespace Xfrpc.Mux.FlowControl

open Header Mux.Stream Foundations.Runs

def sent (out : List Frame) : ℕ := ((out.filter Frame.isData).map (·.payload.length)).sum

def announced (out : List Frame) : ℕ := ((out.filter Frame.isWindowUpdate).map (·.header.length)).sum

/-- One stream of the session, the frames written for it, and the totals its
two ends would keep: `offered` counts the increments of all WINDOW_UPDATEs,
`granted` of those the stream takes; `received` and `admitted` likewise for DATA. -/
structure Flow where
  stream : TmuxStream
  alive : Bool
  out : List Frame
  offered : ℕ
  granted : ℕ
  received : ℕ
  admitted : ℕ
  deriving DecidableEq, Repr

def Flow.start (id : ℕ) (state : TcpMuxState) : Flow :=
  { stream := initTmuxStream id state
    alive := true
    out := []
    offered := 0
    granted := 0
    received := 0
    admitted := 0 }

inductive StreamOp
  | write (src : Bytes)
  | close
  deriving DecidableEq, Repr

/-- A DATA frame comes with what its consumer does to the stream before
`process_data` goes on and with the number of bytes it reports as processed. -/
inductive StreamEvent
  | op (o : StreamOp)
  | windowUpdate (flags increment : ℕ) (pendingClose : Bool)
  | data (flags length : ℕ) (consumer : List StreamOp) (processed : ℕ)
  deriving DecidableEq, Repr

def Flow.op (f : Flow) (o : StreamOp) : Flow :=
  if f.alive then
    match o with
    | .write src =>
      let r := tmuxStreamWrite f.stream src
      { f with stream := r.stream, out := f.out ++ r.out }
    | .close =>
      let r := tmuxStreamClose f.stream
      { f with stream := r.stream, out := f.out ++ r.out, alive := !r.freed }
  else f

def creditable (flags : ℕ) (s : TmuxStream) : Bool :=
  !hasFlag flags .syn && !flagsRefused flags s && !flagsFree flags s

def Flow.windowUpdate (f : Flow) (flags increment : ℕ) (pendingClose : Bool) : Flow :=
  let g := { f with
    offered := f.offered + increment
    granted := if creditable flags f.stream then f.granted + increment else f.granted }
  if hasFlag flags .syn then g
  else
    match creditSendWindow flags increment f.stream with
    | .error s => { g with stream := s, out := g.out ++ [tcpMuxSendGoAway protoErr] }
    | .freed s => { g with stream := s, alive := false }
    | .credited _ s =>
      if s.sendWindow ≠ 0 && pendingClose then Flow.op { g with stream := s } .close
      else { g with stream := s }

def Flow.data (f : Flow) (flags length : ℕ) (consumer : List StreamOp) (processed : ℕ) : Flow :=
  let g := { f with received := f.received + length }
  match admitData flags length f.stream with
  | .refused s => { g with stream := s }
  | .freed s => { g with stream := s, alive := false }
  | .exceeded s => { g with stream := s }
  | .admitted s =>
    let h := consumer.foldl Flow.op { g with stream := s, admitted := f.admitted + length }
    if h.alive then
      let (s', out) := settleData processed length h.stream
      { h with stream := s', out := h.out ++ out }
    else h

def Flow.step (f : Flow) (e : StreamEvent) : Flow :=
  if f.alive then
    match e with
    | .op o => f.op o
    | .windowUpdate flags increment pendingClose => f.windowUpdate flags increment pendingClose
    | .data flags length consumer processed => f.data flags length consumer processed
  else f

/-- The credit the peer has given and not yet seen used. -/
def Flow.outstanding (f : Flow) : ℕ := initialSendWindow.toNat + f.granted - sent f.out

@[simp] theorem sent_append (u v : List Frame) : sent (u ++ v) = sent u + sent v := by
  simp [sent]

@[simp] theorem announced_append (u v : List Frame) :
    announced (u ++ v) = announced u + announced v := by
  simp [announced]

@[simp] theorem sent_winUpdate (flags id delta : ℕ) :
    sent [tcpMuxSendWinUpdate flags id delta] = 0 := rfl

@[simp] theorem announced_winUpdate (flags id delta : ℕ) :
    announced [tcpMuxSendWinUpdate flags id delta] = delta := rfl

@[simp] theorem sent_goAway (reason : ℕ) : sent [tcpMuxSendGoAway reason] = 0 := rfl

@[simp] theorem announced_goAway (reason : ℕ) : announced [tcpMuxSendGoAway reason] = 0 := rfl

@[simp] theorem sent_data (flags id n : ℕ) (b : Bytes) :
    sent [⟨tcpMuxEncode .tmuxData flags id n, b⟩] = b.length := rfl

@[simp] theorem announced_data (flags id n : ℕ) (b : Bytes) :
    announced [⟨tcpMuxEncode .tmuxData flags id n, b⟩] = 0 := rfl

@[simp] theorem sent_nil : sent [] = 0 := rfl

@[simp] theorem announced_nil : announced [] = 0 := rfl

structure Conserves (f g : Flow) : Prop where
  send : g.stream.sendWindow.toNat + sent g.out = f.stream.sendWindow.toNat + sent f.out
  window : g.stream.sendWindow.toNat ≤ f.stream.sendWindow.toNat
  recv : g.stream.recvWindow = f.stream.recvWindow
  announced : announced g.out = announced f.out
  offered : g.offered = f.offered
  granted : g.granted = f.granted
  received : g.received = f.received
  admitted : g.admitted = f.admitted

theorem Conserves.refl (f : Flow) : Conserves f f := by constructor <;> simp

theorem Conserves.trans {f g h : Flow} (a : Conserves f g) (b : Conserves g h) :
    Conserves f h where
  send := b.send.trans a.send
  window := b.window.trans a.window
  recv := b.recv.trans a.recv
  announced := b.announced.trans a.announced
  offered := b.offered.trans a.offered
  granted := b.granted.trans a.granted
  received := b.received.trans a.received
  admitted := b.admitted.trans a.admitted

theorem tmuxStreamWrite_debit (s : TmuxStream) (src : Bytes) :
    (tmuxStreamWrite s src).stream.sendWindow.toNat + sent (tmuxStreamWrite s src).out =
      s.sendWindow.toNat := by
  obtain ⟨h, -⟩ | ⟨n, flags, st, hn, -, -, -, h⟩ := tmuxStreamWrite_cases s src
  · simp [h]
  · have hle : n ≤ s.sendWindow.toNat := by omega
    have hlen : (src.take n).length = n := by
      rw [List.length_take]
      omega
    simp only [h, toNat_sub_ofNat hle, sent_data, hlen]
    omega

theorem tmuxStreamWrite_recv (s : TmuxStream) (src : Bytes) :
    (tmuxStreamWrite s src).stream.recvWindow = s.recvWindow ∧
      announced (tmuxStreamWrite s src).out = 0 := by
  obtain ⟨h, -⟩ | ⟨n, flags, st, -, -, -, -, h⟩ := tmuxStreamWrite_cases s src
  all_goals simp [h]

theorem op_conserves (f : Flow) (o : StreamOp) : Conserves f (f.op o) := by
  unfold Flow.op
  by_cases ha : f.alive = true
  · rw [if_pos ha]
    cases o with
    | write src =>
      have hd := tmuxStreamWrite_debit f.stream src
      obtain ⟨hr, hz⟩ := tmuxStreamWrite_recv f.stream src
      constructor
      case send => simp only [sent_append]; omega
      case window => dsimp only; omega
      case recv => exact hr
      case announced => simp only [announced_append, hz, Nat.add_zero]
      all_goals rfl
    | close =>
      dsimp only
      unfold tmuxStreamClose
      split
      all_goals constructor <;> simp
  · rw [if_neg ha]
    exact .refl f

theorem op_close_sent (f : Flow) : sent (f.op .close).out = sent f.out := by
  unfold Flow.op
  split_ifs
  · dsimp only
    unfold tmuxStreamClose
    split
    all_goals simp
  · rfl

theorem foldl_op_conserves (f : Flow) (os : List StreamOp) :
    Conserves f (os.foldl Flow.op f) := by
  induction os generalizing f with
  | nil => exact .refl f
  | cons o os ih => exact (op_conserves f o).trans (ih (f.op o))

structure Balanced (f : Flow) : Prop where
  cap : f.stream.sendWindow ≤ maxYamuxWindowSize
  debit : f.stream.sendWindow.toNat + sent f.out ≤ initialSendWindow.toNat + f.granted
  offer : f.granted ≤ f.offered
  recv : f.stream.recvWindow.toNat + f.admitted = maxStreamWindowSize + announced f.out
  recvCap : f.stream.recvWindow.toNat ≤ maxStreamWindowSize
  arrive : f.admitted ≤ f.received

theorem start_balanced (id : ℕ) (st : TcpMuxState) : Balanced (.start id st) := by
  constructor <;> simp [Flow.start, initTmuxStream] <;> decide

theorem Balanced.conserves {f g : Flow} (hf : Balanced f) (h : Conserves f g) : Balanced g where
  cap := UInt32.le_iff_toNat_le.mpr (h.window.trans (UInt32.le_iff_toNat_le.mp hf.cap))
  debit := by
    have hs := h.send
    have hd := hf.debit
    rw [h.granted]
    omega
  offer := by rw [h.granted, h.offered]; exact hf.offer
  recv := by rw [h.recv, h.admitted, h.announced]; exact hf.recv
  recvCap := by rw [h.recv]; exact hf.recvCap
  arrive := by rw [h.admitted, h.received]; exact hf.arrive

def Flow.credited (f : Flow) (increment : ℕ) (s : TmuxStream) : Flow :=
  { f with stream := s, offered := f.offered + increment, granted := f.granted + increment }

theorem windowUpdate_credited {f : Flow} {flags increment : ℕ} {old : UInt32} {s : TmuxStream}
    (hc : creditable flags f.stream = true)
    (h : creditSendWindow flags increment f.stream = .credited old s) (pendingClose : Bool) :
    Conserves (f.credited increment s) (f.windowUpdate flags increment pendingClose) ∧
      sent (f.windowUpdate flags increment pendingClose).out = sent f.out := by
  have hs : hasFlag flags .syn = false := by
    unfold creditable at hc
    simp only [Bool.and_eq_true, Bool.not_eq_true'] at hc
    exact hc.1.1
  unfold Flow.windowUpdate
  simp only [h, hs, hc, Bool.false_eq_true, if_true, if_false]
  split_ifs
  · exact ⟨op_conserves (f.credited increment s) .close, op_close_sent (f.credited increment s)⟩
  · exact ⟨.refl (f.credited increment s), rfl⟩

theorem windowUpdate_credit (f : Flow) (flags increment : ℕ) (pendingClose : Bool) :
    ∃ g, Conserves g (f.windowUpdate flags increment pendingClose) ∧
      sent (f.windowUpdate flags increment pendingClose).out = sent f.out ∧
      sent g.out = sent f.out ∧ announced g.out = announced f.out ∧
      g.stream.recvWindow = f.stream.recvWindow ∧ g.received = f.received ∧
      g.admitted = f.admitted ∧ g.offered = f.offered + increment ∧
      ((g.granted = f.granted ∧ g.stream.sendWindow = f.stream.sendWindow) ∨
       (g.granted = f.granted + increment ∧ (maxStreamWindowSize < increment ∧
          g.stream.sendWindow = f.stream.sendWindow ∨
        g.stream.sendWindow.toNat =
          min (f.stream.sendWindow.toNat + increment) maxYamuxWindowSize.toNat))) := by
  by_cases hs : hasFlag flags .syn = true
  · refine ⟨_, .refl _, ?_⟩
    simp [Flow.windowUpdate, creditable, hs]
  have hs' : hasFlag flags .syn = false := by simpa using hs
  obtain ⟨hr, h⟩ | ⟨hr, hf, st, h⟩ | ⟨hr, hf, hi, st, h⟩ | ⟨hr, hf, hi, st, h⟩ :=
    creditSendWindow_cases flags increment f.stream
  · refine ⟨_, .refl _, ?_⟩
    simp [Flow.windowUpdate, creditable, hs', h, hr]
  · refine ⟨_, .refl _, ?_⟩
    simp [Flow.windowUpdate, creditable, hs', h, hr, hf]
  · refine ⟨_, .refl _, ?_⟩
    simp [Flow.windowUpdate, creditable, hs', h, hr, hf, hi]
  · have hw := addCredit_toNat (w := f.stream.sendWindow) hi
    have hc : creditable flags f.stream = true := by simp [creditable, hs', hr, hf]
    obtain ⟨hcons, hsent⟩ := windowUpdate_credited hc h pendingClose
    refine ⟨_, hcons, hsent, rfl, rfl, rfl, rfl, rfl, rfl, ?_⟩
    exact .inr ⟨rfl, .inr hw⟩

theorem windowUpdate_balanced {f : Flow} (hf : Balanced f) (flags increment : ℕ)
    (pendingClose : Bool) :
    Balanced (f.windowUpdate flags increment pendingClose) := by
  obtain ⟨g, hc, -, hsent, hann, hrw, hrec, hadm, hoff, hcase⟩ :=
    windowUpdate_credit f flags increment pendingClose
  refine Balanced.conserves ?_ hc
  have hcap := UInt32.le_iff_toNat_le.mp hf.cap
  have hdebit := hf.debit
  have hoffer := hf.offer
  refine ⟨UInt32.le_iff_toNat_le.mpr ?_, ?_, ?_, ?_, ?_, ?_⟩
  · obtain ⟨-, hw⟩ | ⟨-, ⟨-, hw⟩ | hw⟩ := hcase
    · rw [hw]; exact hcap
    · rw [hw]; exact hcap
    · omega
  · obtain ⟨hg, hw⟩ | ⟨hg, ⟨-, hw⟩ | hw⟩ := hcase
    · rw [hg, hw, hsent]; exact hdebit
    · rw [hg, hw, hsent]; omega
    · omega
  · obtain ⟨hg, -⟩ | ⟨hg, -⟩ := hcase
    all_goals omega
  · rw [hrw, hadm, hann]; exact hf.recv
  · rw [hrw]; exact hf.recvCap
  · rw [hadm, hrec]; exact hf.arrive

def Flow.takeIn (f : Flow) (length : ℕ) (s : TmuxStream) : Flow :=
  { f with stream := s, received := f.received + length, admitted := f.admitted + length }

theorem takeIn_balanced {f : Flow} (hf : Balanced f) (st : TcpMuxState) {length : ℕ}
    (hl : length ≤ f.stream.recvWindow.toNat) :
    Balanced (f.takeIn length
      { f.stream with state := st, recvWindow := f.stream.recvWindow - .ofNat length }) := by
  have hw := toNat_sub_ofNat hl
  have hr := hf.recv
  have hc := hf.recvCap
  have ha := hf.arrive
  refine ⟨hf.cap, hf.debit, hf.offer, ?_, ?_, ?_⟩
  all_goals simp only [Flow.takeIn, hw]
  all_goals omega

/-- The end of `process_data`, for a stream its consumer has left in place. -/
def Flow.settle (f : Flow) (processed length : ℕ) : Flow :=
  { f with
    stream := (settleData processed length f.stream).1
    out := f.out ++ (settleData processed length f.stream).2 }

theorem settle_cases {f : Flow} (hc : f.stream.recvWindow.toNat ≤ maxStreamWindowSize)
    (processed length : ℕ) :
    (f.settle processed length).stream.sendWindow = f.stream.sendWindow ∧
      sent (f.settle processed length).out = sent f.out ∧
      (((f.settle processed length).stream.recvWindow = f.stream.recvWindow ∧
        announced (f.settle processed length).out = announced f.out ∧
        (processed ≠ length ∨ processed = 0 ∨ f.stream.recvWindow = maxWindow)) ∨
      ((f.settle processed length).stream.recvWindow = maxWindow ∧
        announced (f.settle processed length).out =
          announced f.out + (maxStreamWindowSize - f.stream.recvWindow.toNat))) := by
  unfold Flow.settle settleData
  by_cases hp : processed ≠ length
  · rw [if_pos hp]
    refine ⟨rfl, ?_, .inl ⟨rfl, ?_, .inl hp⟩⟩
    all_goals simp [tcpMuxSendWinUpdateRst]
  · rw [if_neg hp]
    obtain ⟨st, out, h, hout, hz⟩ | ⟨st, flags, h⟩ := sendWindowUpdate_cases processed hc
    · rw [h]
      obtain rfl | ⟨flags, rfl⟩ := hout
      · exact ⟨rfl, by simp, .inl ⟨rfl, by simp, .inr hz⟩⟩
      · exact ⟨rfl, by simp, .inl ⟨rfl, by simp, .inr hz⟩⟩
    · rw [h]
      exact ⟨rfl, by simp, .inr ⟨rfl, by simp⟩⟩

theorem settle_balanced {f : Flow} (hf : Balanced f) (processed length : ℕ) :
    Balanced (f.settle processed length) := by
  have hm : maxWindow.toNat = maxStreamWindowSize := rfl
  have hr := hf.recv
  have hc := hf.recvCap
  obtain ⟨hsw, hsent, hrw⟩ := settle_cases hc processed length
  refine ⟨?_, ?_, hf.offer, ?_, ?_, hf.arrive⟩
  · rw [hsw]; exact hf.cap
  · rw [hsw, hsent]; exact hf.debit
  · obtain ⟨hw, ha, -⟩ | ⟨hw, ha⟩ := hrw
    · rw [hw, ha]; exact hr
    · rw [hw, ha, hm]
      change maxStreamWindowSize + f.admitted = _
      omega
  · obtain ⟨hw, -⟩ | ⟨hw, -⟩ := hrw
    · rw [hw]; exact hc
    · rw [hw, hm]

theorem data_admitted {f : Flow} {flags length : ℕ} {s : TmuxStream}
    (h : admitData flags length f.stream = .admitted s) (consumer : List StreamOp)
    (processed : ℕ) :
    f.data flags length consumer processed =
      let g := consumer.foldl Flow.op (f.takeIn length s)
      if g.alive then g.settle processed length else g := by
  unfold Flow.data
  rw [h]
  rfl

theorem data_balanced {f : Flow} (hf : Balanced f) (flags length : ℕ)
    (consumer : List StreamOp) (processed : ℕ) :
    Balanced (f.data flags length consumer processed) := by
  have harr := hf.arrive
  obtain ⟨-, h⟩ | ⟨-, -, st, h⟩ | ⟨-, -, -, st, h⟩ | ⟨-, -, hl, st, h⟩ :=
    admitData_cases flags length f.stream
  case inr.inr.inr =>
    have hg := (takeIn_balanced hf st hl).conserves (foldl_op_conserves _ consumer)
    rw [data_admitted h]
    dsimp only
    split_ifs
    · exact settle_balanced hg processed length
    · exact hg
  all_goals
    unfold Flow.data
    rw [h]
    exact ⟨hf.cap, hf.debit, hf.offer, hf.recv, hf.recvCap, Nat.le_add_right_of_le harr⟩

theorem step_balanced (f : Flow) (e : StreamEvent) (hf : Balanced f) : Balanced (f.step e) := by
  unfold Flow.step
  split_ifs
  · cases e with
    | op o => exact hf.conserves (op_conserves f o)
    | windowUpdate flags increment pendingClose =>
      exact windowUpdate_balanced hf flags increment pendingClose
    | data flags length consumer processed => exact data_balanced hf flags length consumer processed
  · exact hf

/-- The send window is what the peer granted and has not seen used. -/
def Exact (f : Flow) : Prop :=
  f.stream.sendWindow.toNat + sent f.out = initialSendWindow.toNat + f.granted

theorem Exact.conserves {f g : Flow} (he : Exact f) (h : Conserves f g) : Exact g := by
  have hs := h.send
  unfold Exact at he ⊢
  rw [hs, h.granted]
  exact he

theorem windowUpdate_exact {f : Flow} (he : Exact f) {flags increment : ℕ} {pendingClose : Bool}
    (ho : (f.windowUpdate flags increment pendingClose).outstanding ≤ maxYamuxWindowSize.toNat) :
    Exact (f.windowUpdate flags increment pendingClose) := by
  obtain ⟨g, hc, hfinal, hsent, -, -, -, -, -, hcase⟩ :=
    windowUpdate_credit f flags increment pendingClose
  refine Exact.conserves ?_ hc
  have hg := hc.granted
  have hy : maxYamuxWindowSize.toNat < maxStreamWindowSize := by decide
  unfold Exact at he ⊢
  unfold Flow.outstanding at ho
  obtain ⟨hgr, hw⟩ | ⟨hgr, ⟨hbig, hw⟩ | hw⟩ := hcase
  · rw [hgr, hw, hsent]; exact he
  · omega
  · omega

theorem data_exact {f : Flow} (hf : Balanced f) (he : Exact f) (flags length : ℕ)
    (consumer : List StreamOp) (processed : ℕ) :
    Exact (f.data flags length consumer processed) := by
  obtain ⟨-, h⟩ | ⟨-, -, st, h⟩ | ⟨-, -, -, st, h⟩ | ⟨-, -, hl, st, h⟩ :=
    admitData_cases flags length f.stream
  case inr.inr.inr =>
    have hcons := foldl_op_conserves (f.takeIn length
      { f.stream with state := st, recvWindow := f.stream.recvWindow - .ofNat length }) consumer
    have hg := (takeIn_balanced hf st hl).conserves hcons
    have had : Exact (f.takeIn length
      { f.stream with state := st, recvWindow := f.stream.recvWindow - .ofNat length }) := he
    have hge := had.conserves hcons
    rw [data_admitted h]
    dsimp only
    split_ifs
    · obtain ⟨hsw, hsent, -⟩ := settle_cases hg.recvCap processed length
      unfold Exact
      rw [hsw, hsent]
      exact hge
    · exact hge
  all_goals
    unfold Flow.data
    rw [h]
    exact he

theorem step_exact {f : Flow} {e : StreamEvent} (hf : Balanced f) (he : Exact f)
    (ho : (f.step e).outstanding ≤ maxYamuxWindowSize.toNat) : Exact (f.step e) := by
  unfold Flow.step at ho ⊢
  split_ifs at ho ⊢
  · cases e with
    | op o => exact he.conserves (op_conserves f o)
    | windowUpdate flags increment pendingClose => exact windowUpdate_exact he ho
    | data flags length consumer processed =>
      exact data_exact hf he flags length consumer processed
  · exact he

/-- A DATA frame of at least one byte whose flags and length are accepted, all
of whose bytes its consumer takes. -/
def HandsOn (f : Flow) : StreamEvent → Prop
  | .data flags length _ processed =>
    f.alive = true ∧ 0 < length ∧ flagsRefused flags f.stream = false ∧
      flagsFree flags f.stream = false ∧ length ≤ f.stream.recvWindow.toNat ∧ processed = length
  | _ => False

theorem handsOn_restores {f : Flow} {e : StreamEvent} (hf : Balanced f) (h : HandsOn f e)
    (ha : (f.step e).alive = true) :
    (f.step e).stream.recvWindow = maxWindow ∧
      announced (f.step e).out = (f.step e).admitted := by
  have hm : maxWindow.toNat = maxStreamWindowSize := rfl
  suffices hw : (f.step e).stream.recvWindow = maxWindow by
    have hr := (step_balanced f e hf).recv
    rw [hw, hm] at hr
    exact ⟨hw, by omega⟩
  match e, h with
  | .data flags length consumer processed, ⟨hal, hpos, hr, hfr, hl, hp⟩ =>
    obtain ⟨hr', -⟩ | ⟨-, hf', -⟩ | ⟨-, -, hl', -⟩ | ⟨-, -, -, st, h⟩ :=
      admitData_cases flags length f.stream
    · simp [hr] at hr'
    · simp [hfr] at hf'
    · omega
    · have hcons := foldl_op_conserves (f.takeIn length
        { f.stream with state := st, recvWindow := f.stream.recvWindow - .ofNat length }) consumer
      have hg := (takeIn_balanced hf st hl).conserves hcons
      simp only [Flow.step, hal, if_true, data_admitted h] at ha ⊢
      split_ifs at ha ⊢ with halive
      · obtain ⟨-, -, ⟨hw, -, hne | hz | hmax⟩ | ⟨hw, -⟩⟩ := settle_cases hg.recvCap processed length
        · exact absurd hp hne
        · omega
        · rw [hw]; exact hmax
        · exact hw
      · exact absurd ha halive

/-- The peer sends a DATA frame only as far as the announced credit goes. -/
def WithinCredit (f : Flow) : StreamEvent → Prop
  | .data _ length _ _ => f.received + length ≤ initialSendWindow.toNat + announced f.out
  | _ => True

def WindowExceeded (f : Flow) : StreamEvent → Prop
  | .data flags length _ _ => ∃ s, admitData flags length f.stream = .exceeded s
  | _ => False

theorem not_exceeded {f : Flow} (hf : Balanced f) {e : StreamEvent} (h : WithinCredit f e) :
    ¬ WindowExceeded f e := by
  cases e with
  | op o => exact id
  | windowUpdate flags increment pendingClose => exact id
  | data flags length consumer processed =>
    rintro ⟨s, hs⟩
    have hi : initialSendWindow.toNat ≤ maxStreamWindowSize := by decide
    have hl : length ≤ f.stream.recvWindow.toNat := by
      have hr := hf.recv
      have ha := hf.arrive
      change f.received + length ≤ _ at h
      omega
    obtain ⟨-, h'⟩ | ⟨-, -, st, h'⟩ | ⟨-, -, hl', -⟩ | ⟨-, -, -, st, h'⟩ :=
      admitData_cases flags length f.stream
    · rw [hs] at h'; contradiction
    · rw [hs] at h'; contradiction
    · omega
    · rw [hs] at h'; contradiction

/-- Flow control over a whole run of one stream, in both directions. -/
theorem flow_control_respected (id : ℕ) (st : TcpMuxState) (es : List StreamEvent) :
    Always Flow.step (fun f ↦ f.stream.sendWindow ≤ maxYamuxWindowSize ∧
      (∀ src, (tmuxStreamWrite f.stream src).stream.sendWindow.toNat +
        sent (tmuxStreamWrite f.stream src).out = f.stream.sendWindow.toNat) ∧
      sent f.out ≤ initialSendWindow.toNat + f.granted ∧ f.granted ≤ f.offered)
      (.start id st) es ∧
    (Always Flow.step (fun f ↦ f.outstanding ≤ maxYamuxWindowSize.toNat) (.start id st) es →
      Always Flow.step Exact (.start id st) es) ∧
    Along Flow.step (fun f e ↦ HandsOn f e → (f.step e).alive = true →
      (f.step e).stream.recvWindow = maxWindow ∧
        announced (f.step e).out = (f.step e).admitted) (.start id st) es ∧
    Along Flow.step (fun f e ↦ WithinCredit f e → ¬ WindowExceeded f e) (.start id st) es := by
  have hbal : Always Flow.step Balanced (.start id st) es :=
    always_of_step (fun f e hf ↦ step_balanced f e hf) (start_balanced id st) es
  refine ⟨hbal.mono fun f hf ↦ ?_, fun ho ↦ ?_, ?_, ?_⟩
  · have hd := hf.debit
    exact ⟨hf.cap, tmuxStreamWrite_debit f.stream, by omega, hf.offer⟩
  · have hboth : Always Flow.step (fun f ↦ Balanced f ∧ Exact f) (.start id st) es :=
      always_of_along (fun f e hf hc ↦ ⟨step_balanced f e hf.1, step_exact hf.1 hf.2 hc⟩)
        ⟨start_balanced id st, rfl⟩ ho.along
    exact hboth.mono fun f hf ↦ hf.2
  · exact hbal.each fun f e hf h ha ↦ handsOn_restores hf h ha
  · exact hbal.each fun f e hf h ↦ not_exceeded hf h

instance (f : Flow) : Decidable (Exact f) := inferInstanceAs (Decidable (_ = _))

instance (f : Flow) (e : StreamEvent) : Decidable (HandsOn f e) :=
  match e with
  | .data .. => inferInstanceAs (Decidable (_ ∧ _ ∧ _ ∧ _ ∧ _ ∧ _))
  | .op _ => isFalse id
  | .windowUpdate .. => isFalse id

/-- Five bytes out, a credit of seven, three bytes in. -/
def sampleRun : List StreamEvent :=
  [.op (.write [1, 2, 3, 4, 5]), .windowUpdate 0 7 false, .data 0 3 [] 3]

theorem flow_control_sampleRun :
    Always Flow.step Exact (.start 1 .init) sampleRun ∧
      ((sampleRun.foldl Flow.step (.start 1 .init)).outstanding = 262146 ∧
        (sampleRun.foldl Flow.step (.start 1 .init)).alive = true) := by
  obtain ⟨-, hexact, -, -⟩ := flow_control_respected 1 .init sampleRun
  exact ⟨hexact (by decide), by decide, by decide⟩

/-- A WINDOW_UPDATE that carries SYN is dropped with its increment, and a DATA
frame that repeats FIN is refused with its payload: neither total then counts
everything the peer has sent. -/
theorem flow_control_not_of_all_frames :
    ¬ (∀ id st es, Always Flow.step (fun f ↦ initialSendWindow.toNat + f.offered - sent f.out ≤
        maxYamuxWindowSize.toNat) (.start id st) es →
      Always Flow.step (fun f ↦ f.stream.sendWindow.toNat + sent f.out =
        initialSendWindow.toNat + f.offered) (.start id st) es) ∧
    ¬ (∀ id st es, Along Flow.step (fun f e ↦ HandsOn f e → (f.step e).alive = true →
      announced (f.step e).out = (f.step e).received) (.start id st) es) := by
  refine ⟨fun h ↦ ?_, fun h ↦ ?_⟩
  · have hw := h 1 .init [.windowUpdate TcpMuxFlag.syn.mask 5 false]
    revert hw
    decide
  · have hw := h 1 .established [.data TcpMuxFlag.fin.mask 3 [] 3,
      .data TcpMuxFlag.fin.mask 3 [] 3, .data 0 3 [] 3]
    revert hw
    decide

end Xfrpc.Mux.FlowControl
