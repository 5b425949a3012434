import Mathlib.Data.Int.Notation
import Xfrpc.Mux.Header

namespace Xfrpc.Mux.Stream

open Header

inductive TcpMuxState
  | init | synSend | synReceived | established | localClose | remoteClose | closed | reset
  deriving DecidableEq, Repr

structure TmuxStream where
  id : ℕ
  recvWindow : UInt32
  sendWindow : UInt32
  state : TcpMuxState
  v2MagicSent : Bool
  v2MagicSeen : Bool
  v2Rx : Bytes
  deriving DecidableEq, Repr

def maxWindow : UInt32 := .ofNat maxStreamWindowSize
def maxYamuxWindowSize : UInt32 := 6 * 1024 * 1024
def initialSendWindow : UInt32 := 256 * 1024

def initTmuxStream (id : ℕ) (state : TcpMuxState) : TmuxStream :=
  { id, state
    recvWindow := maxWindow
    sendWindow := initialSendWindow
    v2MagicSent := false
    v2MagicSeen := false
    v2Rx := [] }

/-- How `process_flags` ends: it reports an error, or it succeeds and keeps
the stream, or it succeeds after `del_proxy_client_by_stream_id`. -/
inductive FlagsOutcome
  | error (s : TmuxStream)
  | kept (s : TmuxStream)
  | freed (s : TmuxStream)
  deriving DecidableEq, Repr

def processRst (flags : ℕ) (s : TmuxStream) (shouldClose : Bool) : FlagsOutcome :=
  if hasFlag flags .rst then .freed { s with state := .reset }
  else if shouldClose then .freed s
  else .kept s

def processAck (flags : ℕ) (s : TmuxStream) : TmuxStream :=
  if hasFlag flags .ack && s.state == .synSend then { s with state := .established } else s

def processFlags (flags : ℕ) (s₀ : TmuxStream) : FlagsOutcome :=
  let s := processAck flags s₀
  if hasFlag flags .fin then
    match s.state with
    | .synSend | .synReceived | .established =>
      processRst flags { s with state := .remoteClose } false
    | .localClose => processRst flags { s with state := .closed } true
    | .init => processRst flags { s with state := .reset } true
    | .closed | .reset => .kept s
    | .remoteClose => .error s
  else processRst flags s false

def getSendFlags (s : TmuxStream) : ℕ × TmuxStream :=
  match s.state with
  | .init => (TcpMuxFlag.syn.mask, { s with state := .synSend })
  | .synReceived => (TcpMuxFlag.ack.mask, { s with state := .established })
  | _ => (0, s)

def tcpMuxSendWinUpdate (flags streamId delta : ℕ) : Frame :=
  { header := tcpMuxEncode .windowUpdate flags streamId delta, payload := [] }

def tcpMuxSendWinUpdateRst (streamId : ℕ) : Frame :=
  tcpMuxSendWinUpdate TcpMuxFlag.rst.mask streamId 0

def protoErr : ℕ := 1

def tcpMuxSendGoAway (reason : ℕ) : Frame :=
  { header := tcpMuxEncode .goAway 0 0 reason, payload := [] }

def sendWindowUpdate (s : TmuxStream) (length : ℕ) : TmuxStream × List Frame :=
  if length = 0 then
    let (flags, s') := getSendFlags s
    (s', if flags ≠ 0 then [tcpMuxSendWinUpdate flags s.id 0] else [])
  else
    let delta := if s.recvWindow < maxWindow then maxWindow - s.recvWindow else 0
    if delta = 0 then (s, [])
    else
      let (flags, s') := getSendFlags s
      ({ s' with recvWindow := maxWindow }, [tcpMuxSendWinUpdate flags s.id delta.toNat])

/-- The states in which `tmux_stream_write` refuses to write. -/
def TcpMuxState.writeClosed : TcpMuxState → Bool
  | .localClose | .closed | .reset => true
  | _ => false

structure WriteResult where
  ret : ℤ
  stream : TmuxStream
  src : Bytes
  out : List Frame
  deriving DecidableEq, Repr

/-- `tmux_stream_write` on a present output buffer with allocation
succeeding; `size_t` has 32 bits on the target, so the cast is exact. -/
def tmuxStreamWrite (s : TmuxStream) (src : Bytes) : WriteResult :=
  if s.state.writeClosed then ⟨-1, s, src, []⟩
  else if src.length = 0 then ⟨0, s, src, []⟩
  else if s.sendWindow = 0 then ⟨0, s, src, []⟩
  else
    let (flags, s') := getSendFlags s
    let toSend := min (min src.length s.sendWindow.toNat) defaultMaxFrameSize
    { ret := toSend
      stream := { s' with sendWindow := s.sendWindow - .ofNat toSend }
      src := src.drop toSend
      out := [{ header := tcpMuxEncode .tmuxData flags s.id toSend, payload := src.take toSend }] }

/-- What `tmux_stream_close` leaves: the stream, what it wrote, and whether
it removed the proxy client. -/
structure CloseResult where
  stream : TmuxStream
  out : List Frame
  freed : Bool
  deriving DecidableEq, Repr

def tmuxStreamClose (s : TmuxStream) : CloseResult :=
  match s.state with
  | .synSend | .synReceived | .established =>
    ⟨{ s with state := .localClose }, [tcpMuxSendWinUpdate TcpMuxFlag.fin.mask s.id 0], false⟩
  | .localClose | .remoteClose =>
    ⟨{ s with state := .closed }, [tcpMuxSendWinUpdate TcpMuxFlag.fin.mask s.id 0], true⟩
  | .closed | .reset | .init => ⟨s, [], false⟩

/-- The new send window of `incr_send_window`: capped at 8 MiB, then at 6 MiB. -/
def addCredit (window : UInt32) (increment : ℕ) : UInt32 :=
  let w := if window.toNat > maxStreamWindowSize - increment then maxWindow
    else window + .ofNat increment
  if w > maxYamuxWindowSize then maxYamuxWindowSize else w

inductive CreditOutcome
  | error (s : TmuxStream)
  | freed (s : TmuxStream)
  | credited (oldWindow : UInt32) (s : TmuxStream)
  deriving DecidableEq, Repr

/-- `incr_send_window` up to the point where it looks for the proxy client. -/
def creditSendWindow (flags increment : ℕ) (s : TmuxStream) : CreditOutcome :=
  match processFlags flags s with
  | .error s => .error s
  | .freed s => .freed s
  | .kept s =>
    if increment > maxStreamWindowSize then .error s
    else .credited s.sendWindow { s with sendWindow := addCredit s.sendWindow increment }

inductive DataGate
  | refused (s : TmuxStream)
  | freed (s : TmuxStream)
  | exceeded (s : TmuxStream)
  | admitted (s : TmuxStream)
  deriving DecidableEq, Repr

/-- `process_data` up to the point where it chooses a consumer. -/
def admitData (flags length : ℕ) (s : TmuxStream) : DataGate :=
  match processFlags flags s with
  | .error s => .refused s
  | .freed s => .freed s
  | .kept s =>
    if length > s.recvWindow.toNat then .exceeded s
    else .admitted { s with recvWindow := s.recvWindow - .ofNat length }

/-- The end of `process_data`, after the consumer took `processed` bytes. -/
def settleData (processed length : ℕ) (s : TmuxStream) : TmuxStream × List Frame :=
  if processed ≠ length then ({ s with state := .localClose }, [tcpMuxSendWinUpdateRst s.id])
  else sendWindowUpdate s processed

/-- The state before and the flags for which `process_flags` reports an error. -/
def flagsRefused (flags : ℕ) (s : TmuxStream) : Bool :=
  hasFlag flags .fin && s.state == .remoteClose

/-- The state before and the flags for which `process_flags` removes the stream. -/
def flagsFree (flags : ℕ) (s : TmuxStream) : Bool :=
  match s.state with
  | .closed | .reset => hasFlag flags .rst && !hasFlag flags .fin
  | .localClose | .init => hasFlag flags .rst || hasFlag flags .fin
  | .remoteClose => hasFlag flags .rst && !hasFlag flags .fin
  | .synSend | .synReceived | .established => hasFlag flags .rst

theorem processFlags_outcome (flags : ℕ) (s : TmuxStream) :
    (flagsRefused flags s = true ∧ processFlags flags s = .error s) ∨
    (flagsRefused flags s = false ∧ flagsFree flags s = true ∧
      ∃ st, processFlags flags s = .freed { s with state := st }) ∨
    (flagsRefused flags s = false ∧ flagsFree flags s = false ∧
      ∃ st, processFlags flags s = .kept { s with state := st }) := by
  obtain ⟨id, rw, sw, st, ms, mn, rx⟩ := s
  cases st <;> cases ha : hasFlag flags .ack <;> cases hf : hasFlag flags .fin <;>
    cases hr : hasFlag flags .rst <;>
    simp [processFlags, processAck, processRst, flagsRefused, flagsFree, ha, hf, hr]

theorem getSendFlags_cases (s : TmuxStream) :
    ∃ flags st, getSendFlags s = (flags, { s with state := st }) ∧
      (s.state ≠ .init → st ≠ .init) ∧ (st.writeClosed = s.state.writeClosed) := by
  obtain ⟨id, rw, sw, st, ms, mn, rx⟩ := s
  cases st <;> exact ⟨_, _, rfl, by simp, rfl⟩

theorem toNat_sub_ofNat {w : UInt32} {n : ℕ} (h : n ≤ w.toNat) :
    (w - UInt32.ofNat n).toNat = w.toNat - n := by
  have hn : (UInt32.ofNat n).toNat = n :=
    UInt32.toNat_ofNat_of_lt' (Nat.lt_of_le_of_lt h w.toNat_lt)
  have hle : UInt32.ofNat n ≤ w := by rw [UInt32.le_iff_toNat_le, hn]; exact h
  rw [UInt32.toNat_sub_of_le _ _ hle, hn]

theorem addCredit_toNat {w : UInt32} {inc : ℕ} (h : inc ≤ maxStreamWindowSize) :
    (addCredit w inc).toNat = min (w.toNat + inc) maxYamuxWindowSize.toNat := by
  have hm : maxWindow.toNat = 8388608 := rfl
  have hy : maxYamuxWindowSize.toNat = 6291456 := rfl
  have hs : maxStreamWindowSize = 8388608 := rfl
  have hz : UInt32.size = 4294967296 := rfl
  have hi : (UInt32.ofNat inc).toNat = inc := UInt32.toNat_ofNat_of_lt' (by omega)
  unfold addCredit
  simp only [gt_iff_lt, UInt32.lt_iff_toNat_lt, hs]
  by_cases hw : 8388608 - inc < w.toNat
  · simp only [hw, if_true, hm, hy]
    rw [if_pos (by omega), hy]
    omega
  · have ha : (w + UInt32.ofNat inc).toNat = w.toNat + inc := by
      rw [UInt32.toNat_add, hi]
      omega
    simp only [hw, if_false, ha, hy]
    by_cases hc : 6291456 < w.toNat + inc
    · rw [if_pos hc, hy]
      omega
    · rw [if_neg hc, ha]
      omega

theorem tmuxStreamWrite_cases (s : TmuxStream) (src : Bytes) :
    (tmuxStreamWrite s src = ⟨if s.state.writeClosed then -1 else 0, s, src, []⟩ ∧
      (s.state.writeClosed = true ∨ src = [] ∨ s.sendWindow = 0)) ∨
    ∃ n flags st, n = min (min src.length s.sendWindow.toNat) defaultMaxFrameSize ∧ 0 < n ∧
      s.state.writeClosed = false ∧ st.writeClosed = false ∧
      tmuxStreamWrite s src = ⟨n, { s with state := st, sendWindow := s.sendWindow - .ofNat n },
        src.drop n, [⟨tcpMuxEncode .tmuxData flags s.id n, src.take n⟩]⟩ := by
  unfold tmuxStreamWrite
  by_cases hc : s.state.writeClosed = true
  · exact .inl ⟨by simp [hc], .inl hc⟩
  by_cases hl : src.length = 0
  · exact .inl ⟨by simp [hc, hl], .inr (.inl (List.length_eq_zero_iff.mp hl))⟩
  by_cases hw : s.sendWindow = 0
  · exact .inl ⟨by simp [hc, hw], .inr (.inr hw)⟩
  obtain ⟨flags, st, hf, -, hst⟩ := getSendFlags_cases s
  have hpos : 0 < s.sendWindow.toNat := by
    have hne : s.sendWindow.toNat ≠ 0 := fun h ↦ hw (UInt32.toNat_inj.mp h)
    omega
  refine .inr ⟨_, flags, st, rfl, ?_, by simpa using hc, by simpa [hst] using hc, ?_⟩
  · have hd : 0 < defaultMaxFrameSize := by decide
    omega
  · simp only [hc, hl, hw, hf, if_false]
    rfl

theorem creditSendWindow_cases (flags increment : ℕ) (s : TmuxStream) :
    (flagsRefused flags s = true ∧ creditSendWindow flags increment s = .error s) ∨
    (flagsRefused flags s = false ∧ flagsFree flags s = true ∧
      ∃ st, creditSendWindow flags increment s = .freed { s with state := st }) ∨
    (flagsRefused flags s = false ∧ flagsFree flags s = false ∧ maxStreamWindowSize < increment ∧
      ∃ st, creditSendWindow flags increment s = .error { s with state := st }) ∨
    (flagsRefused flags s = false ∧ flagsFree flags s = false ∧ increment ≤ maxStreamWindowSize ∧
      ∃ st, creditSendWindow flags increment s = .credited s.sendWindow
        { s with state := st, sendWindow := addCredit s.sendWindow increment }) := by
  unfold creditSendWindow
  obtain ⟨hr, h⟩ | ⟨hr, hf, st, h⟩ | ⟨hr, hf, st, h⟩ := processFlags_outcome flags s
  · exact .inl ⟨hr, by rw [h]⟩
  · exact .inr (.inl ⟨hr, hf, st, by rw [h]⟩)
  · by_cases hi : maxStreamWindowSize < increment
    · refine .inr (.inr (.inl ⟨hr, hf, hi, st, ?_⟩))
      rw [h]
      exact if_pos hi
    · refine .inr (.inr (.inr ⟨hr, hf, Nat.le_of_not_lt hi, st, ?_⟩))
      rw [h]
      exact if_neg hi

theorem admitData_cases (flags length : ℕ) (s : TmuxStream) :
    (flagsRefused flags s = true ∧ admitData flags length s = .refused s) ∨
    (flagsRefused flags s = false ∧ flagsFree flags s = true ∧
      ∃ st, admitData flags length s = .freed { s with state := st }) ∨
    (flagsRefused flags s = false ∧ flagsFree flags s = false ∧ s.recvWindow.toNat < length ∧
      ∃ st, admitData flags length s = .exceeded { s with state := st }) ∨
    (flagsRefused flags s = false ∧ flagsFree flags s = false ∧ length ≤ s.recvWindow.toNat ∧
      ∃ st, admitData flags length s = .admitted
        { s with state := st, recvWindow := s.recvWindow - .ofNat length }) := by
  unfold admitData
  obtain ⟨hr, h⟩ | ⟨hr, hf, st, h⟩ | ⟨hr, hf, st, h⟩ := processFlags_outcome flags s
  · exact .inl ⟨hr, by rw [h]⟩
  · exact .inr (.inl ⟨hr, hf, st, by rw [h]⟩)
  · by_cases hl : s.recvWindow.toNat < length
    · refine .inr (.inr (.inl ⟨hr, hf, hl, st, ?_⟩))
      rw [h]
      exact if_pos hl
    · refine .inr (.inr (.inr ⟨hr, hf, Nat.le_of_not_lt hl, st, ?_⟩))
      rw [h]
      exact if_neg hl

theorem sendWindowUpdate_cases {s : TmuxStream} (length : ℕ)
    (hw : s.recvWindow.toNat ≤ maxStreamWindowSize) :
    (∃ st out, sendWindowUpdate s length = ({ s with state := st }, out) ∧
      (out = [] ∨ ∃ flags, out = [tcpMuxSendWinUpdate flags s.id 0]) ∧
      (length = 0 ∨ s.recvWindow = maxWindow)) ∨
    ∃ st flags, sendWindowUpdate s length = ({ s with state := st, recvWindow := maxWindow },
      [tcpMuxSendWinUpdate flags s.id (maxStreamWindowSize - s.recvWindow.toNat)]) := by
  have hm : maxWindow.toNat = maxStreamWindowSize := rfl
  obtain ⟨flags, st, hf, -, -⟩ := getSendFlags_cases s
  unfold sendWindowUpdate
  by_cases hl : length = 0
  · rw [if_pos hl, hf]
    by_cases hz : flags = 0
    · exact .inl ⟨st, [], by simp [hz], .inl rfl, .inl hl⟩
    · exact .inl ⟨st, _, by simp [hz], .inr ⟨flags, rfl⟩, .inl hl⟩
  · rw [if_neg hl, hf]
    by_cases hlt : s.recvWindow < maxWindow
    · have hle : s.recvWindow ≤ maxWindow := UInt32.le_of_lt hlt
      have hd : (maxWindow - s.recvWindow).toNat = maxStreamWindowSize - s.recvWindow.toNat := by
        rw [UInt32.toNat_sub_of_le _ _ hle, hm]
      have hne : maxWindow - s.recvWindow ≠ 0 := by
        intro h
        have hlt' := UInt32.lt_iff_toNat_lt.mp hlt
        have h0 : (maxWindow - s.recvWindow).toNat = 0 := by rw [h]; rfl
        omega
      refine .inr ⟨st, flags, ?_⟩
      simp only [if_pos hlt, if_neg hne, hd]
    · have he : s.recvWindow = maxWindow := by
        have hge := UInt32.not_lt.mp hlt
        exact UInt32.le_antisymm (UInt32.le_iff_toNat_le.mpr hw) hge
      refine .inl ⟨s.state, [], ?_, .inl rfl, .inr he⟩
      simp [hlt]

end Xfrpc.Mux.Stream
