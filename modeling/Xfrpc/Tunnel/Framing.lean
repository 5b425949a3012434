import Xfrpc.Tunnel.Session

namespace Xfrpc.Tunnel.Framing

open Client Closing Control.Message Foundations.Runs Lifetime Mux.Demux Mux.Header Mux.Stream
  Service Session StartWork

variable {E : Env} {C : Control}

/-- The frames whose payload `process_data` leaves in the input: those it turns
down, and those of an established socks5 client without a local connection. -/
def leaves (t : Conn) (flags : ℕ) (payload : Bytes) : Bool :=
  flagsRefused flags t.life.stream || flagsFree flags t.life.stream ||
    decide (t.life.stream.recvWindow.toNat < payload.length) ||
    (decide (t.owner = .client) && isSocks5Proxy t.client.ps && !hasServiceType t.client.ps &&
      decide (t.client.state = .established) && t.client.localProxyBev.isNone)

/-- The reader with the header of its frame read. -/
def headerRead (s : Reader Streams) : Reader Streams :=
  match s.curStream with
  | .null => (readHeader s).reader
  | _ => s

theorem handleSocks5_drained (t : Conn) (payload : Bytes) :
    (handleSocks5 E t payload).2 =
      !(decide (t.client.state = .established) && t.client.localProxyBev.isNone) := by
  unfold handleSocks5
  split_ifs with h
  · cases hb : t.client.localProxyBev <;> simp [h]
  · simp [h]

theorem dispatchClient_drained (t : Conn) (payload : Bytes) :
    (dispatchClient E t payload).2 =
      !(isSocks5Proxy t.client.ps && !hasServiceType t.client.ps &&
        decide (t.client.state = .established) && t.client.localProxyBev.isNone) := by
  unfold dispatchClient
  by_cases hd : defaultPath t.client = true
  · rw [if_pos hd]
    simp only [defaultPath, Bool.and_eq_true, Bool.not_eq_true'] at hd
    simp [hd.1.2]
  rw [if_neg hd]
  cases hps : t.client.ps with
  | none => rfl
  | some ps =>
    dsimp only
    by_cases hs : hasServiceType (some ps) = true
    · simp [hs]
    rw [if_neg hs]
    by_cases h5 : isSocks5Proxy (some ps) = true
    · rw [if_pos h5, handleSocks5_drained]
      simp [hs, h5]
    · rw [if_neg h5]
      split_ifs <;> simp [h5]

theorem processData_drained (t : Conn) (flags : ℕ) (payload : Bytes) (replies : List Bytes) :
    (processData E t flags payload replies).2 = !leaves t flags payload := by
  obtain ⟨hr, hp⟩ | ⟨-, hf, st, -, hp⟩ | ⟨hr, hf, st, -, ⟨hw, hp⟩ | ⟨hw, t₁, ht₁, hp⟩⟩ :=
    processData_cases (E := E) t flags payload replies
  · simp [hp, leaves, hr]
  · simp [hp, leaves, hf]
  · simp [hp, leaves, hw]
  · have howner : t₁.owner = t.owner := by rw [ht₁]; rfl
    have hclient : t₁.client = t.client := by rw [ht₁]; rfl
    rw [hp]
    unfold dispatch
    cases ho : t.owner with
    | control =>
      rw [howner, ho]
      simp [leaves, hr, hf, ho, Nat.not_lt.mpr hw]
    | client =>
      rw [howner, ho]
      dsimp only
      rw [dispatchClient_drained, hclient]
      simp [leaves, hr, hf, ho, Nat.not_lt.mpr hw]

theorem muxEnv_processData_input {s : Streams} {id : ℕ} {t : Conn} (h : s id = some t)
    (payload rest : Bytes) (flags : ℕ) :
    ((muxEnv E C).processData s (payload ++ rest) id payload.length flags).2 =
      if leaves t flags payload then payload ++ rest else rest := by
  simp only [muxEnv, h, List.take_left', processData_drained]
  cases leaves t flags payload <;> simp

theorem calls_ne {l : List MuxCall} {c : MuxCall} (h : l = l ++ [c]) : False := by
  have hlen := congrArg List.length h
  simp at hlen

theorem consume_dispatched {s s' : Reader Streams} {cur : CurStream} {id length flags : ℕ}
    {payload : Bytes} (hc : consume (muxEnv E C) s cur = .next s')
    (hcall : s'.calls = s.calls ++ [.processData id length flags payload]) :
    s'.input = ((muxEnv E C).processData s.env s.input id length flags).2 ∧ 0 < length := by
  unfold consume at hc
  dsimp only at hc
  by_cases hd : (TcpMuxHeader.decode s.tmuxHdr).type = TcpMuxType.tmuxData.code ∧ 0 < s.streamLen
  · rw [if_pos hd] at hc
    cases cur with
    | null => cases hc
    | abandon =>
      dsimp only at hc
      split_ifs at hc
      · cases hc
        exact (calls_ne hcall).elim
      · cases hc
        exact (calls_ne hcall).elim
    | stream k =>
      dsimp only at hc
      split_ifs at hc
      · cases hc
        have heq := List.append_cancel_left hcall
        simp only [List.cons.injEq, MuxCall.processData.injEq, and_true] at heq
        obtain ⟨rfl, rfl, rfl, -⟩ := heq
        exact ⟨rfl, hd.2⟩
  · rw [if_neg hd] at hc
    split_ifs at hc
    · cases hc
      exact absurd (List.append_cancel_left hcall) (by simp)
    · cases hc
      exact absurd (List.append_cancel_left hcall) (by simp)
    · cases hc
      exact absurd (List.append_cancel_left hcall) (by simp)

theorem readHeader_same (s : Reader Streams) :
    (readHeader s).reader.env = s.env ∧ (readHeader s).reader.calls = s.calls := by
  unfold readHeader
  dsimp only
  split_ifs <;> exact ⟨rfl, rfl⟩

theorem afterHeader_dispatched {s s' : Reader Streams} {id length flags : ℕ} {payload : Bytes}
    (hc : afterHeader (muxEnv E C) s = .next s')
    (hcall : s'.calls = s.calls ++ [.processData id length flags payload]) :
    s'.input = ((muxEnv E C).processData s.env s.input id length flags).2 ∧ 0 < length := by
  unfold afterHeader at hc
  dsimp only at hc
  split_ifs at hc
  · have hin := consume_dispatched hc hcall
    exact hin
  · have hin := consume_dispatched hc hcall
    exact hin
  · cases hc
    exact (calls_ne hcall).elim
  · exact consume_dispatched hc hcall

theorem iteration_dispatched {s s' : Reader Streams} {id length flags : ℕ} {payload : Bytes}
    (hit : iteration (muxEnv E C) s = .next s')
    (hcall : s'.calls = s.calls ++ [.processData id length flags payload]) :
    s'.input = ((muxEnv E C).processData s.env (headerRead s).input id length flags).2 ∧
      0 < length := by
  unfold iteration at hit
  unfold headerRead
  cases hcur : s.curStream with
  | null =>
    rw [hcur] at hit
    obtain ⟨henv, hcalls⟩ := readHeader_same s
    cases hr : readHeader s with
    | stop s₁ =>
      rw [hr] at hit
      cases hit
    | next s₁ =>
      rw [hr] at hit henv hcalls
      have henv' : s₁.env = s.env := henv
      have hcalls' : s₁.calls = s.calls := hcalls
      rw [← hcalls'] at hcall
      rw [← henv']
      exact afterHeader_dispatched hit hcall
  | abandon =>
    rw [hcur] at hit
    exact consume_dispatched hit hcall
  | stream k =>
    rw [hcur] at hit
    exact consume_dispatched hit hcall

/-- An iteration of `handle_tcp_mux` that dispatches a frame which is all there
takes exactly its payload out of the input, unless `process_data` leaves it. -/
theorem payload_taken_iff {s s' : Reader Streams} {id flags : ℕ} {payload rest : Bytes} {t : Conn}
    (hit : iteration (muxEnv E C) s = .next s')
    (hcall : s'.calls = s.calls ++ [.processData id payload.length flags payload])
    (hin : (headerRead s).input = payload ++ rest) (ht : s.env id = some t) :
    s'.input = rest ↔ leaves t flags payload = false := by
  obtain ⟨hs', hpos⟩ := iteration_dispatched hit hcall
  rw [hs', hin, muxEnv_processData_input ht]
  cases leaves t flags payload with
  | false => simp
  | true =>
    have hne : payload ++ rest ≠ rest := by
      intro h
      have hlen := congrArg List.length h
      rw [List.length_append] at hlen
      omega
    simp [hne]

/-- The reader of a new session at the first turn of its loop, in front of a data
frame of one byte on the control stream and one byte more. -/
def firstFrame (flags : ℕ) : Reader Streams :=
  { Reader.start (Streams.start 1 []) with
    input := Frame.bytes ⟨tcpMuxEncode .tmuxData flags 1 1, [9]⟩ ++ [7], len := 14 }

theorem payload_taken_firstFrame :
    (iteration (muxEnv (sampleEnv samplePs true) sampleControl) (firstFrame 0)).reader.input =
      [7] := by
  have hit : iteration (muxEnv (sampleEnv samplePs true) sampleControl) (firstFrame 0) =
      .next (iteration (muxEnv (sampleEnv samplePs true) sampleControl) (firstFrame 0)).reader :=
    rfl
  have hin : (headerRead (firstFrame 0)).input = [9] ++ [7] := by decide
  have ht : (firstFrame 0).env 1 = some (.start .control 1 []) := rfl
  refine (payload_taken_iff hit (show _ = _ ++ [MuxCall.processData 1 1 0 [9]] from ?_) hin ht).mpr ?_
  · decide
  · decide

/-- With RST the stream is removed and the payload stays in front of the next header. -/
theorem payload_left_rst :
    let s' := (iteration (muxEnv (sampleEnv samplePs true) sampleControl)
      (firstFrame TcpMuxFlag.rst.mask)).reader
    s'.calls = [.processData 1 1 TcpMuxFlag.rst.mask [9]] ∧
      (headerRead (firstFrame TcpMuxFlag.rst.mask)).input = [9] ++ [7] ∧ s'.input ≠ [7] := by
  decide

end Xfrpc.Tunnel.Framing
