import Xfrpc.Mux.Stream

namespace Xfrpc.Tunnel.Lifetime

open Mux.Header Mux.Stream

/-- A stream of the client: the record, whether it is still registered, and the
frames written for it. The code does not keep `peerReset`, which says that an RST
of the peer has been processed. -/
structure Life where
  stream : TmuxStream
  alive : Bool
  out : List Frame
  peerReset : Bool
  deriving DecidableEq, Repr

inductive WriteEnd
  | done | blocked | failed
  deriving DecidableEq, Repr

/-- One `tmux_stream_write` of a buffer that is thrown away afterwards. -/
def Life.write (l : Life) (src : Bytes) : Life :=
  let r := tmuxStreamWrite l.stream src
  { l with stream := r.stream, out := l.out ++ r.out }

/-- `tmux_stream_write` again and again until the buffer is empty or the stream
takes no more. A turn that goes on has written a byte. -/
def Life.writeLoop : ℕ → Life → Bytes → Life × Bytes × WriteEnd
  | 0, l, src => (l, src, .done)
  | fuel + 1, l, src =>
    if src = [] then (l, [], .done)
    else
      let r := tmuxStreamWrite l.stream src
      let l' := { l with stream := r.stream, out := l.out ++ r.out }
      if r.ret < 0 then (l', r.src, .failed)
      else if r.ret = 0 then (l', r.src, .blocked)
      else writeLoop fuel l' r.src

def Life.writeAll (l : Life) (src : Bytes) : Life × Bytes × WriteEnd :=
  l.writeLoop (src.length + 1) src

/-- `del_proxy_client_by_stream_id`. -/
def Life.delete (l : Life) : Life := { l with alive := false }

def Life.close (l : Life) : Life :=
  let r := tmuxStreamClose l.stream
  { l with stream := r.stream, alive := l.alive && !r.freed, out := l.out ++ r.out }

/-- `process_flags` has removed the stream. -/
def Life.freed (l : Life) (flags : ℕ) (s : TmuxStream) : Life :=
  { l with stream := s, alive := false, peerReset := l.peerReset || hasFlag flags .rst }

/-- The end of `process_data`. -/
def Life.settle (l : Life) (length : ℕ) : Life :=
  let (s, out) := settleData length length l.stream
  { l with stream := s, out := l.out ++ out }

structure DataFrame (id : ℕ) (f : Frame) : Prop where
  data : f.isData = true
  syn : hasFlag f.header.flags .syn = false
  fin : hasFlag f.header.flags .fin = false
  rst : hasFlag f.header.flags .rst = false
  streamId : f.header.streamId = id

/-- What writing may do to a stream that is past its SYN: some data frames with
the bytes `b` go out, and the window shrinks by as much. -/
structure Wrote (l l' : Life) (b : Bytes) : Prop where
  alive : l'.alive = l.alive
  peerReset : l'.peerReset = l.peerReset
  out : ∃ frames, l'.out = l.out ++ frames ∧ dataBytes frames = b ∧
    (∀ f ∈ frames, DataFrame l.stream.id f) ∧ (frames ≠ [] → l.stream.state.writeClosed = false)
  stream : ∃ st, l'.stream = { l.stream with state := st, sendWindow := l'.stream.sendWindow } ∧
    st ≠ .init ∧ st.writeClosed = l.stream.state.writeClosed ∧
    (l.stream.state ≠ .synReceived → st = l.stream.state)
  window : l'.stream.sendWindow.toNat + b.length = l.stream.sendWindow.toNat
  wrote : b ≠ [] → l.stream.state.writeClosed = false
  remote : l'.stream.state = .remoteClose → l.stream.state = .remoteClose

theorem Wrote.refl {l : Life} (h : l.stream.state ≠ .init) : Wrote l l [] := by
  refine ⟨rfl, rfl, ⟨[], by simp, rfl, nofun, nofun⟩, ⟨l.stream.state, rfl, h, rfl, fun _ ↦ rfl⟩,
    rfl, nofun, id⟩

theorem Wrote.state_ne {l l' : Life} {b : Bytes} (h : Wrote l l' b) : l'.stream.state ≠ .init := by
  obtain ⟨st, hs, hne, -⟩ := h.stream
  rw [hs]
  exact hne

theorem Wrote.writeClosed {l l' : Life} {b : Bytes} (h : Wrote l l' b) :
    l'.stream.state.writeClosed = l.stream.state.writeClosed := by
  obtain ⟨st, hs, -, hw, -⟩ := h.stream
  rw [hs]
  exact hw

theorem Wrote.id {l l' : Life} {b : Bytes} (h : Wrote l l' b) : l'.stream.id = l.stream.id := by
  obtain ⟨st, hs, -⟩ := h.stream
  rw [hs]

theorem Wrote.trans {l₁ l₂ l₃ : Life} {b c : Bytes} (h₁ : Wrote l₁ l₂ b) (h₂ : Wrote l₂ l₃ c) :
    Wrote l₁ l₃ (b ++ c) := by
  obtain ⟨fs, ho₁, hb, hf₁, hn₁⟩ := h₁.out
  obtain ⟨gs, ho₂, hc, hf₂, hn₂⟩ := h₂.out
  obtain ⟨st₁, hs₁, hne₁, hw₁, hk₁⟩ := h₁.stream
  obtain ⟨st₂, hs₂, hne₂, hw₂, hk₂⟩ := h₂.stream
  have hst₁ : l₂.stream.state = st₁ := by rw [hs₁]
  refine ⟨h₂.alive.trans h₁.alive, h₂.peerReset.trans h₁.peerReset, ⟨fs ++ gs, ?_, ?_, ?_, ?_⟩,
    ⟨st₂, ?_, hne₂, ?_, ?_⟩, ?_, ?_,
    fun h ↦ h₁.remote (h₂.remote h)⟩
  · rw [ho₂, ho₁, List.append_assoc]
  · rw [dataBytes_append, hb, hc]
  · intro f hf
    rcases List.mem_append.mp hf with hf | hf
    · exact hf₁ f hf
    · rw [← h₁.id]
      exact hf₂ f hf
  · intro hne
    by_cases hfs : fs = []
    · rw [← h₁.writeClosed]
      exact hn₂ fun hgs ↦ hne (by rw [hfs, hgs]; rfl)
    · exact hn₁ hfs
  · rw [hs₂, hs₁]
  · rw [hw₂, hst₁, hw₁]
  · intro hne
    have heq := hk₁ hne
    rw [hst₁] at hk₂
    rw [← heq]
    exact hk₂ (by rw [heq]; exact hne)
  · have hw := h₁.window
    have hw' := h₂.window
    rw [List.length_append]
    omega
  · intro hne
    by_cases hbn : b = []
    · rw [← h₁.writeClosed]
      exact h₂.wrote fun hcn ↦ hne (by rw [hbn, hcn]; rfl)
    · exact h₁.wrote hbn

theorem getSendFlags_past {s : TmuxStream} (h : s.state ≠ .init) :
    ∃ flags st, getSendFlags s = (flags, { s with state := st }) ∧ st ≠ .init ∧
      st.writeClosed = s.state.writeClosed ∧ (s.state ≠ .synReceived → st = s.state) ∧
      (flags = 0 ∨ flags = TcpMuxFlag.ack.mask) ∧ (st = .remoteClose → s.state = .remoteClose) := by
  obtain ⟨id, rw, sw, st, ms, mn, rx⟩ := s
  cases st
  case init => exact absurd rfl h
  case synReceived =>
    exact ⟨_, _, rfl, by decide, rfl, fun h ↦ absurd rfl h, .inr rfl, nofun⟩
  all_goals exact ⟨_, _, rfl, by decide, rfl, fun _ ↦ rfl, .inl rfl, fun h ↦ h⟩

theorem clean_flags {flags : ℕ} (h : flags = 0 ∨ flags = TcpMuxFlag.ack.mask) :
    hasFlag flags .syn = false ∧ hasFlag flags .fin = false ∧ hasFlag flags .rst = false := by
  rcases h with rfl | rfl
  · decide
  · decide

theorem write_cases {l : Life} (h : l.stream.state ≠ .init) (src : Bytes) :
    (l.write src = l ∧ (tmuxStreamWrite l.stream src).src = src ∧
      (tmuxStreamWrite l.stream src).ret = (if l.stream.state.writeClosed then -1 else 0) ∧
      (l.stream.state.writeClosed = true ∨ src = [] ∨ l.stream.sendWindow = 0)) ∨
    ∃ n, 0 < n ∧ n = min (min src.length l.stream.sendWindow.toNat) defaultMaxFrameSize ∧
      (tmuxStreamWrite l.stream src).ret = n ∧ (tmuxStreamWrite l.stream src).src = src.drop n ∧
      Wrote l (l.write src) (src.take n) := by
  obtain ⟨hw, hwhy⟩ | ⟨n, flags', st', hn, hpos, hcl, -, hw⟩ := tmuxStreamWrite_cases l.stream src
  · exact .inl ⟨by simp [Life.write, hw], by rw [hw], by rw [hw], hwhy⟩
  · obtain ⟨flags, st, hf, hne, hst, hkeep, hfl, hrem⟩ := getSendFlags_past h
    have hlen : src.length ≠ 0 := by omega
    have hsw : l.stream.sendWindow ≠ 0 := by
      intro hz
      rw [hz] at hn
      simp at hn
      omega
    have hwrite : tmuxStreamWrite l.stream src = ⟨n,
        { l.stream with state := st, sendWindow := l.stream.sendWindow - .ofNat n }, src.drop n,
        [⟨tcpMuxEncode .tmuxData flags l.stream.id n, src.take n⟩]⟩ := by
      unfold tmuxStreamWrite
      rw [if_neg (by simp [hcl]), if_neg hlen, if_neg hsw, hf, hn]
    have hle : n ≤ l.stream.sendWindow.toNat := by omega
    have htake : (src.take n).length = n := by
      rw [List.length_take]
      omega
    refine .inr ⟨n, hpos, hn, by rw [hwrite], by rw [hwrite], ?_⟩
    refine ⟨rfl, rfl,
      ⟨[⟨tcpMuxEncode .tmuxData flags l.stream.id n, src.take n⟩], ?_, ?_, ?_, fun _ ↦ hcl⟩,
      ⟨st, ?_, hne, hst, hkeep⟩, ?_, fun _ ↦ hcl, ?_⟩
    · simp [Life.write, hwrite]
    · exact dataBytes_data _ _ _ _
    · intro f hf
      obtain rfl := List.mem_singleton.mp hf
      have hclean := clean_flags hfl
      exact ⟨rfl, hclean.1, hclean.2.1, hclean.2.2, rfl⟩
    · simp [Life.write, hwrite]
    · simp only [Life.write, hwrite, htake]
      rw [toNat_sub_ofNat hle]
      omega
    · simpa only [Life.write, hwrite] using hrem

def sendable (s : TmuxStream) (n : ℕ) : ℕ :=
  if s.state.writeClosed then 0 else min n s.sendWindow.toNat

theorem write_wrote {l : Life} (h : l.stream.state ≠ .init) (src : Bytes) :
    ∃ b, b <+: src ∧ Wrote l (l.write src) b := by
  obtain ⟨hw, -⟩ | ⟨n, -, -, -, -, hw⟩ := write_cases h src
  · exact ⟨[], List.nil_prefix, by rw [hw]; exact .refl h⟩
  · exact ⟨src.take n, List.take_prefix n src, hw⟩

def writeEnd (s : TmuxStream) (src : Bytes) : WriteEnd :=
  if src = [] then .done
  else if s.state.writeClosed then .failed
  else if src.length ≤ s.sendWindow.toNat then .done
  else .blocked

theorem writeEnd_closed {s : TmuxStream} {src : Bytes} (hs : src ≠ [])
    (h : s.state.writeClosed = true) : writeEnd s src = .failed := by
  rw [writeEnd, if_neg hs, if_pos h]

theorem writeEnd_open {s : TmuxStream} (h : s.state.writeClosed = false) (src : Bytes) :
    writeEnd s src = if src.length ≤ s.sendWindow.toNat then .done else .blocked := by
  by_cases hs : src = []
  · rw [writeEnd, if_pos hs, hs, List.length_nil, if_pos (Nat.zero_le _)]
  · rw [writeEnd, if_neg hs, if_neg (by simp [h])]

theorem Wrote.window_take {l l' : Life} {src : Bytes} {n : ℕ} (hw : Wrote l l' (src.take n))
    (hn : n ≤ src.length) : l'.stream.sendWindow.toNat + n = l.stream.sendWindow.toNat := by
  have hwin := hw.window
  have hlen : (src.take n).length = n := by
    rw [List.length_take]
    omega
  rw [hlen] at hwin
  exact hwin

section Rest

variable {l l' : Life} {src : Bytes} {n : ℕ} (hw : Wrote l l' (src.take n))
  (hopen : l.stream.state.writeClosed = false) (hn : n ≤ src.length)

include hw hopen hn

/-- After a part has gone, the window still takes what it would have taken of the rest. -/
theorem sendable_rest :
    sendable l.stream src.length = n + sendable l'.stream (src.drop n).length := by
  have hwin := hw.window_take hn
  have hbefore : sendable l.stream src.length = min src.length l.stream.sendWindow.toNat := by
    simp [sendable, hopen]
  have hafter : sendable l'.stream (src.drop n).length =
      min (src.length - n) (l.stream.sendWindow.toNat - n) := by
    rw [sendable, hw.writeClosed, hopen, if_neg (by simp), List.length_drop]
    congr 1
    omega
  rw [hbefore, hafter]
  omega

theorem writeEnd_rest : writeEnd l'.stream (src.drop n) = writeEnd l.stream src := by
  have hwin := hw.window_take hn
  rw [writeEnd_open (hw.writeClosed.trans hopen), writeEnd_open hopen, List.length_drop]
  by_cases hle : src.length ≤ l.stream.sendWindow.toNat
  · rw [if_pos hle, if_pos (by omega)]
  · rw [if_neg hle, if_neg (by omega)]

end Rest

/-- A write that takes nothing of a non-empty source: nothing was sendable, and its return value
says whether the stream is closed or blocked. -/
theorem write_stopped {l : Life} {src : Bytes} (hnil : src ≠ [])
    (hwhy : l.stream.state.writeClosed = true ∨ src = [] ∨ l.stream.sendWindow = 0) :
    sendable l.stream src.length = 0 ∧
      writeEnd l.stream src = if l.stream.state.writeClosed then .failed else .blocked := by
  cases hcl : l.stream.state.writeClosed with
  | true =>
    refine ⟨by simp [sendable, hcl], ?_⟩
    rw [writeEnd_closed hnil hcl]
    rfl
  | false =>
    have hsw : l.stream.sendWindow.toNat = 0 := by
      rcases hwhy with hc | hs | hz
      · rw [hcl] at hc
        cases hc
      · exact absurd hs hnil
      · rw [hz]
        rfl
    have hlen := List.length_pos_iff.mpr hnil
    refine ⟨by simp [sendable, hcl, hsw], ?_⟩
    rw [writeEnd_open hcl, hsw, if_neg (by omega)]
    rfl

theorem writeLoop_spec {l : Life} (h : l.stream.state ≠ .init) {src : Bytes} {fuel : ℕ}
    (hfuel : src.length < fuel) :
    ∃ l', Wrote l l' (src.take (sendable l.stream src.length)) ∧
      l.writeLoop fuel src =
        (l', src.drop (sendable l.stream src.length), writeEnd l.stream src) := by
  induction fuel generalizing l src with
  | zero => omega
  | succ fuel ih =>
    unfold Life.writeLoop
    by_cases hnil : src = []
    · refine ⟨l, ?_, by simp [hnil, writeEnd]⟩
      rw [hnil, List.take_nil]
      exact .refl h
    rw [if_neg hnil]
    dsimp only
    have hlen : src.length ≠ 0 := fun hl ↦ hnil (List.length_eq_zero_iff.mp hl)
    obtain ⟨hw, hsrc, hret, hwhy⟩ | ⟨n, hpos, hn, hret, hsrc, hw⟩ := write_cases h src
    · have hsame : ({ l with
          stream := (tmuxStreamWrite l.stream src).stream
          out := l.out ++ (tmuxStreamWrite l.stream src).out } : Life) = l := hw
      obtain ⟨hz, hend⟩ := write_stopped hnil hwhy
      refine ⟨l, by rw [hz]; exact .refl h, ?_⟩
      rw [hsame, hret, hsrc, hz, hend]
      cases l.stream.state.writeClosed <;> rfl
    · have hopen : l.stream.state.writeClosed = false := by
        refine hw.wrote ?_
        refine List.ne_nil_of_length_pos ?_
        rw [List.length_take]
        omega
      rw [hret, hsrc, if_neg (by omega), if_neg (by omega)]
      have hdrop : (src.drop n).length < fuel := by
        rw [List.length_drop]
        omega
      obtain ⟨l', hw', hloop⟩ := ih hw.state_ne hdrop
      have hsum := sendable_rest hw hopen (by omega)
      have hend := writeEnd_rest hw hopen (by omega)
      refine ⟨l', ?_, ?_⟩
      · have hall := hw.trans hw'
        rwa [hsum, List.take_add]
      · have hrec : Life.writeLoop fuel
            { l with
              stream := (tmuxStreamWrite l.stream src).stream
              out := l.out ++ (tmuxStreamWrite l.stream src).out } (src.drop n) = _ := hloop
        rw [hrec, hend, hsum, List.drop_drop]

theorem writeAll_spec {l : Life} (h : l.stream.state ≠ .init) (src : Bytes) :
    ∃ l', Wrote l l' (src.take (sendable l.stream src.length)) ∧
      l.writeAll src =
        (l', src.drop (sendable l.stream src.length), writeEnd l.stream src) :=
  writeLoop_spec h (Nat.lt_succ_self _)

theorem ne_init_of_writeClosed {st : TcpMuxState} (h : st.writeClosed = true) : st ≠ .init := by
  intro hst
  rw [hst] at h
  cases h

structure PlainUpdate (f : Frame) : Prop where
  data : f.isData = false
  syn : hasFlag f.header.flags .syn = false
  fin : hasFlag f.header.flags .fin = false
  rst : hasFlag f.header.flags .rst = false

theorem processFlags_kept_state {flags : ℕ} {s : TmuxStream} {st : TcpMuxState}
    (h : processFlags flags s = .kept { s with state := st }) :
    (s.state ≠ .init → st ≠ .init) ∧ st.writeClosed = s.state.writeClosed ∧
      (s.state.writeClosed = true → st = s.state) ∧
      (st = .remoteClose ↔ s.state = .remoteClose ∨
        (hasFlag flags .fin = true ∧ s.state.writeClosed = false)) := by
  obtain ⟨id, rw, sw, st', ms, mn, rx⟩ := s
  cases st' <;> cases ha : hasFlag flags .ack <;> cases hf : hasFlag flags .fin <;>
    cases hr : hasFlag flags .rst <;>
    simp [processFlags, processAck, processRst, ha, hf, hr] at h <;> subst h <;>
    simp [TcpMuxState.writeClosed]

theorem processFlags_freed_state {flags : ℕ} {s : TmuxStream} {st : TcpMuxState}
    (h : processFlags flags s = .freed { s with state := st }) (hs : s.state ≠ .init) :
    st.writeClosed = true ∧
      ((hasFlag flags .rst = true ∧ st = .reset) ∨ (s.state = .localClose ∧ st = .closed)) := by
  obtain ⟨id, rw, sw, st', ms, mn, rx⟩ := s
  cases st' <;> cases ha : hasFlag flags .ack <;> cases hf : hasFlag flags .fin <;>
    cases hr : hasFlag flags .rst <;>
    simp [processFlags, processAck, processRst, ha, hf, hr] at h hs ⊢ <;> subst h <;>
    simp [TcpMuxState.writeClosed]

theorem settle_cases {l : Life} (h : l.stream.state ≠ .init) (n : ℕ) :
    ∃ st w frames, l.settle n =
      { l with
        stream := { l.stream with state := st, recvWindow := w }, out := l.out ++ frames } ∧
      st ≠ .init ∧ st.writeClosed = l.stream.state.writeClosed ∧
      (l.stream.state ≠ .synReceived → st = l.stream.state) ∧
      (st = .remoteClose → l.stream.state = .remoteClose) ∧ ∀ f ∈ frames, PlainUpdate f := by
  obtain ⟨flags, st, hf, hne, hcl, hkeep, hfl, hrem⟩ := getSendFlags_past h
  have hupd : ∀ delta, ∀ f ∈ [tcpMuxSendWinUpdate flags l.stream.id delta], PlainUpdate f := by
    intro delta f hmem
    obtain rfl := List.mem_singleton.mp hmem
    have hclean := clean_flags hfl
    exact ⟨rfl, hclean.1, hclean.2.1, hclean.2.2⟩
  unfold Life.settle settleData sendWindowUpdate
  rw [if_neg (by simp)]
  by_cases hn : n = 0
  · rw [if_pos hn, hf]
    by_cases hz : flags = 0
    · exact ⟨st, l.stream.recvWindow, [], by simp [hz], hne, hcl, hkeep, hrem, nofun⟩
    · exact ⟨st, l.stream.recvWindow, _, by simp [hz], hne, hcl, hkeep, hrem, hupd 0⟩
  · rw [if_neg hn]
    dsimp only
    split_ifs
    · exact ⟨l.stream.state, l.stream.recvWindow, [], by simp, h, rfl, fun _ ↦ rfl, id, nofun⟩
    · rw [hf]
      exact ⟨st, maxWindow, _, rfl, hne, hcl, hkeep, hrem, hupd _⟩
    · exact ⟨l.stream.state, l.stream.recvWindow, [], by simp, h, rfl, fun _ ↦ rfl, id, nofun⟩
    · rw [hf]
      exact ⟨st, maxWindow, _, rfl, hne, hcl, hkeep, hrem, hupd _⟩

structure Quiet (l l' : Life) : Prop where
  out : l'.out = l.out
  alive : l'.alive = l.alive
  peerReset : l'.peerReset = l.peerReset
  state : l'.stream.state = l.stream.state

structure Robust (I : Life → Prop) : Prop where
  opened : ∀ {l}, I l → l.stream.state ≠ .init
  quiet : ∀ {l l'}, Quiet l l' → I l → I l'
  wrote : ∀ {l l' b}, Wrote l l' b → I l → I l'
  kept : ∀ {l flags st}, processFlags flags l.stream = .kept { l.stream with state := st } → I l →
    I { l with stream := { l.stream with state := st } }
  settle : ∀ {l} n, I l → I (l.settle n)

theorem Robust.write {I : Life → Prop} (h : Robust I) {l : Life} (src : Bytes) (hl : I l) :
    I (l.write src) := by
  obtain ⟨b, -, hw⟩ := write_wrote (h.opened hl) src
  exact h.wrote hw hl

theorem Robust.foldl_write {I : Life → Prop} (h : Robust I) {l : Life} (srcs : List Bytes)
    (hl : I l) : I (srcs.foldl Life.write l) := by
  induction srcs generalizing l with
  | nil => exact hl
  | cons src srcs ih => exact ih (h.write src hl)

theorem Robust.writeAll {I : Life → Prop} (h : Robust I) {l : Life} (src : Bytes) (hl : I l) :
    I (l.writeAll src).1 := by
  obtain ⟨l', hw, hl'⟩ := writeAll_spec (h.opened hl) src
  rw [hl']
  exact h.wrote hw hl

theorem writeAll_failed {l l' : Life} {src rest : Bytes} (h : l.stream.state ≠ .init)
    (hw : l.writeAll src = (l', rest, .failed)) : l'.stream.state.writeClosed = true := by
  obtain ⟨l₁, hw₁, heq⟩ := writeAll_spec h src
  rw [heq] at hw
  have hend : writeEnd l.stream src = .failed := by
    have h₂ := congrArg (fun p : Life × Bytes × WriteEnd ↦ p.2.2) hw
    exact h₂
  have hl : l₁ = l' := congrArg (fun p : Life × Bytes × WriteEnd ↦ p.1) hw
  rw [← hl, hw₁.writeClosed]
  cases hcl : l.stream.state.writeClosed with
  | true => rfl
  | false =>
    rw [writeEnd_open hcl] at hend
    split_ifs at hend

def closes (f : Frame) : Bool := hasFlag f.header.flags .fin || hasFlag f.header.flags .rst

/-- How the frames of a stream have to follow each other: SYN on the first one
only, and after FIN or RST neither data nor another FIN. -/
structure Orderly (out : List Frame) : Prop where
  syn : ∀ f rest, out = f :: rest →
    hasFlag f.header.flags .syn = true ∧ ∀ g ∈ rest, hasFlag g.header.flags .syn = false
  closed : out.Pairwise fun f g ↦
    closes f = true → g.isData = false ∧ hasFlag g.header.flags .fin = false

structure Disciplined (l : Life) : Prop where
  opened : l.stream.state ≠ .init
  began : l.out ≠ []
  orderly : Orderly l.out
  closing : ∀ f ∈ l.out, closes f = true → l.stream.state.writeClosed = true
  shut : l.stream.state = .localClose → ∃ f ∈ l.out, closes f = true

theorem Orderly.append {out frames : List Frame} (h : Orderly out) (hne : out ≠ [])
    (hsyn : ∀ f ∈ frames, hasFlag f.header.flags .syn = false)
    (hafter : ∀ f ∈ out, closes f = true → ∀ g ∈ frames,
      g.isData = false ∧ hasFlag g.header.flags .fin = false)
    (hself : frames.Pairwise fun f g ↦
      closes f = true → g.isData = false ∧ hasFlag g.header.flags .fin = false) :
    Orderly (out ++ frames) := by
  refine ⟨fun f rest hout ↦ ?_, List.pairwise_append.mpr ⟨h.closed, hself, ?_⟩⟩
  · cases out with
    | nil => exact absurd rfl hne
    | cons g gs =>
      obtain ⟨rfl, rfl⟩ := List.cons.inj hout
      obtain ⟨hs, hrest⟩ := h.syn g gs rfl
      refine ⟨hs, fun f' hf' ↦ ?_⟩
      rcases List.mem_append.mp hf' with hf' | hf'
      · exact hrest f' hf'
      · exact hsyn f' hf'
  · intro f hf g hg hc
    exact hafter f hf hc g hg

theorem DataFrame.not_closes {id : ℕ} {f : Frame} (h : DataFrame id f) : closes f = false := by
  rw [closes, h.fin, h.rst]
  rfl

theorem PlainUpdate.not_closes {f : Frame} (h : PlainUpdate f) : closes f = false := by
  rw [closes, h.fin, h.rst]
  rfl

theorem pairwise_of_not_closes {frames : List Frame} (h : ∀ f ∈ frames, closes f = false) :
    frames.Pairwise fun f g ↦
      closes f = true → g.isData = false ∧ hasFlag g.header.flags .fin = false := by
  refine List.Pairwise.imp_of_mem (R := fun _ _ ↦ True) ?_ (List.pairwise_of_forall fun _ _ ↦ trivial)
  intro f g hf _ _ hc
  rw [h f hf] at hc
  cases hc

theorem closed_before {s st : TcpMuxState} (h : st.writeClosed = true)
    (hwc : st.writeClosed = s.writeClosed) (hkeep : s ≠ .synReceived → st = s) : st = s := by
  refine hkeep fun hs ↦ ?_
  rw [hs, h] at hwc
  cases hwc

theorem disciplined_robust : Robust Disciplined where
  opened h := h.opened
  quiet q h :=
    ⟨q.state ▸ h.opened, q.out ▸ h.began, q.out ▸ h.orderly,
      by rw [q.out, q.state]; exact h.closing, by rw [q.out, q.state]; exact h.shut⟩
  wrote {l l' b} w h := by
    obtain ⟨frames, hout, -, hdata, hopen⟩ := w.out
    have hcl : ∀ f ∈ frames, closes f = false := fun f hf ↦ (hdata f hf).not_closes
    refine ⟨w.state_ne, ?_, ?_, ?_, ?_⟩
    · rw [hout]
      exact List.append_ne_nil_of_left_ne_nil h.began frames
    · rw [hout]
      refine h.orderly.append h.began (fun f hf ↦ (hdata f hf).syn) ?_ (pairwise_of_not_closes hcl)
      intro f hf hc g hg
      have hw := h.closing f hf hc
      rw [hopen (List.ne_nil_of_mem hg)] at hw
      cases hw
    · intro f hf hc
      rw [w.writeClosed]
      rw [hout] at hf
      rcases List.mem_append.mp hf with hf | hf
      · exact h.closing f hf hc
      · rw [hcl f hf] at hc
        cases hc
    · intro hst
      obtain ⟨st, hs, -, hwc, hkeep⟩ := w.stream
      have hst' : st = .localClose := by rw [hs] at hst; exact hst
      obtain ⟨f, hf, hc⟩ := h.shut (closed_before (hst' ▸ rfl) hwc hkeep ▸ hst')
      exact ⟨f, by rw [hout]; exact List.mem_append_left _ hf, hc⟩
  kept {l flags st} hp h := by
    obtain ⟨hne, hwc, hsame, -⟩ := processFlags_kept_state hp
    refine ⟨hne h.opened, h.began, h.orderly, fun f hf hc ↦ hwc.trans (h.closing f hf hc), ?_⟩
    intro hst
    have hst' : st = .localClose := hst
    rw [hst'] at hwc hsame
    exact h.shut (hsame hwc.symm).symm
  settle {l} n h := by
    obtain ⟨st, w, frames, hl, hne, hwc, hkeep, -, hupd⟩ := settle_cases h.opened n
    have hcl : ∀ f ∈ frames, closes f = false := fun f hf ↦ (hupd f hf).not_closes
    rw [hl]
    refine ⟨hne, List.append_ne_nil_of_left_ne_nil h.began frames, ?_, ?_, ?_⟩
    · refine h.orderly.append h.began (fun f hf ↦ (hupd f hf).syn) ?_ (pairwise_of_not_closes hcl)
      intro f _ _ g hg
      exact ⟨(hupd g hg).data, (hupd g hg).fin⟩
    · intro f hf hc
      rcases List.mem_append.mp hf with hf | hf
      · exact hwc.trans (h.closing f hf hc)
      · rw [hcl f hf] at hc
        cases hc
    · intro hst
      have hst' : st = .localClose := hst
      obtain ⟨f, hf, hc⟩ := h.shut (closed_before (hst' ▸ rfl) hwc hkeep ▸ hst')
      exact ⟨f, List.mem_append_left _ hf, hc⟩

theorem Disciplined.delete {l : Life} (h : Disciplined l) : Disciplined l.delete :=
  ⟨h.opened, h.began, h.orderly, h.closing, h.shut⟩

theorem Disciplined.freed {l : Life} {flags : ℕ} {st : TcpMuxState} (h : Disciplined l)
    (hp : processFlags flags l.stream = .freed { l.stream with state := st }) :
    Disciplined (l.freed flags { l.stream with state := st }) := by
  obtain ⟨hwc, hwhy⟩ := processFlags_freed_state hp h.opened
  refine ⟨ne_init_of_writeClosed hwc, h.began, h.orderly, fun _ _ _ ↦ hwc, fun hst ↦ ?_⟩
  have hst' : st = .localClose := hst
  rcases hwhy with ⟨-, hr⟩ | ⟨-, hr⟩
  · rw [hr] at hst'
    cases hst'
  · rw [hr] at hst'
    cases hst'

theorem close_cases (l : Life) :
    ((l.stream.state = .closed ∨ l.stream.state = .reset ∨ l.stream.state = .init) ∧
      l.close = l) ∨
    ∃ st, st.writeClosed = true ∧
      (l.stream.state = .localClose ∨ l.stream.state.writeClosed = false) ∧
      (st = .localClose ∨ (st = .closed ∧
        (l.stream.state = .localClose ∨ l.stream.state = .remoteClose))) ∧
      l.close = { l with
        stream := { l.stream with state := st }
        alive := l.alive && decide (st = .localClose)
        out := l.out ++ [tcpMuxSendWinUpdate TcpMuxFlag.fin.mask l.stream.id 0] } := by
  unfold Life.close tmuxStreamClose
  cases hst : l.stream.state
  case init => exact .inl ⟨.inr (.inr rfl), by simp⟩
  case closed => exact .inl ⟨.inl rfl, by simp⟩
  case reset => exact .inl ⟨.inr (.inl rfl), by simp⟩
  case localClose => exact .inr ⟨.closed, rfl, .inl rfl, .inr ⟨rfl, .inl rfl⟩, by simp⟩
  case remoteClose => exact .inr ⟨.closed, rfl, .inr rfl, .inr ⟨rfl, .inr rfl⟩, by simp⟩
  all_goals exact .inr ⟨.localClose, rfl, .inr rfl, .inl rfl, by simp⟩

theorem fin_closes (id : ℕ) : closes (tcpMuxSendWinUpdate TcpMuxFlag.fin.mask id 0) = true := by
  have h : hasFlag TcpMuxFlag.fin.mask .fin = true := by decide
  show (hasFlag TcpMuxFlag.fin.mask .fin || _) = true
  rw [h]
  rfl

theorem Disciplined.close {l : Life} (h : Disciplined l) (hst : l.stream.state ≠ .localClose) :
    Disciplined l.close := by
  obtain ⟨-, hl⟩ | ⟨st, hwc, hwas, -, hl⟩ := close_cases l
  · rw [hl]
    exact h
  · have hopen : l.stream.state.writeClosed = false := by
      rcases hwas with hs | hs
      · exact absurd hs hst
      · exact hs
    rw [hl]
    have hnone : ∀ f ∈ l.out, closes f = false := by
      intro f hf
      cases hc : closes f with
      | false => rfl
      | true =>
        have hw := h.closing f hf hc
        rw [hopen] at hw
        cases hw
    refine ⟨ne_init_of_writeClosed hwc, List.append_ne_nil_of_left_ne_nil h.began _, ?_,
      fun _ _ _ ↦ hwc, fun _ ↦ ?_⟩
    · refine h.orderly.append h.began ?_ ?_ (List.pairwise_singleton _ _)
      · intro f hf
        obtain rfl := List.mem_singleton.mp hf
        show hasFlag TcpMuxFlag.fin.mask .syn = false
        decide
      · intro f hf hc
        rw [hnone f hf] at hc
        cases hc
    · exact ⟨_, List.mem_append_right _ (List.mem_singleton_self _), fin_closes _⟩

def Told (l : Life) : Prop := l.peerReset = true ∨ ∃ f ∈ l.out, closes f = true

structure Accounted (l : Life) : Prop where
  opened : l.stream.state ≠ .init
  shut : l.stream.state.writeClosed = true → Told l
  gone : l.alive = false → Told l

theorem Told.append {l l' : Life} {frames : List Frame} (h : Told l)
    (hp : l'.peerReset = l.peerReset) (ho : l'.out = l.out ++ frames) : Told l' := by
  rcases h with h | ⟨f, hf, hc⟩
  · exact .inl (hp.trans h)
  · exact .inr ⟨f, by rw [ho]; exact List.mem_append_left _ hf, hc⟩

theorem accounted_robust : Robust Accounted where
  opened h := h.opened
  quiet {l l'} q h := by
    have ht : Told l → Told l' := fun ht ↦ ht.append q.peerReset (by rw [q.out, List.append_nil])
    exact ⟨q.state ▸ h.opened, fun hw ↦ ht (h.shut (q.state ▸ hw)),
      fun ha ↦ ht (h.gone (q.alive ▸ ha))⟩
  wrote {l l' b} w h := by
    obtain ⟨frames, hout, -⟩ := w.out
    have ht : Told l → Told l' := fun ht ↦ ht.append w.peerReset hout
    exact ⟨w.state_ne, fun hw ↦ ht (h.shut (w.writeClosed ▸ hw)),
      fun ha ↦ ht (h.gone (w.alive ▸ ha))⟩
  kept {l flags st} hp h := by
    obtain ⟨hne, hwc, -⟩ := processFlags_kept_state hp
    exact ⟨hne h.opened, fun hw ↦ h.shut (hwc.symm.trans hw), h.gone⟩
  settle {l} n h := by
    obtain ⟨st, w, frames, hl, hne, hwc, -⟩ := settle_cases h.opened n
    rw [hl]
    exact ⟨hne, fun hw ↦ (h.shut (hwc.symm.trans hw)).append rfl rfl,
      fun ha ↦ (h.gone ha).append rfl rfl⟩

theorem Accounted.delete {l : Life} (h : Accounted l)
    (hw : l.stream.state.writeClosed = true) : Accounted l.delete :=
  ⟨h.opened, fun _ ↦ h.shut hw, fun _ ↦ h.shut hw⟩

theorem Accounted.freed {l : Life} {flags : ℕ} {st : TcpMuxState} (h : Accounted l)
    (hp : processFlags flags l.stream = .freed { l.stream with state := st }) :
    Accounted (l.freed flags { l.stream with state := st }) := by
  obtain ⟨hwc, hwhy⟩ := processFlags_freed_state hp h.opened
  have ht : Told (l.freed flags { l.stream with state := st }) := by
    rcases hwhy with ⟨hr, -⟩ | ⟨hs, -⟩
    · exact .inl (by simp [Life.freed, hr])
    · rcases h.shut (by rw [hs]; rfl) with hp | hf
      · exact .inl (by simp [Life.freed, hp])
      · exact .inr hf
  exact ⟨ne_init_of_writeClosed hwc, fun _ ↦ ht, fun _ ↦ ht⟩

theorem Accounted.close {l : Life} (h : Accounted l) : Accounted l.close := by
  obtain ⟨-, hl⟩ | ⟨st, hwc, -, -, hl⟩ := close_cases l
  · rw [hl]
    exact h
  · have ht : Told l.close := by
      refine .inr ⟨tcpMuxSendWinUpdate TcpMuxFlag.fin.mask l.stream.id 0, ?_, fin_closes _⟩
      rw [hl]
      exact List.mem_append_right _ (List.mem_singleton_self _)
    refine ⟨?_, fun _ ↦ ht, fun _ ↦ ht⟩
    rw [hl]
    exact ne_init_of_writeClosed hwc

structure Steady (l l' : Life) : Prop where
  alive : l'.alive = l.alive
  opened : l'.stream.state ≠ .init
  writeClosed : l'.stream.state.writeClosed = l.stream.state.writeClosed
  closed : l'.stream.state.writeClosed = true → l'.stream.state = l.stream.state
  remote : l'.stream.state = .remoteClose → l.stream.state = .remoteClose
  window : l'.stream.sendWindow.toNat ≤ l.stream.sendWindow.toNat

theorem Steady.refl {l : Life} (h : l.stream.state ≠ .init) : Steady l l :=
  ⟨rfl, h, rfl, fun _ ↦ rfl, id, Nat.le_refl _⟩

theorem Steady.trans {l₁ l₂ l₃ : Life} (h₁ : Steady l₁ l₂) (h₂ : Steady l₂ l₃) : Steady l₁ l₃ := by
  refine ⟨h₂.alive.trans h₁.alive, h₂.opened, h₂.writeClosed.trans h₁.writeClosed, ?_,
    fun h ↦ h₁.remote (h₂.remote h), Nat.le_trans h₂.window h₁.window⟩
  intro h
  rw [h₂.closed h]
  exact h₁.closed (h₂.writeClosed.symm.trans h)

theorem Wrote.steady {l l' : Life} {b : Bytes} (h : Wrote l l' b) : Steady l l' := by
  obtain ⟨st, hs, hne, hwc, hkeep⟩ := h.stream
  have hst : l'.stream.state = st := by rw [hs]
  refine ⟨h.alive, h.state_ne, h.writeClosed, fun hc ↦ ?_, h.remote, ?_⟩
  · rw [hst] at hc ⊢
    exact closed_before hc hwc hkeep
  · have hwin := h.window
    omega

theorem settle_steady {l : Life} (h : l.stream.state ≠ .init) (n : ℕ) : Steady l (l.settle n) := by
  obtain ⟨st, w, frames, hl, hne, hwc, hkeep, hrem, -⟩ := settle_cases h n
  rw [hl]
  exact ⟨rfl, hne, hwc, fun hc ↦ closed_before hc hwc hkeep, hrem, Nat.le_refl _⟩

theorem write_steady {l : Life} (h : l.stream.state ≠ .init) (src : Bytes) :
    Steady l (l.write src) := by
  obtain ⟨b, -, hw⟩ := write_wrote h src
  exact hw.steady

theorem foldl_write_steady {l : Life} (h : l.stream.state ≠ .init) (replies : List Bytes) :
    Steady l (replies.foldl Life.write l) := by
  induction replies generalizing l with
  | nil => exact .refl h
  | cons r rs ih =>
    have hw := write_steady h r
    exact hw.trans (ih hw.opened)

end Xfrpc.Tunnel.Lifetime
