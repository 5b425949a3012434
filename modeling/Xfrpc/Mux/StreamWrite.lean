import Xfrpc.Event.Buffer
import Xfrpc.Mux.Stream

namespace Xfrpc.Mux.StreamWrite

open Header Mux.Stream Event.Buffer

/-- What `tmux_stream_write` works on. The output is absent when there is neither a
`bev` nor a control connection. -/
structure Ends where
  stream : TmuxStream
  src : Evbuffer
  out : Option Evbuffer
  deriving DecidableEq

def sendLength (w : Ends) : ℕ :=
  min (min w.src.data.length w.stream.sendWindow.toNat) defaultMaxFrameSize

/-- The part of `tmux_stream_write` that has an output buffer: the header, then the
payload, then the window. -/
def writeFrame (grants : ℕ → Bool) (flags : ℕ) (w : Ends) (out : Evbuffer) : ℤ × Ends :=
  let toSend := sendLength w
  let header := tcpMuxEncode .tmuxData flags w.stream.id toSend
  match evbufferAdd grants out header.encode with
  | none => (-2, w)
  | some out₁ =>
    let m := evbufferRemoveBuffer grants w.src out₁ toSend
    if m.moved ≠ toSend then (-2, { w with src := m.src, out := some m.dst })
    else
      (toSend,
        { stream := { w.stream with sendWindow := w.stream.sendWindow - .ofNat toSend }
          src := m.src
          out := some m.dst })

/-- `tmux_stream_write` with every way it has to fail: `grants` tells which block
sizes `realloc` has for this call. -/
def tmuxStreamWriteOn (grants : ℕ → Bool) (w : Ends) : ℤ × Ends :=
  if w.stream.state.writeClosed then (-1, w)
  else if w.src.data.length = 0 then (0, w)
  else if w.stream.sendWindow = 0 then (0, w)
  else
    let (flags, stream) := getSendFlags w.stream
    match w.out with
    | none => (-2, { w with stream })
    | some out => writeFrame grants flags { w with stream } out

/-- The flag a state owes the peer. -/
def dueFlags : TcpMuxState → ℕ
  | .init => TcpMuxFlag.syn.mask
  | .synReceived => TcpMuxFlag.ack.mask
  | _ => 0

/-- The state once that flag is sent. -/
def announced : TcpMuxState → TcpMuxState
  | .init => .synSend
  | .synReceived => .established
  | st => st

theorem getSendFlags_eq (s : TmuxStream) :
    getSendFlags s = (dueFlags s.state, { s with state := announced s.state }) := by
  obtain ⟨id, rw, sw, st, ms, mn, rx⟩ := s
  cases st <;> rfl

def Ends.announce (w : Ends) : Ends :=
  { w with stream := { w.stream with state := announced w.stream.state } }

structure Sent (w : Ends) (n : ℕ) (w' : Ends) : Prop where
  length : n = sendLength w
  out : ∃ out out', w.out = some out ∧ w'.out = some out' ∧ out'.data = out.data ++
    ((tcpMuxEncode .tmuxData (dueFlags w.stream.state) w.stream.id n).encode ++ w.src.data.take n)
  src : w'.src.data = w.src.data.drop n
  stream : w'.stream = { w.stream with
    state := announced w.stream.state
    sendWindow := w.stream.sendWindow - .ofNat n }

/-- A call that reports no progress changed nothing, and one that reports progress
moved one whole frame. -/
def Atomic (w : Ends) (r : ℤ × Ends) : Prop :=
  (r.1 ≤ 0 → r.2 = w) ∧ (0 < r.1 → ∃ n : ℕ, r.1 = n ∧ Sent w n r.2)

/-- The call comes to writing: the stream is open for writing and has bytes and
window. -/
def comesToWriting (w : Ends) : Bool :=
  !w.stream.state.writeClosed && decide (w.src.data ≠ []) && decide (w.stream.sendWindow ≠ 0)

/-- No step of the write fails after one that left a mark: without an output or room
for the header no flag is owed, and with room for the header there is room for the
payload behind it. -/
def Unbroken (grants : ℕ → Bool) (w : Ends) : Prop :=
  match w.out with
  | none => dueFlags w.stream.state = 0
  | some out =>
    match evbufferReserve grants out.data.length out.cap headerSize with
    | none => dueFlags w.stream.state = 0
    | some c =>
      evbufferReserve grants (out.data.length + headerSize) c (sendLength w) ≠ none

theorem announced_eq_iff (st : TcpMuxState) : announced st = st ↔ dueFlags st = 0 := by
  cases st <;> decide

theorem sendLength_pos {w : Ends} (h : comesToWriting w = true) : 0 < sendLength w := by
  simp only [comesToWriting, Bool.and_eq_true, decide_eq_true_eq] at h
  have hl : 0 < w.src.data.length := List.length_pos_iff.mpr h.1.2
  have hw : 0 < w.stream.sendWindow.toNat := by
    have hne : w.stream.sendWindow.toNat ≠ 0 := fun hz ↦ h.2 (UInt32.toNat_inj.mp hz)
    omega
  have hd : 0 < defaultMaxFrameSize := by decide
  unfold sendLength
  omega

theorem tmuxStreamWriteOn_idle (grants : ℕ → Bool) {w : Ends} (h : comesToWriting w = false) :
    ∃ ret : ℤ, ret ≤ 0 ∧ tmuxStreamWriteOn grants w = (ret, w) := by
  unfold tmuxStreamWriteOn
  by_cases hc : w.stream.state.writeClosed = true
  · exact ⟨-1, by decide, by rw [if_pos hc]⟩
  rw [if_neg hc]
  by_cases hl : w.src.data.length = 0
  · exact ⟨0, Int.le_refl 0, by rw [if_pos hl]⟩
  rw [if_neg hl]
  by_cases hw : w.stream.sendWindow = 0
  · exact ⟨0, Int.le_refl 0, by rw [if_pos hw]⟩
  · exfalso
    have hne : w.src.data ≠ [] := fun hnil ↦ hl (by rw [hnil]; rfl)
    simp [comesToWriting, hc, hw, hne] at h

theorem tmuxStreamWriteOn_writing {grants : ℕ → Bool} {w : Ends} (h : comesToWriting w = true) :
    tmuxStreamWriteOn grants w =
      match w.out with
      | none => (-2, w.announce)
      | some out => writeFrame grants (dueFlags w.stream.state) w.announce out := by
  simp only [comesToWriting, Bool.and_eq_true, Bool.not_eq_true', decide_eq_true_eq] at h
  obtain ⟨⟨hc, hne⟩, hw⟩ := h
  have hl : w.src.data.length ≠ 0 := fun hz ↦ hne (List.length_eq_zero_iff.mp hz)
  unfold tmuxStreamWriteOn
  rw [if_neg (by simp [hc]), if_neg hl, if_neg hw, getSendFlags_eq]
  rfl

section Frame

variable {grants : ℕ → Bool} (flags : ℕ) (w : Ends) {out : Evbuffer}

theorem writeFrame_noHeader
    (h : evbufferReserve grants out.data.length out.cap headerSize = none) :
    writeFrame grants flags w out = (-2, w) := by
  have hadd : evbufferAdd grants out (tcpMuxEncode .tmuxData flags w.stream.id
      (sendLength w)).encode = none := evbufferAdd_none (by rw [encode_length]; exact h)
  simp only [writeFrame, hadd]

theorem writeFrame_header {c : ℕ}
    (h : evbufferReserve grants out.data.length out.cap headerSize = some c) :
    ∃ out₁ : Evbuffer, out₁.data = out.data ++
        (tcpMuxEncode .tmuxData flags w.stream.id (sendLength w)).encode ∧ out₁.cap = c ∧
      evbufferAdd grants out (tcpMuxEncode .tmuxData flags w.stream.id
        (sendLength w)).encode = some out₁ := by
  have hres : evbufferReserve grants out.data.length out.cap
      (tcpMuxEncode .tmuxData flags w.stream.id (sendLength w)).encode.length = some c := by
    rw [encode_length]
    exact h
  obtain ⟨out₁, hadd, hdata, hcap⟩ := evbufferAdd_some hres
  exact ⟨out₁, hdata, hcap, hadd⟩

theorem sendLength_le (w : Ends) : sendLength w ≤ w.src.data.length := by
  unfold sendLength
  omega

/-- Room for the header but not for the payload leaves the header behind. -/
theorem writeFrame_stranded {c : ℕ}
    (h : evbufferReserve grants out.data.length out.cap headerSize = some c)
    (hpos : 0 < sendLength w)
    (hp : evbufferReserve grants (out.data.length + headerSize) c (sendLength w) = none) :
    ∃ out₁ : Evbuffer, out₁.data = out.data ++
        (tcpMuxEncode .tmuxData flags w.stream.id (sendLength w)).encode ∧
      writeFrame grants flags w out = (-2, { w with out := some out₁ }) := by
  obtain ⟨out₁, hdata, hcap, hadd⟩ := writeFrame_header flags w h
  have hlen : out₁.data.length = out.data.length + headerSize := by
    rw [hdata, List.length_append, encode_length]
  rw [← hlen, ← hcap] at hp
  refine ⟨out₁, hdata, ?_⟩
  simp only [writeFrame, hadd]
  rw [evbufferRemoveBuffer_none (sendLength_le w) hp, if_pos (by dsimp only; omega)]

theorem writeFrame_sent {c c' : ℕ}
    (h : evbufferReserve grants out.data.length out.cap headerSize = some c)
    (hpos : 0 < sendLength w)
    (hp : evbufferReserve grants (out.data.length + headerSize) c (sendLength w) = some c') :
    ∃ out₂ : Evbuffer, out₂.data = out.data ++
        ((tcpMuxEncode .tmuxData flags w.stream.id (sendLength w)).encode ++
          w.src.data.take (sendLength w)) ∧
      writeFrame grants flags w out = ((sendLength w : ℤ),
        { stream := { w.stream with sendWindow := w.stream.sendWindow - .ofNat (sendLength w) }
          src := evbufferDrain w.src (sendLength w)
          out := some out₂ }) := by
  obtain ⟨out₁, hdata, hcap, hadd⟩ := writeFrame_header flags w h
  have hlen : out₁.data.length = out.data.length + headerSize := by
    rw [hdata, List.length_append, encode_length]
  rw [← hlen, ← hcap] at hp
  obtain ⟨out₂, hmove, hdata₂⟩ := evbufferRemoveBuffer_some hpos (sendLength_le w) hp
  refine ⟨out₂, by rw [hdata₂, hdata, List.append_assoc], ?_⟩
  simp only [writeFrame, hadd, hmove, ne_eq, not_true_eq_false, if_false]

end Frame

theorem atomic_failed {w w' : Ends} {ret : ℤ} (hret : ret ≤ 0) : Atomic w (ret, w') ↔ w' = w := by
  constructor
  · intro h
    exact h.1 hret
  · intro h
    exact ⟨fun _ ↦ h, fun hpos ↦ absurd hpos (Int.not_lt.mpr hret)⟩

theorem announce_eq_iff (w : Ends) :
    w.announce = w ↔ dueFlags w.stream.state = 0 := by
  rw [← announced_eq_iff]
  constructor
  · intro h
    exact congrArg (fun v : Ends ↦ v.stream.state) h
  · intro h
    rw [Ends.announce, h]

theorem atomic_writing_iff (grants : ℕ → Bool) {w : Ends} (h : comesToWriting w = true) :
    Atomic w (tmuxStreamWriteOn grants w) ↔ Unbroken grants w := by
  have hpos := sendLength_pos h
  rw [tmuxStreamWriteOn_writing h, Unbroken]
  cases hout : w.out with
  | none => exact (atomic_failed (by decide)).trans (announce_eq_iff w)
  | some out =>
    dsimp only
    cases hh : evbufferReserve grants out.data.length out.cap headerSize with
    | none =>
      rw [writeFrame_noHeader _ _ hh]
      exact (atomic_failed (by decide)).trans (announce_eq_iff w)
    | some c =>
      dsimp only
      cases hp : evbufferReserve grants (out.data.length + headerSize) c (sendLength w) with
      | none =>
        obtain ⟨out₁, hdata, hw⟩ := writeFrame_stranded (dueFlags w.stream.state) w.announce hh hpos hp
        rw [hw, atomic_failed (by decide)]
        refine iff_of_false (fun he ↦ ?_) (fun hne ↦ hne rfl)
        have hb : some out₁ = some out := by
          rw [← hout]
          exact congrArg Ends.out he
        have hlen := congrArg (fun b : Evbuffer ↦ b.data.length) (Option.some.inj hb)
        simp [hdata, headerSize] at hlen
      | some c' =>
        obtain ⟨out₂, hdata, hw⟩ := writeFrame_sent (dueFlags w.stream.state) w.announce hh hpos hp
        rw [hw]
        refine iff_of_true ⟨fun hle ↦ ?_, fun _ ↦ ⟨sendLength w, rfl, ?_⟩⟩
          (Option.some_ne_none c')
        · exact absurd (Int.natCast_pos.mpr hpos) (Int.not_lt.mpr hle)
        · exact ⟨rfl, ⟨out, out₂, hout, rfl, hdata⟩, rfl, rfl⟩

/-- The write is atomic exactly when it does not come to writing, or comes to it and
no step of it fails after one that left a mark. -/
theorem write_atomic_iff (grants : ℕ → Bool) (w : Ends) :
    Atomic w (tmuxStreamWriteOn grants w) ↔ comesToWriting w = false ∨ Unbroken grants w := by
  cases h : comesToWriting w with
  | true =>
    rw [atomic_writing_iff grants h]
    exact ⟨.inr, fun hu ↦ hu.resolve_left (Bool.noConfusion ·)⟩
  | false =>
    obtain ⟨ret, hret, hw⟩ := tmuxStreamWriteOn_idle grants h
    rw [hw, atomic_failed hret]
    exact iff_of_true rfl (.inl rfl)

/-- An output block of 4096 bytes in which just the header fits. -/
def crowdedOut : Evbuffer where
  data := List.replicate 4084 0
  cap := initCap
  fits := by rw [List.length_replicate]; decide

def crowded : Ends where
  stream := initTmuxStream 1 .established
  src := { data := [7], cap := initCap, fits := by decide }
  out := some crowdedOut

theorem crowdedOut_length : crowdedOut.data.length = 4084 := List.length_replicate

theorem write_crowded_strands_header :
    ¬ Atomic crowded (tmuxStreamWriteOn (fun _ ↦ false) crowded) := by
  have hw : comesToWriting crowded = true := by decide
  have hlen : sendLength crowded = 1 := by decide
  have hh : evbufferReserve (fun _ ↦ false) crowdedOut.data.length crowdedOut.cap headerSize =
      some initCap := by
    rw [crowdedOut_length]
    decide
  rw [atomic_writing_iff _ hw]
  simp only [Unbroken, crowded, hh]
  rw [crowdedOut_length]
  decide

theorem tmuxStreamWrite_idle {w : Ends} (h : comesToWriting w = false) (grants : ℕ → Bool) :
    tmuxStreamWrite w.stream w.src.data =
      ⟨(tmuxStreamWriteOn grants w).1, w.stream, w.src.data, []⟩ ∧
      (tmuxStreamWriteOn grants w).2 = w := by
  unfold tmuxStreamWrite tmuxStreamWriteOn
  by_cases hc : w.stream.state.writeClosed = true
  · simp only [hc, if_true, and_self]
  by_cases hl : w.src.data.length = 0
  · simp only [hc, hl, if_true, and_self, Bool.false_eq_true, if_false]
  by_cases hw : w.stream.sendWindow = 0
  · simp only [hc, hl, hw, if_true, and_self, Bool.false_eq_true, if_false]
  · have hne : w.src.data ≠ [] := fun hnil ↦ hl (by rw [hnil]; rfl)
    simp [comesToWriting, hc, hw, hne] at h

/-- Where no step fails, the write is the one of a present output with allocation
succeeding. -/
theorem tmuxStreamWriteOn_eq {grants : ℕ → Bool} {w : Ends} {out : Evbuffer} {c c' : ℕ}
    (hout : w.out = some out)
    (hh : evbufferReserve grants out.data.length out.cap headerSize = some c)
    (hp : evbufferReserve grants (out.data.length + headerSize) c (sendLength w) = some c') :
    ∃ src' out' frames, (tmuxStreamWriteOn grants w).2.src = src' ∧
      (tmuxStreamWriteOn grants w).2.out = some out' ∧
      tmuxStreamWrite w.stream w.src.data = ⟨(tmuxStreamWriteOn grants w).1,
        (tmuxStreamWriteOn grants w).2.stream, src'.data, frames⟩ ∧
      out'.data = out.data ++ (frames.map Frame.bytes).flatten := by
  cases h : comesToWriting w with
  | false =>
    obtain ⟨hidle, hsame⟩ := tmuxStreamWrite_idle h grants
    rw [hsame]
    exact ⟨w.src, out, [], rfl, hout, hidle, by simp⟩
  | true =>
    have hpos := sendLength_pos h
    obtain ⟨out₂, hdata, hw⟩ := writeFrame_sent (dueFlags w.stream.state) w.announce hh hpos hp
    rw [tmuxStreamWriteOn_writing h, hout]
    dsimp only
    rw [hw]
    refine ⟨_, out₂, [⟨tcpMuxEncode .tmuxData (dueFlags w.stream.state) w.stream.id (sendLength w),
      w.src.data.take (sendLength w)⟩], rfl, rfl, ?_, ?_⟩
    · simp only [comesToWriting, Bool.and_eq_true, Bool.not_eq_true', decide_eq_true_eq] at h
      obtain ⟨⟨hc, hne⟩, hwin⟩ := h
      have hl : w.src.data.length ≠ 0 := fun hz ↦ hne (List.length_eq_zero_iff.mp hz)
      rw [tmuxStreamWrite, if_neg (by simp [hc]), if_neg hl, if_neg hwin, getSendFlags_eq]
      rfl
    · rw [List.map_singleton, List.flatten_singleton]
      exact hdata

end Xfrpc.Mux.StreamWrite
