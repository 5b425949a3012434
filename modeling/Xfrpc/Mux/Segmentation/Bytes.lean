import Xfrpc.Mux.Demux

namespace Xfrpc.Mux.Segmentation

open Header Demux Foundations.Runs

variable {E : Type}

/-- Where a byte stream of frames stands: inside a header, inside the payload of
a data frame, or past a frame the multiplexer does not get over. -/
inductive Pos
  | header (acc : Bytes)
  | payload (h : TcpMuxHeader) (acc : Bytes)
  | stuck
  deriving DecidableEq, Repr

structure Spec (E : Type) where
  env : E
  calls : List MuxCall
  discarded : Bytes
  pos : Pos
  deriving DecidableEq, Repr

def Spec.start (e : E) : Spec E := ⟨e, [], [], .header []⟩

variable (M : MuxEnv E)

def Spec.complete (t : Spec E) (h : TcpMuxHeader) (payload : Bytes) : Spec E :=
  if M.registered t.env h.streamId = true then
    { t with
      env := (M.processData t.env payload h.streamId h.length h.flags).1
      calls := t.calls ++ [.processData h.streamId h.length h.flags payload]
      pos := .header [] }
  else { t with discarded := t.discarded ++ payload, pos := .header [] }

def Spec.control (t : Spec E) (h : TcpMuxHeader) : Spec E :=
  if h.type = TcpMuxType.windowUpdate.code then
    { t with
      env := M.handleTcpMuxStream t.env h, calls := t.calls ++ [.stream h], pos := .header [] }
  else if h.type = TcpMuxType.ping.code then
    { t with
      env := M.handleTcpMuxPing t.env h, calls := t.calls ++ [.ping h], pos := .header [] }
  else
    { t with
      env := M.handleTcpMuxGoAway t.env h, calls := t.calls ++ [.goAway h], pos := .header [] }

def Spec.opened (t : Spec E) (h : TcpMuxHeader) : Spec E :=
  if validateTcpMuxProtocol h = false then { t with pos := .stuck }
  else if h.type = TcpMuxType.tmuxData.code then
    if h.length > maxStreamWindowSize then { t with pos := .stuck }
    else if 0 < h.length then { t with pos := .payload h [] }
    else if M.registered t.env h.streamId = true then { t with pos := .stuck }
    else { t with pos := .header [] }
  else t.control M h

def Spec.byte (t : Spec E) (b : UInt8) : Spec E :=
  match t.pos with
  | .header acc =>
    if (acc ++ [b]).length < headerSize then { t with pos := .header (acc ++ [b]) }
    else t.opened M (.decode (acc ++ [b]))
  | .payload h acc =>
    if (acc ++ [b]).length < h.length then { t with pos := .payload h (acc ++ [b]) }
    else t.complete M h (acc ++ [b])
  | .stuck => t

def Spec.feed (t : Spec E) (w : Bytes) : Spec E := w.foldl (Spec.byte M) t

variable {M}

theorem feed_append (t : Spec E) (u w : Bytes) : t.feed M (u ++ w) = (t.feed M u).feed M w :=
  List.foldl_append

theorem feed_cons (t : Spec E) (b : UInt8) (w : Bytes) :
    t.feed M (b :: w) = (t.byte M b).feed M w := rfl

theorem feed_header_short {t : Spec E} {acc w : Bytes} (hp : t.pos = .header acc)
    (hl : acc.length + w.length < headerSize) :
    t.feed M w = { t with pos := .header (acc ++ w) } := by
  induction w generalizing t acc with
  | nil => simp [Spec.feed, ← hp]
  | cons b w ih =>
    have hlen : (acc ++ [b]).length < headerSize := by
      simp only [List.length_append, List.length_cons, List.length_nil] at hl ⊢
      omega
    have hb : t.byte M b = { t with pos := .header (acc ++ [b]) } := by
      simp only [Spec.byte, hp, hlen, if_true]
    have hl' : (acc ++ [b]).length + w.length < headerSize := by
      simp only [List.length_append, List.length_cons, List.length_nil] at hl ⊢
      omega
    rw [feed_cons, hb, ih rfl hl']
    simp

@[simp] theorem opened_pos (t : Spec E) (p : Pos) (h : TcpMuxHeader) :
    ({ t with pos := p } : Spec E).opened M h = t.opened M h := rfl

@[simp] theorem complete_pos (t : Spec E) (p : Pos) (h : TcpMuxHeader) (payload : Bytes) :
    ({ t with pos := p } : Spec E).complete M h payload = t.complete M h payload := rfl

theorem feed_header_full {t : Spec E} {acc w : Bytes} (hp : t.pos = .header acc) (hw : w ≠ [])
    (hl : acc.length + w.length = headerSize) :
    t.feed M w = t.opened M (.decode (acc ++ w)) := by
  obtain ⟨u, b, rfl⟩ := (List.eq_nil_or_concat' w).resolve_left hw
  have hlen : acc.length + u.length + 1 = headerSize := by
    simpa [Nat.add_assoc] using hl
  have hn : ¬ (acc ++ u ++ [b]).length < headerSize := by
    simp only [List.length_append, List.length_singleton]
    omega
  have hb : Spec.byte M { t with pos := .header (acc ++ u) } b =
      t.opened M (.decode (acc ++ u ++ [b])) := by
    simp only [Spec.byte, hn, if_false, opened_pos]
  rw [feed_append, feed_header_short hp (by omega), feed_cons, hb, ← List.append_assoc]
  rfl

theorem feed_payload_short {t : Spec E} {h : TcpMuxHeader} {a w : Bytes}
    (hp : t.pos = .payload h a) (hl : a.length + w.length < h.length) :
    t.feed M w = { t with pos := .payload h (a ++ w) } := by
  induction w generalizing t a with
  | nil => simp [Spec.feed, ← hp]
  | cons b w ih =>
    simp only [List.length_cons] at hl
    have hlen : (a ++ [b]).length < h.length := by
      simp only [List.length_append, List.length_singleton]
      omega
    have hb : t.byte M b = { t with pos := .payload h (a ++ [b]) } := by
      simp only [Spec.byte, hp, hlen, if_true]
    have hl' : (a ++ [b]).length + w.length < h.length := by
      simp only [List.length_append, List.length_singleton]
      omega
    rw [feed_cons, hb, ih rfl hl']
    simp

theorem feed_payload_full {t : Spec E} {h : TcpMuxHeader} {a w : Bytes}
    (hp : t.pos = .payload h a) (hw : w ≠ []) (hl : a.length + w.length = h.length) :
    t.feed M w = t.complete M h (a ++ w) := by
  obtain ⟨u, b, rfl⟩ := (List.eq_nil_or_concat' w).resolve_left hw
  have hlen : a.length + u.length + 1 = h.length := by
    simpa [Nat.add_assoc] using hl
  have hn : ¬ (a ++ u ++ [b]).length < h.length := by
    simp only [List.length_append, List.length_singleton]
    omega
  have hb : Spec.byte M { t with pos := .payload h (a ++ u) } b =
      t.complete M h (a ++ u ++ [b]) := by
    simp only [Spec.byte, hn, if_false, complete_pos]
  rw [feed_append, feed_payload_short hp (by omega), feed_cons, hb, ← List.append_assoc]
  rfl

theorem feed_stuck {t : Spec E} (hp : t.pos = .stuck) (w : Bytes) : t.feed M w = t := by
  induction w with
  | nil => rfl
  | cons b w ih =>
    have hb : t.byte M b = t := by simp only [Spec.byte, hp]
    rw [feed_cons, hb, ih]

theorem opened_payload {t : Spec E} {h h' : TcpMuxHeader} {acc : Bytes}
    (hp : (t.opened M h).pos = .payload h' acc) : acc = [] := by
  unfold Spec.opened Spec.control at hp
  split_ifs at hp
  all_goals simp_all

theorem feed_payload_length {t : Spec E} {w acc : Bytes} {h : TcpMuxHeader}
    (hp : (t.feed M w).pos = .payload h acc) :
    acc.length < w.length ∨ ∃ acc₀, t.pos = .payload h acc₀ ∧ acc = acc₀ ++ w := by
  induction w generalizing t with
  | nil => exact .inr ⟨acc, hp, by simp⟩
  | cons b w ih =>
    rw [feed_cons] at hp
    obtain hlt | ⟨acc₁, hp₁, rfl⟩ := ih hp
    · exact .inl (Nat.lt_succ_of_lt hlt)
    · unfold Spec.byte at hp₁
      split at hp₁
      · split_ifs at hp₁
        rw [opened_payload hp₁]
        exact .inl (by simp)
      · rename_i h₀ acc₀ hpos
        split_ifs at hp₁
        · simp only [Pos.payload.injEq] at hp₁
          obtain ⟨rfl, rfl⟩ := hp₁
          exact .inr ⟨acc₀, hpos, by simp⟩
        · unfold Spec.complete at hp₁
          split_ifs at hp₁
      · rename_i hpos
        rw [hpos] at hp₁
        simp at hp₁

end Xfrpc.Mux.Segmentation
