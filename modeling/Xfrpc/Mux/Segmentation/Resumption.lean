import Xfrpc.Mux.Segmentation.Bytes

namespace Xfrpc.Mux.Segmentation

open Header Demux Foundations.Runs

variable {E : Type} {M : MuxEnv E}

/-- `process_data` takes its payload off the input and looks at nothing behind it. -/
structure Consumes (M : MuxEnv E) : Prop where
  rest : ∀ e payload tail id flags,
    (M.processData e (payload ++ tail) id payload.length flags).2 = tail
  local' : ∀ e payload tail id flags,
    (M.processData e (payload ++ tail) id payload.length flags).1 =
      (M.processData e payload id payload.length flags).1

structure Synced (s : Reader E) (t : Spec E) : Prop where
  env : s.env = t.env
  calls : s.calls = t.calls
  hdr : s.tmuxHdr.length = headerSize

/-- The reader between two deliveries, as the specification sees it. An
unfinished payload waits in the input if its stream is registered, and has been
drained as far as it came if not. -/
def Rests (M : MuxEnv E) (s : Reader E) (t : Spec E) : Prop :=
  Synced s t ∧
  match t.pos with
  | .header acc =>
    s.curStream = .null ∧ s.partialHeader = acc.length ∧ acc.length < headerSize ∧
      s.tmuxHdr.take acc.length = acc ∧ s.input = [] ∧ s.drained = t.discarded
  | .payload h acc =>
    .decode s.tmuxHdr = h ∧ h.type = TcpMuxType.tmuxData.code ∧ s.partialHeader = 0 ∧
      acc.length < h.length ∧
      if M.registered t.env h.streamId = true then
        s.curStream = .stream h.streamId ∧ s.streamLen = h.length ∧ s.input = acc ∧
          s.drained = t.discarded
      else
        s.curStream = .abandon ∧ s.streamLen + acc.length = h.length ∧ s.input = [] ∧
          s.drained = t.discarded ++ acc
  | .stuck => False

structure AtHeader (s : Reader E) (t : Spec E) : Prop extends Synced s t where
  pos : t.pos = .header []
  cur : s.curStream = .null
  partialHeader : s.partialHeader = 0
  len : s.len = s.input.length
  drained : s.drained = t.discarded

/-- The reader inside its loop with the header `h` just read. -/
structure HeaderRead (s : Reader E) (t : Spec E) (h : TcpMuxHeader) : Prop
    extends Synced s t where
  decode : .decode s.tmuxHdr = h
  cur : s.curStream = .null
  partialHeader : s.partialHeader = 0
  len : s.len = s.input.length
  drained : s.drained = t.discarded

def Uncut (M : MuxEnv E) (t : Spec E) : Prop :=
  ∀ h acc, t.pos = .payload h acc → M.registered t.env h.streamId = false → acc = []

/-- An iteration from a point where the specification is at `t` with `input`
still to come: it leaves the loop at rest, or goes on at a later header. -/
def Handles (M : MuxEnv E) (t : Spec E) (input : Bytes) : Demux.Flow E → Prop
  | .stop s => Rests M s (t.feed M input)
  | .next s => ∃ w, input = w ++ s.input ∧ AtHeader s (t.feed M w)

theorem AtHeader.rests {s : Reader E} {t : Spec E} (h : AtHeader s t) (hi : s.input = []) :
    Rests M s t := by
  refine ⟨h.toSynced, ?_⟩
  rw [h.pos]
  exact ⟨h.cur, h.partialHeader, by decide, rfl, hi, h.drained⟩

theorem Rests.ofStream {s : Reader E} {t : Spec E} {h : TcpMuxHeader} {acc : Bytes}
    (hs : Synced s t) (hpos : t.pos = .payload h acc) (hd : .decode s.tmuxHdr = h)
    (hty : h.type = TcpMuxType.tmuxData.code) (hph : s.partialHeader = 0)
    (hacc : acc.length < h.length) (hr : M.registered t.env h.streamId = true)
    (hcur : s.curStream = .stream h.streamId) (hsl : s.streamLen = h.length)
    (hin : s.input = acc) (hdr : s.drained = t.discarded) : Rests M s t := by
  refine ⟨hs, ?_⟩
  rw [hpos]
  refine ⟨hd, hty, hph, hacc, ?_⟩
  rw [if_pos hr]
  exact ⟨hcur, hsl, hin, hdr⟩

theorem Rests.ofAbandon {s : Reader E} {t : Spec E} {h : TcpMuxHeader} {acc : Bytes}
    (hs : Synced s t) (hpos : t.pos = .payload h acc) (hd : .decode s.tmuxHdr = h)
    (hty : h.type = TcpMuxType.tmuxData.code) (hph : s.partialHeader = 0)
    (hacc : acc.length < h.length) (hr : M.registered t.env h.streamId = false)
    (hcur : s.curStream = .abandon) (hsl : s.streamLen + acc.length = h.length)
    (hin : s.input = []) (hdr : s.drained = t.discarded ++ acc) : Rests M s t := by
  refine ⟨hs, ?_⟩
  rw [hpos]
  refine ⟨hd, hty, hph, hacc, ?_⟩
  rw [if_neg (by simp [hr])]
  exact ⟨hcur, hsl, hin, hdr⟩

theorem dispatchData_atHeader (hM : Consumes M) {s : Reader E} {t : Spec E} {h : TcpMuxHeader}
    {payload tail : Bytes} (hs : Synced s t)
    (hr : M.registered t.env h.streamId = true) (hin : s.input = payload ++ tail)
    (hp : payload.length = h.length) (hlen : s.len = s.input.length)
    (hsl : s.streamLen = h.length) (hph : s.partialHeader = 0) (hdr : s.drained = t.discarded) :
    AtHeader (dispatchData M s h.streamId h) (t.complete M h payload) ∧
      (dispatchData M s h.streamId h).input = tail := by
  have hrest := hM.rest s.env payload tail h.streamId h.flags
  have hloc := hM.local' s.env payload tail h.streamId h.flags
  have htake : s.input.take h.length = payload := by
    rw [hin, ← hp, List.take_left]
  rw [hp, ← hin] at hrest hloc
  have hin' : (dispatchData M s h.streamId h).input = tail := by
    simp only [dispatchData, hsl, hrest]
  refine ⟨⟨⟨?_, ?_, hs.hdr⟩, ?_, rfl, hph, ?_, ?_⟩, hin'⟩
  · rw [hs.env] at hloc
    simp only [dispatchData, Spec.complete, hr, if_true, hsl, hs.env]
    exact hloc
  · simp only [dispatchData, Spec.complete, hr, if_true, htake, hsl, hs.calls]
  · simp only [Spec.complete, hr, if_true]
  · have hl : s.len - s.streamLen = tail.length := by
      rw [hlen, hin, hsl, ← hp]
      simp
    rw [hin']
    exact hl
  · simp only [dispatchData, Spec.complete, hr, if_true]
    exact hdr

/-- A delivery that does not end inside the payload of an unknown stream whose
header it completes, unless it ends with that header. -/
def SafeCut (M : MuxEnv E) (t : Spec E) (c : Bytes) : Prop :=
  ∀ h acc, (t.feed M c).pos = .payload h acc → M.registered (t.feed M c).env h.streamId = false →
    acc = [] ∨ c.length ≤ acc.length

theorem SafeCut.uncut {t : Spec E} {acc c : Bytes} (hsafe : SafeCut M t c)
    (hp : t.pos = .header acc) : Uncut M (t.feed M c) := by
  intro h acc' hpos hr
  obtain hnil | hle := hsafe h acc' hpos hr
  · exact hnil
  · obtain hlt | ⟨acc₀, hp', -⟩ := feed_payload_length hpos
    · omega
    · rw [hp] at hp'
      simp at hp'

theorem SafeCut.suffix {t : Spec E} {u w : Bytes} (h : SafeCut M t (u ++ w)) :
    SafeCut M (t.feed M u) w := by
  intro hd acc hpos hr
  rw [← feed_append] at hpos hr
  obtain hnil | hle := h hd acc hpos hr
  · exact .inl hnil
  · rw [List.length_append] at hle
    exact .inr (by omega)

theorem consume_stream (hM : Consumes M) {s : Reader E} {t : Spec E} {h : TcpMuxHeader}
    {acc c : Bytes} (hs : Synced s t) (hpos : t.pos = .payload h acc)
    (hd : .decode s.tmuxHdr = h) (hty : h.type = TcpMuxType.tmuxData.code)
    (hr : M.registered t.env h.streamId = true) (hin : s.input = acc ++ c)
    (hacc : acc.length < h.length) (hlen : s.len = s.input.length)
    (hsl : s.streamLen = h.length) (hph : s.partialHeader = 0) (hdr : s.drained = t.discarded) :
    Handles M t c (consume M s (.stream h.streamId)) := by
  have hlen' : s.len = acc.length + c.length := by rw [hlen, hin, List.length_append]
  have hpos' : 0 < s.streamLen := by omega
  unfold consume
  simp only [hd, hty, hpos', true_and, if_true]
  by_cases hshort : acc.length + c.length < h.length
  · have hlt : min s.len s.streamLen < s.streamLen := by omega
    rw [if_pos hlt]
    have hf := feed_payload_short (M := M) hpos hshort
    have hlen'' : (acc ++ c).length < h.length := by rw [List.length_append]; exact hshort
    change Rests M _ _
    rw [hf]
    exact .ofStream ⟨hs.env, hs.calls, hs.hdr⟩ rfl hd hty hph hlen'' hr rfl hsl hin hdr
  · have hge : ¬ min s.len s.streamLen < s.streamLen := by omega
    rw [if_neg hge]
    obtain ⟨w, tail, rfl, hw⟩ : ∃ w tail, c = w ++ tail ∧ acc.length + w.length = h.length := by
      refine ⟨c.take (h.length - acc.length), c.drop (h.length - acc.length), ?_, ?_⟩
      · rw [List.take_append_drop]
      · rw [List.length_take]
        omega
    have hne : w ≠ [] := by
      rintro rfl
      simp only [List.length_nil, Nat.add_zero] at hw
      omega
    have hin' : s.input = (acc ++ w) ++ tail := by rw [hin, List.append_assoc]
    have hplen : (acc ++ w).length = h.length := by rw [List.length_append]; exact hw
    obtain ⟨hat, htail⟩ := dispatchData_atHeader hM hs hr hin' hplen hlen hsl hph hdr
    refine ⟨w, by rw [htail], ?_⟩
    rw [feed_payload_full hpos hne hw]
    exact hat

theorem consume_abandon_full {s : Reader E} {t : Spec E} {h : TcpMuxHeader} {a w tail : Bytes}
    (hs : Synced s t) (hd : .decode s.tmuxHdr = h)
    (hty : h.type = TcpMuxType.tmuxData.code) (hr : M.registered t.env h.streamId = false)
    (hin : s.input = w ++ tail) (hw : w ≠ []) (hacc : a.length + w.length = h.length)
    (hlen : s.len = s.input.length) (hsl : s.streamLen + a.length = h.length)
    (hph : s.partialHeader = 0) (hdr : s.drained = t.discarded ++ a) :
    ∃ s', consume M s .abandon = .next s' ∧ s'.input = tail ∧
      AtHeader s' (t.complete M h (a ++ w)) := by
  have hwpos : 0 < w.length := List.length_pos_of_ne_nil hw
  have hslw : s.streamLen = w.length := by omega
  have hlen' : s.len = w.length + tail.length := by rw [hlen, hin, List.length_append]
  have hmin : min s.len s.streamLen = w.length := by omega
  have hpos : 0 < s.streamLen := by omega
  have hz : s.streamLen - w.length = 0 := by omega
  unfold consume
  simp only [hd, hty, hpos, true_and, if_true, hmin, hz, hin, List.drop_left, List.take_left]
  refine ⟨_, rfl, rfl, ⟨⟨?_, ?_, hs.hdr⟩, ?_, rfl, hph, ?_, ?_⟩⟩
  · simp only [Spec.complete, hr, Bool.false_eq_true, if_false, hs.env]
  · simp only [Spec.complete, hr, Bool.false_eq_true, if_false, hs.calls]
  · simp only [Spec.complete, hr, Bool.false_eq_true, if_false]
  · dsimp only
    omega
  · simp only [Spec.complete, hr, Bool.false_eq_true, if_false, hdr, List.append_assoc]

theorem consume_abandon_short {s : Reader E} {t : Spec E} {h : TcpMuxHeader} {acc c : Bytes}
    (hs : Synced s t) (hpos : t.pos = .payload h acc) (hcur : s.curStream = .abandon)
    (hd : .decode s.tmuxHdr = h) (hty : h.type = TcpMuxType.tmuxData.code)
    (hr : M.registered t.env h.streamId = false) (hin : s.input = c)
    (hacc : acc.length + c.length < h.length) (hlen : s.len = s.input.length)
    (hsl : s.streamLen + acc.length = h.length) (hph : s.partialHeader = 0)
    (hdr : s.drained = t.discarded ++ acc) :
    ∃ s', consume M s .abandon = .next s' ∧ s'.len = 0 ∧ Rests M s' (t.feed M c) := by
  have hlen' : s.len = c.length := by rw [hlen, hin]
  have hmin : min s.len s.streamLen = c.length := by omega
  have hp : 0 < s.streamLen := by omega
  have hz : ¬ s.streamLen - c.length = 0 := by omega
  have hf := feed_payload_short (M := M) hpos hacc
  unfold consume
  simp only [hd, hty, hp, true_and, if_true, hmin, hz, if_false]
  refine ⟨_, rfl, by dsimp only; omega, ?_⟩
  rw [hf]
  refine .ofAbandon ⟨hs.env, hs.calls, hs.hdr⟩ rfl hd hty hph ?_ hr hcur ?_ ?_ ?_
  · rw [List.length_append]
    exact hacc
  · rw [List.length_append]
    dsimp only
    omega
  · rw [hin, List.drop_length]
  · rw [hdr, hin, List.take_length, List.append_assoc]

theorem consume_control {s : Reader E} {t : Spec E} {h : TcpMuxHeader} (hs : HeaderRead s t h)
    (hv : validateTcpMuxProtocol h = true) (hty : h.type ≠ TcpMuxType.tmuxData.code) :
    ∃ s', consume M s .null = .next s' ∧ s'.input = s.input ∧ AtHeader s' (t.control M h) := by
  have hcode : h.type = TcpMuxType.windowUpdate.code ∨ h.type = TcpMuxType.ping.code ∨
      h.type = TcpMuxType.goAway.code := by
    simp only [validateTcpMuxProtocol, Bool.and_eq_true, decide_eq_true_eq] at hv
    have h3 := hv.2
    simp only [TcpMuxType.code] at hty h3 ⊢
    omega
  unfold consume Spec.control
  rw [hs.decode]
  have hne : ¬ (h.type = TcpMuxType.tmuxData.code ∧ 0 < s.streamLen) := fun hc ↦ hty hc.1
  rw [if_neg hne]
  obtain hc | hc | hc := hcode
  all_goals
    simp only [hc, TcpMuxType.code, if_true, Nat.reduceEqDiff, if_false]
    refine ⟨_, rfl, rfl, ⟨⟨?_, ?_, hs.hdr⟩, rfl, rfl, hs.partialHeader, hs.len, hs.drained⟩⟩
    · simp only [hs.env]
    · simp only [hs.calls]

theorem afterHeader_control {s : Reader E} {t : Spec E} {h : TcpMuxHeader}
    (hs : HeaderRead s t h) (hv : validateTcpMuxProtocol h = true)
    (hty : h.type ≠ TcpMuxType.tmuxData.code) :
    Handles M (t.opened M h) s.input (afterHeader M s) := by
  obtain ⟨s', hc, hin, hat⟩ := consume_control (M := M) hs hv hty
  have ho : t.opened M h = t.control M h := by simp only [Spec.opened, hv, hty]; rfl
  have ha : afterHeader M s = .next s' := by
    simp only [afterHeader, hs.decode, hv, hty, if_false, Bool.true_eq_false, hc]
  rw [ha, ho]
  exact ⟨[], by rw [hin]; rfl, hat⟩

theorem afterHeader_registered (hM : Consumes M) {s : Reader E} {t : Spec E} {h : TcpMuxHeader}
    (hs : HeaderRead s t h) (hty : h.type = TcpMuxType.tmuxData.code) (hpos : 0 < h.length)
    (hr : M.registered t.env h.streamId = true) :
    Handles M { t with pos := .payload h [] } s.input
      (if s.len = 0 then .stop { s with streamLen := h.length, curStream := .stream h.streamId }
       else consume M { s with streamLen := h.length } (.stream h.streamId)) := by
  by_cases h0 : s.len = 0
  · have hnil : s.input = [] := List.length_eq_zero_iff.mp (hs.len.symm.trans h0)
    have hf : Spec.feed M { t with pos := .payload h [] } s.input =
        { t with pos := .payload h [] } := by rw [hnil]; rfl
    rw [if_pos h0]
    change Rests M _ _
    rw [hf]
    exact .ofStream ⟨hs.env, hs.calls, hs.hdr⟩ rfl hs.decode hty hs.partialHeader hpos hr rfl rfl
      hnil hs.drained
  · rw [if_neg h0]
    exact consume_stream hM ⟨hs.env, hs.calls, hs.hdr⟩ rfl hs.decode hty hr rfl hpos hs.len rfl
      hs.partialHeader hs.drained

theorem afterHeader_unknown {s : Reader E} {t : Spec E} {h : TcpMuxHeader}
    (hs : HeaderRead s t h) (hty : h.type = TcpMuxType.tmuxData.code) (hpos : 0 < h.length)
    (hr : M.registered t.env h.streamId = false)
    (hcut : Uncut M (Spec.feed M { t with pos := .payload h [] } s.input)) :
    Handles M { t with pos := .payload h [] } s.input
      (if s.len = 0 then .stop { s with streamLen := h.length, curStream := .abandon }
       else consume M { s with streamLen := h.length } .abandon) := by
  by_cases h0 : s.len = 0
  · have hnil : s.input = [] := List.length_eq_zero_iff.mp (hs.len.symm.trans h0)
    have hf : Spec.feed M { t with pos := .payload h [] } s.input =
        { t with pos := .payload h [] } := by rw [hnil]; rfl
    rw [if_pos h0]
    change Rests M _ _
    rw [hf]
    exact .ofAbandon ⟨hs.env, hs.calls, hs.hdr⟩ rfl hs.decode hty hs.partialHeader hpos hr rfl rfl
      hnil (by simp [hs.drained])
  · have hfull : h.length ≤ s.input.length := by
      by_contra hlt
      have hf := feed_payload_short (M := M) (t := { t with pos := .payload h [] }) (w := s.input)
        (h := h) (a := []) rfl (by simpa using hlt)
      have hni := hcut h s.input (by rw [hf]; rfl) (by rw [hf]; exact hr)
      exact h0 (by rw [hs.len, hni]; rfl)
    have hw : s.input.take h.length ≠ [] := by
      intro hnil
      have hl := congrArg List.length hnil
      rw [List.length_take, List.length_nil] at hl
      omega
    have hlen : ([] : Bytes).length + (s.input.take h.length).length = h.length := by
      rw [List.length_nil, List.length_take]
      omega
    obtain ⟨s', hc, hin, hat⟩ := consume_abandon_full (M := M) (t := t) (a := [])
      (s := { s with streamLen := h.length }) ⟨hs.env, hs.calls, hs.hdr⟩ hs.decode hty hr
      (List.take_append_drop h.length s.input).symm hw hlen hs.len rfl hs.partialHeader
      (by simp [hs.drained])
    rw [if_neg h0, hc]
    refine ⟨s.input.take h.length, by rw [hin, List.take_append_drop], ?_⟩
    rw [feed_payload_full (h := h) (a := []) rfl hw hlen]
    exact hat

theorem afterHeader_handles (hM : Consumes M) {s : Reader E} {t : Spec E} {h : TcpMuxHeader}
    (hs : HeaderRead s t h) (hstuck : ((t.opened M h).feed M s.input).pos ≠ .stuck)
    (hcut : Uncut M ((t.opened M h).feed M s.input)) :
    Handles M (t.opened M h) s.input (afterHeader M s) := by
  have hopen : (t.opened M h).pos ≠ .stuck := fun ho ↦ hstuck (by rw [feed_stuck ho, ho])
  by_cases hv : validateTcpMuxProtocol h = false
  · exact absurd (by rw [Spec.opened, if_pos hv]) hopen
  by_cases hty : h.type = TcpMuxType.tmuxData.code
  swap
  · exact afterHeader_control hs (by simpa using hv) hty
  by_cases hbig : h.length > maxStreamWindowSize
  · exact absurd (by rw [Spec.opened, if_neg hv, if_pos hty, if_pos hbig]) hopen
  unfold afterHeader
  rw [hs.decode, if_neg hv, if_pos hty]
  dsimp only
  rw [if_neg hbig]
  by_cases hpos : 0 < h.length
  · have ho : t.opened M h = { t with pos := .payload h [] } := by
      rw [Spec.opened, if_neg hv, if_pos hty, if_neg hbig, if_pos hpos]
    rw [ho] at hcut ⊢
    by_cases hr : M.registered t.env h.streamId = true
    · rw [if_pos (by rw [hs.env]; exact hr)]
      exact afterHeader_registered hM hs hty hpos hr
    · rw [if_neg (by rw [hs.env]; exact hr), if_pos hpos]
      exact afterHeader_unknown hs hty hpos (by simpa using hr) hcut
  · by_cases hr : M.registered t.env h.streamId = true
    · exact absurd (by rw [Spec.opened, if_neg hv, if_pos hty, if_neg hbig, if_neg hpos,
        if_pos hr]) hopen
    · have ho : t.opened M h = { t with pos := .header [] } := by
        rw [Spec.opened, if_neg hv, if_pos hty, if_neg hbig, if_neg hpos, if_neg hr]
      rw [if_neg (by rw [hs.env]; exact hr), if_neg hpos, ho]
      exact ⟨[], rfl, ⟨⟨hs.env, hs.calls, hs.hdr⟩, rfl, hs.cur, hs.partialHeader, hs.len,
        hs.drained⟩⟩

/-- The reader inside its loop with the first `acc` bytes of a header read. -/
structure Reading (s : Reader E) (t : Spec E) (acc : Bytes) : Prop extends Synced s t where
  pos : t.pos = .header acc
  cur : s.curStream = .null
  partialHeader : s.partialHeader = acc.length
  short : acc.length < headerSize
  take : s.tmuxHdr.take acc.length = acc
  len : s.len = s.input.length
  drained : s.drained = t.discarded

theorem AtHeader.reading {s : Reader E} {t : Spec E} (h : AtHeader s t) : Reading s t [] :=
  { h with short := by decide, take := rfl }

theorem overwrite_length {b data : Bytes} {k : ℕ} (h : k + data.length ≤ b.length) :
    (overwrite b k data).length = b.length := by
  simp only [overwrite, List.length_append, List.length_take, List.length_drop]
  omega

theorem overwrite_take {b d a : Bytes} (h : b.take a.length = a) :
    (overwrite b a.length d).take (a.length + d.length) = a ++ d := by
  rw [overwrite, h, List.take_left' (by simp)]

theorem overwrite_all {b d a : Bytes} (h : b.take a.length = a)
    (hl : a.length + d.length = b.length) : overwrite b a.length d = a ++ d := by
  rw [overwrite, h, List.drop_eq_nil_of_le (by omega), List.append_nil]

theorem readHeader_short {s : Reader E} {t : Spec E} {acc : Bytes} (h : Reading s t acc)
    (hfew : acc.length + s.input.length < headerSize) :
    ∃ s', readHeader s = .stop s' ∧ Rests M s' (t.feed M s.input) := by
  have hph := h.partialHeader
  have hlen := h.len
  rw [feed_header_short (M := M) h.pos hfew]
  by_cases hp : 0 < acc.length
  · have htake : s.input.take (headerSize - acc.length) = s.input :=
      List.take_of_length_le (by omega)
    unfold readHeader
    simp only [hph, hp, if_true, htake, hfew]
    refine ⟨_, rfl, ⟨⟨h.env, h.calls, ?_⟩, h.cur, ?_, ?_, ?_, ?_, h.drained⟩⟩
    · have hl := h.hdr
      exact (overwrite_length (by omega)).trans hl
    · rw [List.length_append]
    · rw [List.length_append]; exact hfew
    · rw [List.length_append]; exact overwrite_take h.take
    · rw [List.drop_length]
  · obtain rfl : acc = [] := List.length_eq_zero_iff.mp (by omega)
    simp only [List.length_nil, Nat.zero_add] at hfew hph
    have htake : s.input.take s.len = s.input := List.take_of_length_le (by omega)
    have hlt : s.len < headerSize := by omega
    have hsize : zeroHeader.length = headerSize := rfl
    unfold readHeader
    simp only [hph, Nat.lt_irrefl, if_false, hlt, if_true, htake]
    refine ⟨_, rfl, ⟨⟨h.env, h.calls, ?_⟩, h.cur, rfl, hfew, ?_, ?_, h.drained⟩⟩
    · exact (overwrite_length (by omega)).trans hsize
    · simpa using overwrite_take (b := zeroHeader) (d := s.input) (a := []) rfl
    · rw [List.drop_length]

theorem readHeader_full {s : Reader E} {t : Spec E} {acc : Bytes} (h : Reading s t acc)
    (hfull : headerSize ≤ acc.length + s.input.length) :
    ∃ s' w, readHeader s = .next s' ∧ s.input = w ++ s'.input ∧ w ≠ [] ∧
      t.feed M w = t.opened M (.decode (acc ++ w)) ∧ HeaderRead s' t (.decode (acc ++ w)) := by
  have hph := h.partialHeader
  have hlen := h.len
  have hshort := h.short
  obtain ⟨w, tail, hin, hwlen⟩ : ∃ w tail, s.input = w ++ tail ∧
      w.length = headerSize - acc.length := by
    refine ⟨s.input.take (headerSize - acc.length), s.input.drop (headerSize - acc.length), ?_, ?_⟩
    · rw [List.take_append_drop]
    · rw [List.length_take]
      omega
  have hw : w ≠ [] := by
    rintro rfl
    rw [List.length_nil] at hwlen
    omega
  have hlen' : s.len = w.length + tail.length := by rw [hlen, hin, List.length_append]
  have hfeed := feed_header_full (M := M) h.pos hw (by omega)
  by_cases hp : 0 < acc.length
  · have hge : ¬ acc.length + w.length < headerSize := by omega
    have hall := overwrite_all h.take (d := w) (by rw [h.hdr]; omega)
    unfold readHeader
    simp only [hph, hp, if_true, hin, ← hwlen, List.take_left, List.drop_left, hge, if_false]
    refine ⟨_, w, rfl, rfl, hw, hfeed, ⟨⟨h.env, h.calls, ?_⟩, by rw [hall], h.cur, rfl, ?_, h.drained⟩⟩
    · rw [hall, List.length_append]; omega
    · dsimp only; omega
  · obtain rfl : acc = [] := List.length_eq_zero_iff.mp (by omega)
    simp only [List.length_nil, Nat.sub_zero, List.nil_append] at hph hwlen hfeed ⊢
    have hge : ¬ s.len < w.length := by omega
    have hsize : zeroHeader.length = headerSize := rfl
    have hall : overwrite zeroHeader 0 w = w :=
      overwrite_all (b := zeroHeader) (a := []) rfl (by simpa [hsize] using hwlen)
    unfold readHeader
    simp only [hph, Nat.lt_irrefl, if_false, hge, hin, ← hwlen, List.take_left, List.drop_left,
      ne_eq, not_true_eq_false]
    refine ⟨_, w, rfl, rfl, hw, hfeed, ⟨⟨h.env, h.calls, ?_⟩, by rw [hall], h.cur, rfl, ?_, h.drained⟩⟩
    · rw [hall]; exact hwlen
    · dsimp only; omega

def resume (M : MuxEnv E) (fuel : ℕ) : Demux.Flow E → Reader E
  | .stop s => s
  | .next s => loop M fuel s

theorem loop_succ (fuel : ℕ) {s : Reader E} (hs : s.len ≠ 0) :
    loop M (fuel + 1) s = resume M fuel (iteration M s) := by
  rw [loop, if_neg hs]
  cases iteration M s <;> rfl

theorem loop_done (fuel : ℕ) {s : Reader E} (hs : s.len = 0) : loop M fuel s = s := by
  cases fuel with
  | zero => rfl
  | succ fuel => rw [loop, if_pos hs]

theorem Reading.iteration_handles (hM : Consumes M) {s : Reader E} {t : Spec E} {acc : Bytes}
    (h : Reading s t acc) (hstuck : (t.feed M s.input).pos ≠ .stuck)
    (hcut : Uncut M (t.feed M s.input)) :
    Handles M t s.input (iteration M s) ∧
      ∀ s', iteration M s = .next s' → s'.input.length < s.input.length := by
  unfold iteration
  rw [h.cur]
  dsimp only
  by_cases hfew : acc.length + s.input.length < headerSize
  · obtain ⟨s', hr, hrest⟩ := readHeader_short (M := M) h hfew
    rw [hr]
    exact ⟨hrest, by simp⟩
  · obtain ⟨s₁, w, hr, hin, hw, hfeed, hread⟩ := readHeader_full (M := M) h (by omega)
    rw [hin, feed_append, hfeed] at hstuck hcut
    have hh := afterHeader_handles hM hread hstuck hcut
    have hwpos := List.length_pos_of_ne_nil hw
    rw [hr, hin]
    dsimp only
    cases hflow : afterHeader M s₁ with
    | stop s' =>
      rw [hflow] at hh
      refine ⟨?_, by simp⟩
      change Rests M _ _
      rw [feed_append, hfeed]
      exact hh
    | next s' =>
      rw [hflow] at hh
      obtain ⟨u, hu, hat⟩ := hh
      refine ⟨⟨w ++ u, by rw [hu, List.append_assoc], ?_⟩, ?_⟩
      · rw [feed_append, hfeed]
        exact hat
      · rintro s'' hs
        obtain rfl : s' = s'' := by simpa using hs
        rw [hu]
        simp only [List.length_append]
        omega

theorem loop_rests (hM : Consumes M) {fuel : ℕ} {s : Reader E} {t : Spec E} (h : AtHeader s t)
    (hfuel : s.input.length ≤ fuel) (hstuck : (t.feed M s.input).pos ≠ .stuck)
    (hcut : Uncut M (t.feed M s.input)) : Rests M (loop M fuel s) (t.feed M s.input) := by
  induction fuel generalizing s t with
  | zero =>
    have hnil : s.input = [] := List.length_eq_zero_iff.mp (by omega)
    rw [hnil]
    exact h.rests hnil
  | succ fuel ih =>
    by_cases hnil : s.input = []
    · have h0 : s.len = 0 := by rw [h.len, hnil]; rfl
      rw [loop_done _ h0, hnil]
      exact h.rests hnil
    · have h0 : s.len ≠ 0 := by
        rw [h.len]
        exact fun hl ↦ hnil (List.length_eq_zero_iff.mp hl)
      obtain ⟨hh, hless⟩ := h.reading.iteration_handles hM hstuck hcut
      rw [loop_succ fuel h0]
      cases hflow : iteration M s with
      | stop s' =>
        rw [hflow] at hh
        exact hh
      | next s' =>
        have hlt := hless s' hflow
        rw [hflow] at hh
        obtain ⟨w, hin, hat⟩ := hh
        rw [hin, feed_append] at hstuck hcut ⊢
        exact ih hat (by omega) hstuck hcut

theorem resume_rests (hM : Consumes M) {fuel : ℕ} {flow : Demux.Flow E} {t : Spec E} {c : Bytes}
    (h : Handles M t c flow) (hfuel : ∀ s, flow = .next s → s.input.length ≤ fuel)
    (hstuck : (t.feed M c).pos ≠ .stuck) (hsafe : SafeCut M t c) :
    Rests M (resume M fuel flow) (t.feed M c) := by
  cases flow with
  | stop s => exact h
  | next s =>
    obtain ⟨w, hin, hat⟩ := h
    have hlen := hfuel s rfl
    rw [hin] at hsafe
    rw [hin, feed_append] at hstuck ⊢
    exact loop_rests hM hat hlen hstuck (hsafe.suffix.uncut hat.pos)

theorem Reader.input_append_nil (s : Reader E) : { s with input := s.input ++ [] } = s := by
  rw [List.append_nil]

theorem recvCb_nil {s : Reader E} (h : s.input = []) : recvCb M s [] = s := by
  unfold recvCb
  rw [Reader.input_append_nil]
  simp [h]

theorem recvCb_eq {s : Reader E} {c : Bytes} {fuel : ℕ} (h : (s.input ++ c).length = fuel + 1) :
    recvCb M s c = resume M fuel
      (iteration M { s with input := s.input ++ c, len := (s.input ++ c).length }) := by
  have hpos : 0 < (s.input ++ c).length := by omega
  unfold recvCb handleTcpMux
  simp only [hpos, if_true]
  rw [← loop_succ fuel (by simp only [ne_eq]; omega), h]

theorem recvCb_header (hM : Consumes M) {s : Reader E} {t : Spec E} {acc c : Bytes}
    (hr : Rests M s t) (hpos : t.pos = .header acc) (hsafe : SafeCut M t c)
    (hstuck : (t.feed M c).pos ≠ .stuck) : Rests M (recvCb M s c) (t.feed M c) := by
  obtain ⟨hs, hat⟩ := hr
  rw [hpos] at hat
  obtain ⟨hcur, hph, hshort, htake, hin, hdr⟩ := hat
  cases c with
  | nil =>
    rw [recvCb_nil hin]
    refine ⟨hs, ?_⟩
    change match t.pos with | .header acc => _ | .payload h acc => _ | .stuck => _
    rw [hpos]
    exact ⟨hcur, hph, hshort, htake, hin, hdr⟩
  | cons b c =>
    have hlen : (s.input ++ b :: c).length = c.length + 1 := by rw [hin]; rfl
    have hread : Reading { s with input := s.input ++ b :: c, len := (s.input ++ b :: c).length }
        t acc := ⟨⟨hs.env, hs.calls, hs.hdr⟩, hpos, hcur, hph, hshort, htake, rfl, hdr⟩
    rw [recvCb_eq hlen]
    have hin' : s.input ++ b :: c = b :: c := by rw [hin]; rfl
    obtain ⟨hh, hless⟩ := hread.iteration_handles hM (by simpa only [hin'] using hstuck)
      (by simpa only [hin'] using hsafe.uncut hpos)
    dsimp only at hh hless
    rw [hin'] at hh hless ⊢
    refine resume_rests hM hh (fun s' hs' ↦ ?_) hstuck hsafe
    have hlt := hless s' hs'
    rw [List.length_cons] at hlt
    omega

theorem recvCb_stream (hM : Consumes M) {s : Reader E} {t : Spec E} {h : TcpMuxHeader}
    {acc c : Bytes} (hr : Rests M s t) (hpos : t.pos = .payload h acc)
    (hreg : M.registered t.env h.streamId = true) (hsafe : SafeCut M t c)
    (hstuck : (t.feed M c).pos ≠ .stuck) : Rests M (recvCb M s c) (t.feed M c) := by
  obtain ⟨hs, hat⟩ := id hr
  rw [hpos] at hat
  obtain ⟨hd, hty, hph, hacc, hat⟩ := hat
  rw [if_pos hreg] at hat
  obtain ⟨hcur, hsl, hin, hdr⟩ := hat
  by_cases hzero : (s.input ++ c).length = 0
  · obtain ⟨hi, rfl⟩ := List.append_eq_nil_iff.mp (List.length_eq_zero_iff.mp hzero)
    rw [recvCb_nil hi]
    exact hr
  · obtain ⟨fuel, hfuel⟩ := Nat.exists_eq_succ_of_ne_zero hzero
    rw [recvCb_eq hfuel]
    have hit : iteration M { s with input := s.input ++ c, len := (s.input ++ c).length } =
        consume M { s with input := s.input ++ c, len := (s.input ++ c).length }
          (.stream h.streamId) := by
      simp only [iteration, hcur]
    have hh : Handles M t c (consume M { s with input := s.input ++ c, len := (s.input ++ c).length }
        (.stream h.streamId)) :=
      consume_stream hM ⟨hs.env, hs.calls, hs.hdr⟩ hpos hd hty hreg (by simp only [hin]) hacc rfl hsl
        hph hdr
    rw [hit]
    refine resume_rests hM hh (fun s' hs' ↦ ?_) hstuck hsafe
    rw [hs'] at hh
    obtain ⟨w, hw, hat⟩ := hh
    have hne : w ≠ [] := by
      rintro rfl
      have hp := hat.pos
      rw [show t.feed M [] = t from rfl, hpos] at hp
      simp at hp
    have hwpos := List.length_pos_of_ne_nil hne
    have hclen := congrArg List.length hw
    simp only [List.length_append] at hclen hfuel
    omega

theorem recvCb_abandon (hM : Consumes M) {s : Reader E} {t : Spec E} {h : TcpMuxHeader}
    {acc c : Bytes} (hr : Rests M s t) (hpos : t.pos = .payload h acc)
    (hreg : M.registered t.env h.streamId = false) (hsafe : SafeCut M t c)
    (hstuck : (t.feed M c).pos ≠ .stuck) : Rests M (recvCb M s c) (t.feed M c) := by
  obtain ⟨hs, hat⟩ := id hr
  rw [hpos] at hat
  obtain ⟨hd, hty, hph, hacc, hat⟩ := hat
  rw [if_neg (by simp [hreg])] at hat
  obtain ⟨hcur, hsl, hin, hdr⟩ := hat
  by_cases hzero : c = []
  · rw [hzero, recvCb_nil hin]
    exact hr
  · have hin' : s.input ++ c = c := by rw [hin]; rfl
    obtain ⟨fuel, hfuel⟩ : ∃ fuel, (s.input ++ c).length = fuel + 1 := by
      rw [hin']
      exact Nat.exists_eq_succ_of_ne_zero fun hl ↦ hzero (List.length_eq_zero_iff.mp hl)
    have hit : iteration M { s with input := s.input ++ c, len := (s.input ++ c).length } =
        consume M { s with input := s.input ++ c, len := (s.input ++ c).length } .abandon := by
      simp only [iteration, hcur]
    rw [recvCb_eq hfuel, hit]
    by_cases hshort : acc.length + c.length < h.length
    · obtain ⟨s', hc, hlen, hrest⟩ := consume_abandon_short (M := M)
        (s := { s with input := s.input ++ c, len := (s.input ++ c).length })
        ⟨hs.env, hs.calls, hs.hdr⟩ hpos hcur hd hty hreg hin' hshort rfl hsl hph hdr
      rw [hc]
      change Rests M (loop M fuel s') _
      rw [loop_done fuel hlen]
      exact hrest
    · obtain ⟨w, tail, rfl, hw⟩ : ∃ w tail, c = w ++ tail ∧ acc.length + w.length = h.length := by
        refine ⟨c.take (h.length - acc.length), c.drop (h.length - acc.length), ?_, ?_⟩
        · rw [List.take_append_drop]
        · rw [List.length_take]
          omega
      have hne : w ≠ [] := by
        rintro rfl
        simp only [List.length_nil, Nat.add_zero] at hw
        omega
      obtain ⟨s', hc, hs', hat⟩ := consume_abandon_full (M := M) (t := t)
        (s := { s with input := s.input ++ (w ++ tail), len := (s.input ++ (w ++ tail)).length })
        ⟨hs.env, hs.calls, hs.hdr⟩ hd hty hreg hin' hne hw rfl hsl hph hdr
      have hwpos := List.length_pos_of_ne_nil hne
      rw [hc]
      refine resume_rests hM ⟨w, by rw [hs'], ?_⟩ (fun s'' hs'' ↦ ?_) hstuck hsafe
      · rw [feed_payload_full hpos hne hw]
        exact hat
      · obtain rfl : s' = s'' := by simpa using hs''
        rw [hin', List.length_append] at hfuel
        rw [hs']
        omega

theorem recvCb_rests (hM : Consumes M) {s : Reader E} {t : Spec E} {c : Bytes}
    (hr : Rests M s t) (hsafe : SafeCut M t c) (hstuck : (t.feed M c).pos ≠ .stuck) :
    Rests M (recvCb M s c) (t.feed M c) := by
  cases hpos : t.pos with
  | header acc => exact recvCb_header hM hr hpos hsafe hstuck
  | payload h acc =>
    cases hreg : M.registered t.env h.streamId with
    | true => exact recvCb_stream hM hr hpos hreg hsafe hstuck
    | false => exact recvCb_abandon hM hr hpos hreg hsafe hstuck
  | stuck => exact absurd (by rw [feed_stuck hpos, hpos]) hstuck

theorem feed_prefix_pos {t : Spec E} {u w : Bytes} (h : (t.feed M (u ++ w)).pos ≠ .stuck) :
    (t.feed M u).pos ≠ .stuck := by
  intro hs
  rw [feed_append, feed_stuck hs] at h
  exact h hs

theorem run_rests (hM : Consumes M) {s : Reader E} {t : Spec E} {chunks : List Bytes}
    (hr : Rests M s t) (hsafe : Along (Spec.feed M) (SafeCut M) t chunks)
    (hstuck : (t.feed M chunks.flatten).pos ≠ .stuck) :
    Rests M (chunks.foldl (recvCb M) s) (t.feed M chunks.flatten) := by
  induction chunks generalizing s t with
  | nil => exact hr
  | cons c chunks ih =>
    rw [List.flatten_cons] at hstuck ⊢
    have hc := recvCb_rests hM hr hsafe.1 (feed_prefix_pos hstuck)
    rw [feed_append] at hstuck ⊢
    exact ih hc hsafe.2 hstuck

theorem start_rests (M : MuxEnv E) (e : E) : Rests M (.start e) (.start e) :=
  ⟨⟨rfl, rfl, rfl⟩, rfl, rfl, by decide, rfl, rfl, rfl⟩

end Xfrpc.Mux.Segmentation
