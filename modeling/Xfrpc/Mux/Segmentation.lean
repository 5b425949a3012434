import Xfrpc.Mux.Segmentation.Resumption

namespace Xfrpc.Mux.Segmentation

open Header Demux Foundations.Runs

variable {E : Type} {M : MuxEnv E}

/-- A frame as a peer that keeps to the protocol sends it. -/
structure Valid (f : Frame) : Prop where
  fits : f.header.Fits
  valid : validateTcpMuxProtocol f.header = true
  data : f.isData = true →
    f.header.length = f.payload.length ∧ f.payload.length ≤ maxStreamWindowSize
  control : f.isData = false → f.payload = []

variable (M) in
/-- The meaning of one whole frame. -/
def Spec.frame (t : Spec E) (f : Frame) : Spec E :=
  if f.isData then
    if f.payload = [] then t else t.complete M f.header f.payload
  else t.control M f.header

variable (M) in
def frames (t : Spec E) (fs : List Frame) : Spec E := fs.foldl (Spec.frame M) t

def wire (fs : List Frame) : Bytes := (fs.map Frame.bytes).flatten

@[simp] theorem complete_header (t : Spec E) (h : TcpMuxHeader) (payload : Bytes) :
    (t.complete M h payload).pos = .header [] := by
  unfold Spec.complete
  split_ifs <;> rfl

@[simp] theorem control_header (t : Spec E) (h : TcpMuxHeader) :
    (t.control M h).pos = .header [] := by
  unfold Spec.control
  split_ifs <;> rfl

theorem frame_header {t : Spec E} (hp : t.pos = .header []) (f : Frame) :
    (t.frame M f).pos = .header [] := by
  unfold Spec.frame
  split_ifs
  · exact hp
  · exact complete_header t _ _
  · exact control_header t _

theorem isData_iff (f : Frame) : f.isData = true ↔ f.header.type = TcpMuxType.tmuxData.code := by
  simp [Frame.isData]

/-- A data frame without payload for a stream the client has. -/
def EmptyForKnown (M : MuxEnv E) (t : Spec E) (f : Frame) : Prop :=
  f.isData = true ∧ f.payload = [] ∧ M.registered t.env f.header.streamId = true

theorem feed_encode {t : Spec E} (hp : t.pos = .header []) {f : Frame} (hv : Valid f) :
    t.feed M f.header.encode = t.opened M f.header := by
  have hne : f.header.encode ≠ [] := by
    intro h
    have hl := encode_length f.header
    rw [h] at hl
    simp [headerSize] at hl
  rw [feed_header_full hp hne (by simp), List.nil_append, decode_encode hv.fits]

theorem opened_data {t : Spec E} {f : Frame} (hv : Valid f) (hd : f.isData = true)
    (hne : f.payload ≠ []) : t.opened M f.header = { t with pos := .payload f.header [] } := by
  obtain ⟨hlen, hle⟩ := hv.data hd
  have hpos := List.length_pos_of_ne_nil hne
  rw [Spec.opened, if_neg (by simp [hv.valid]), if_pos ((isData_iff f).mp hd),
    if_neg (by omega), if_pos (by omega)]

theorem feed_frame {t : Spec E} (hp : t.pos = .header []) {f : Frame} (hv : Valid f)
    (he : ¬ EmptyForKnown M t f) : t.feed M f.bytes = t.frame M f := by
  rw [Frame.bytes, feed_append, feed_encode hp hv]
  cases hd : f.isData with
  | false =>
    have hty : f.header.type ≠ TcpMuxType.tmuxData.code := fun h ↦ by
      rw [(isData_iff f).mpr h] at hd
      exact absurd hd (by decide)
    rw [hv.control hd, Spec.opened, if_neg (by simp [hv.valid]), if_neg hty]
    simp only [Spec.frame, hd]
    rfl
  | true =>
    by_cases hnil : f.payload = []
    · have hr : M.registered t.env f.header.streamId ≠ true := fun h ↦ he ⟨hd, hnil, h⟩
      obtain ⟨hlen, -⟩ := hv.data hd
      rw [hnil, List.length_nil] at hlen
      rw [hnil, Spec.opened, if_neg (by simp [hv.valid]), if_pos ((isData_iff f).mp hd),
        if_neg (by omega), if_neg (by omega), if_neg hr]
      simp only [Spec.frame, hd, hnil, if_true, ← hp]
      rfl
    · rw [opened_data hv hd hnil]
      rw [feed_payload_full (h := f.header) (a := []) rfl hnil (by simp [(hv.data hd).1])]
      simp only [Spec.frame, hd, hnil, if_true, if_false, complete_pos, List.nil_append]

theorem feed_wire {t : Spec E} (hp : t.pos = .header []) {fs : List Frame}
    (hv : ∀ f ∈ fs, Valid f) (he : Along (Spec.frame M) (fun t f ↦ ¬ EmptyForKnown M t f) t fs) :
    t.feed M (wire fs) = frames M t fs ∧ (frames M t fs).pos = .header [] := by
  induction fs generalizing t with
  | nil => exact ⟨rfl, hp⟩
  | cons f fs ih =>
    have hf := feed_frame hp (hv f (by simp)) he.1
    obtain ⟨hw, hpos⟩ := ih (frame_header hp f) (fun g hg ↦ hv g (by simp [hg])) he.2
    refine ⟨?_, hpos⟩
    rw [wire, List.map_cons, List.flatten_cons, feed_append, hf]
    exact hw

theorem append_split {a b c d : Bytes} (h : a ++ b = c ++ d) (hl : a.length ≤ c.length) :
    ∃ u, c = a ++ u ∧ b = u ++ d := by
  obtain ⟨u, rfl⟩ : a <+: c :=
    List.prefix_of_prefix_length_le (h ▸ List.prefix_append a b) (List.prefix_append c d) hl
  refine ⟨u, rfl, ?_⟩
  rw [List.append_assoc] at h
  exact List.append_cancel_left h

theorem feed_inside_frame {t : Spec E} (hp : t.pos = .header []) {f : Frame} (hv : Valid f)
    {u r : Bytes} (hpay : f.payload = u ++ r) (hr : r ≠ []) :
    f.isData = true ∧ u.length < f.payload.length ∧
      t.feed M (f.header.encode ++ u) = { t with pos := .payload f.header u } := by
  have hrpos := List.length_pos_of_ne_nil hr
  have hne : f.payload ≠ [] := by
    rw [hpay]
    simp [hr]
  have hd : f.isData = true := by
    by_contra hd
    exact hne (hv.control (by simpa using hd))
  have hlt : u.length < f.payload.length := by
    rw [hpay, List.length_append]
    omega
  have hlt' : ([] : Bytes).length + u.length < f.header.length := by
    rw [(hv.data hd).1, List.length_nil]
    omega
  refine ⟨hd, hlt, ?_⟩
  rw [feed_append, feed_encode hp hv, opened_data hv hd hne]
  exact feed_payload_short (h := f.header) (a := []) rfl hlt'

theorem feed_inside {t : Spec E} (hp : t.pos = .header []) {fs : List Frame}
    (hv : ∀ f ∈ fs, Valid f) (he : Along (Spec.frame M) (fun t f ↦ ¬ EmptyForKnown M t f) t fs)
    {w tail : Bytes} (hw : wire fs = w ++ tail) {h : TcpMuxHeader} {acc : Bytes}
    (hpos : (t.feed M w).pos = .payload h acc) :
    ∃ pre f post, fs = pre ++ f :: post ∧ f.header = h ∧ f.isData = true ∧
      w = wire pre ++ (f.header.encode ++ acc) ∧ acc.length < f.payload.length ∧
      (t.feed M w).env = (frames M t pre).env := by
  induction fs generalizing t w with
  | nil =>
    obtain ⟨rfl, -⟩ := List.append_eq_nil_iff.mp hw.symm
    rw [show t.feed M [] = t from rfl, hp] at hpos
    simp at hpos
  | cons f fs ih =>
    have hvf := hv f (by simp)
    have hf := feed_frame hp hvf he.1
    rw [wire, List.map_cons, List.flatten_cons] at hw
    by_cases hlong : f.bytes.length ≤ w.length
    · obtain ⟨u, rfl, htail⟩ := append_split hw hlong
      rw [feed_append, hf] at hpos ⊢
      obtain ⟨pre, g, post, hfs, hgh, hgd, hu, hacc, henv⟩ :=
        ih (frame_header hp f) (fun g hg ↦ hv g (by simp [hg])) he.2 htail hpos
      refine ⟨f :: pre, g, post, by rw [hfs]; rfl, hgh, hgd, ?_, hacc, henv⟩
      rw [hu]
      simp [wire]
    · by_cases hshort : w.length < headerSize
      · rw [feed_header_short hp (by simpa using hshort)] at hpos
        simp at hpos
      · obtain ⟨r, hfr, -⟩ := append_split hw.symm (by omega)
        have hr : r ≠ [] := by
          rintro rfl
          rw [List.append_nil] at hfr
          rw [hfr] at hlong
          omega
        obtain ⟨u, rfl, hpay⟩ := append_split (a := f.header.encode) (b := f.payload) hfr
          (by rw [encode_length]; omega)
        obtain ⟨hd, hlt, hfeed⟩ := feed_inside_frame (M := M) hp hvf hpay hr
        rw [hfeed] at hpos ⊢
        simp only [Pos.payload.injEq] at hpos
        obtain ⟨hh, rfl⟩ := hpos
        exact ⟨[], f, fs, rfl, hh, hd, rfl, hlt, rfl⟩

/-- Some delivery takes in the end of the header of a data frame for an unknown
stream together with some, but not all, of its payload. -/
def CutsUnknown (M : MuxEnv E) (e : E) (fs : List Frame) (chunks : List Bytes) : Prop :=
  ∃ pre f post cs c cs', fs = pre ++ f :: post ∧ chunks = cs ++ c :: cs' ∧ f.isData = true ∧
    M.registered (frames M (.start e) pre).env f.header.streamId = false ∧
    cs.flatten.length < (wire pre).length + headerSize ∧
    (wire pre).length + headerSize < (cs.flatten ++ c).length ∧
    (cs.flatten ++ c).length < (wire pre).length + headerSize + f.payload.length

theorem feed_foldl (t : Spec E) (cs : List Bytes) :
    cs.foldl (Spec.feed M) t = t.feed M cs.flatten := by
  induction cs generalizing t with
  | nil => rfl
  | cons c cs ih => rw [List.foldl_cons, ih, List.flatten_cons, feed_append]

theorem safeCut_of_not_cutsUnknown {e : E} {fs : List Frame} {chunks : List Bytes}
    (hv : ∀ f ∈ fs, Valid f)
    (he : Along (Spec.frame M) (fun t f ↦ ¬ EmptyForKnown M t f) (.start e) fs)
    (hw : chunks.flatten = wire fs) (hcut : ¬ CutsUnknown M e fs chunks) :
    Along (Spec.feed M) (SafeCut M) (.start e) chunks := by
  refine along_of_splits fun cs c cs' hcs ↦ ?_
  rw [feed_foldl]
  intro h acc hpos hr
  by_contra hbad
  rw [not_or, Nat.not_le] at hbad
  rw [← feed_append] at hpos hr
  have hpre : wire fs = (cs.flatten ++ c) ++ cs'.flatten := by
    rw [← hw, hcs]
    simp
  obtain ⟨pre, f, post, hfs, hfh, hd, hbytes, hacc, henv⟩ := feed_inside rfl hv he hpre hpos
  have hlen := congrArg List.length hbytes
  have haccpos := List.length_pos_of_ne_nil hbad.1
  simp only [List.length_append, encode_length] at hlen
  refine hcut ⟨pre, f, post, cs, c, cs', hfs, hcs, hd, ?_, by omega, ?_, ?_⟩
  · rw [← henv, hfh]
    exact hr
  · rw [List.length_append]
    omega
  · rw [List.length_append]
    omega

theorem safeCut_whole {t : Spec E} (hp : t.pos = .header []) {fs : List Frame}
    (hv : ∀ f ∈ fs, Valid f)
    (he : Along (Spec.frame M) (fun t f ↦ ¬ EmptyForKnown M t f) t fs) :
    Along (Spec.feed M) (SafeCut M) t (fs.map Frame.bytes) := by
  induction fs generalizing t with
  | nil => trivial
  | cons f fs ih =>
    have hf := feed_frame hp (hv f (by simp)) he.1
    have hhead := frame_header (M := M) hp f
    refine ⟨?_, ?_⟩
    · intro h acc hpos
      rw [hf, hhead] at hpos
      simp at hpos
    · rw [hf]
      exact ih hhead (fun g hg ↦ hv g (by simp [hg])) he.2

/-- The run over `chunks` makes the calls of the run over whole frames, leaves
the same client, drops the payloads of unknown streams and nothing else, and
ends between two frames. -/
structure Demultiplexes (M : MuxEnv E) (e : E) (fs : List Frame) (chunks : List Bytes) : Prop where
  calls : (chunks.foldl (recvCb M) (.start e)).calls =
    ((fs.map Frame.bytes).foldl (recvCb M) (.start e)).calls
  env : (chunks.foldl (recvCb M) (.start e)).env =
    ((fs.map Frame.bytes).foldl (recvCb M) (.start e)).env
  frames : (chunks.foldl (recvCb M) (.start e)).calls = (frames M (.start e) fs).calls
  drained : (chunks.foldl (recvCb M) (.start e)).drained = (Segmentation.frames M (.start e) fs).discarded
  curStream : (chunks.foldl (recvCb M) (.start e)).curStream = .null
  partialHeader : (chunks.foldl (recvCb M) (.start e)).partialHeader = 0
  input : (chunks.foldl (recvCb M) (.start e)).input = []

theorem rests_at_frames (hM : Consumes M) {e : E} {fs : List Frame} {chunks : List Bytes}
    (hv : ∀ f ∈ fs, Valid f)
    (he : Along (Spec.frame M) (fun t f ↦ ¬ EmptyForKnown M t f) (.start e) fs)
    (hw : chunks.flatten = wire fs) (hsafe : Along (Spec.feed M) (SafeCut M) (.start e) chunks) :
    Rests M (chunks.foldl (recvCb M) (.start e)) (frames M (.start e) fs) ∧
      (frames M (.start e) fs).pos = .header [] := by
  obtain ⟨hfeed, hpos⟩ := feed_wire (M := M) (t := .start e) rfl hv he
  have hrun := run_rests hM (start_rests M e) hsafe (by rw [hw, hfeed, hpos]; simp)
  rw [hw, hfeed] at hrun
  exact ⟨hrun, hpos⟩

/-- Segmentation does not matter as long as no data frame for a known stream is
empty and no delivery splits the payload of an unknown stream after its header. -/
theorem demultiplexes_of_uncut (hM : Consumes M) (e : E) (fs : List Frame)
    (hv : ∀ f ∈ fs, Valid f) (chunks : List Bytes) (hw : chunks.flatten = wire fs)
    (he : Along (Spec.frame M) (fun t f ↦ ¬ EmptyForKnown M t f) (.start e) fs)
    (hcut : ¬ CutsUnknown M e fs chunks) : Demultiplexes M e fs chunks := by
  obtain ⟨⟨hs, hat⟩, hpos⟩ :=
    rests_at_frames hM hv he hw (safeCut_of_not_cutsUnknown hv he hw hcut)
  obtain ⟨⟨hs', -⟩, -⟩ := rests_at_frames hM hv he rfl (safeCut_whole rfl hv he)
  rw [hpos] at hat
  obtain ⟨hcur, hph, -, -, hin, hdr⟩ := hat
  exact
    { calls := hs.calls.trans hs'.calls.symm
      env := hs.env.trans hs'.env.symm
      frames := hs.calls
      drained := hdr
      curStream := hcur
      partialHeader := hph
      input := hin }

/-- A client with the single stream 1 and handlers without effect. -/
def oneStream : MuxEnv Unit where
  registered _ id := id == 1
  processData _ input _ length _ := ((), input.drop length)
  handleTcpMuxStream _ _ := ()
  handleTcpMuxPing _ _ := ()
  handleTcpMuxGoAway _ _ := ()

theorem oneStream_consumes : Consumes oneStream where
  rest _ payload tail _ _ := by simp [oneStream]
  local' _ _ _ _ _ := rfl

def dataFrame (id : ℕ) (payload : Bytes) : Frame :=
  { header := tcpMuxEncode .tmuxData 0 id payload.length, payload }

theorem dataFrame_valid {id : ℕ} {payload : Bytes} (hid : id < 256 ^ 4)
    (hl : payload.length ≤ maxStreamWindowSize) : Valid (dataFrame id payload) where
  fits := by
    have hm : maxStreamWindowSize = 8388608 := rfl
    refine ⟨Nat.zero_lt_succ 255, Nat.zero_lt_succ 255, Nat.zero_lt_succ 65535, hid, ?_⟩
    change payload.length < _
    omega
  valid := rfl
  data _ := ⟨rfl, hl⟩
  control h := nomatch h

def twoFrames : List Frame := [dataFrame 1 [1, 2, 3], dataFrame 3 [4, 5]]

/-- The deliveries end inside a header, inside the payload of the known stream
and between header and payload of the unknown one. -/
def fourChunks : List Bytes :=
  [(wire twoFrames).take 5, ((wire twoFrames).take 14).drop 5,
   ((wire twoFrames).take 27).drop 14, (wire twoFrames).drop 27]

theorem fourChunks_not_cutsUnknown : ¬ CutsUnknown oneStream () twoFrames fourChunks := by
  rintro ⟨pre, f, post, cs, c, cs', hfs, hcs, -, hr, -, hlo, hhi⟩
  have hpre : pre = [dataFrame 1 [1, 2, 3]] ∧ f = dataFrame 3 [4, 5] := by
    rcases pre with _ | ⟨g, _ | ⟨g', pre⟩⟩
    · obtain ⟨rfl, -⟩ : f = dataFrame 1 [1, 2, 3] ∧ _ := by simpa [twoFrames] using hfs.symm
      exact absurd hr (by decide)
    · obtain ⟨rfl, rfl, -⟩ : g = dataFrame 1 [1, 2, 3] ∧ f = dataFrame 3 [4, 5] ∧ post = [] := by
        simpa [twoFrames, eq_comm] using hfs
      exact ⟨rfl, rfl⟩
    · simp [twoFrames] at hfs
  obtain ⟨rfl, rfl⟩ := hpre
  rcases cs with _ | ⟨c₀, _ | ⟨c₁, _ | ⟨c₂, _ | ⟨c₃, cs⟩⟩⟩⟩
  all_goals
    simp only [fourChunks, List.nil_append, List.cons_append, List.cons.injEq] at hcs
  · obtain ⟨rfl, -⟩ := hcs
    exact absurd hlo (by decide)
  · obtain ⟨rfl, rfl, -⟩ := hcs
    exact absurd hlo (by decide)
  · obtain ⟨rfl, rfl, rfl, -⟩ := hcs
    exact absurd hlo (by decide)
  · obtain ⟨rfl, rfl, rfl, rfl, -⟩ := hcs
    exact absurd hhi (by decide)
  · simp at hcs

theorem demultiplexes_twoFrames : Demultiplexes oneStream () twoFrames fourChunks :=
  demultiplexes_of_uncut oneStream_consumes () twoFrames
    (by
      simp only [twoFrames, List.mem_cons, List.not_mem_nil, or_false, forall_eq_or_imp, forall_eq]
      exact ⟨dataFrame_valid (by decide) (by decide), dataFrame_valid (by decide) (by decide)⟩)
    fourChunks (by decide)
    ⟨fun h ↦ absurd h.2.1 (by decide), fun h ↦ absurd h.2.1 (by decide), trivial⟩
    fourChunks_not_cutsUnknown

/-- Two ways to lose the boundary: an empty data frame for a known stream,
delivered whole, and the payload of an unknown stream cut after its first byte. -/
theorem not_demultiplexes :
    ¬ Demultiplexes oneStream () [dataFrame 1 []] [(dataFrame 1 []).bytes] ∧
    ¬ Demultiplexes oneStream () [dataFrame 3 [4, 5]]
      [(dataFrame 3 [4, 5]).bytes.take 13, (dataFrame 3 [4, 5]).bytes.drop 13] := by
  refine ⟨fun h ↦ ?_, fun h ↦ ?_⟩
  · exact absurd h.curStream (by decide)
  · exact absurd h.partialHeader (by decide)

end Xfrpc.Mux.Segmentation
