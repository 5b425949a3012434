import Xfrpc.Crypto.Aead

namespace Xfrpc.Crypto.AeadStream

open Foundations.BigEndian Coder Aead

variable (P : Primitives)

/-- The loop of `aead_reader_feed`. A frame takes at least twenty bytes out of
`ct_buf`, so that one turn for each byte and one more are enough. -/
def feedLoop : ℕ → AeadReader → AeadReader × Bool
  | 0, r => (r, true)
  | fuel + 1, r =>
    match aeadReaderTurn P r with
    | .wait r' => (r', true)
    | .error r' => (r', false)
    | .frame r' => feedLoop fuel r'

def drain (r : AeadReader) : AeadReader × Bool := feedLoop P (r.ctBuf.length + 1) r

/-- More bytes at the end of `ct_buf`. -/
def more (r : AeadReader) (ct : Bytes) : AeadReader := { r with ctBuf := r.ctBuf ++ ct }

/-- `aead_reader_feed` with allocation succeeding; true for a return of 0. -/
def aeadReaderFeed (r : AeadReader) (ct : Bytes) : AeadReader × Bool := drain P (more r ct)

@[simp] theorem more_ctBuf (r : AeadReader) (ct : Bytes) : (more r ct).ctBuf = r.ctBuf ++ ct := rfl

@[simp] theorem more_ptBuf (r : AeadReader) (ct : Bytes) : (more r ct).ptBuf = r.ptBuf := rfl

theorem more_more (r : AeadReader) (b c : Bytes) : more (more r b) c = more r (b ++ c) := by
  simp [more]

def frameTurn (r : AeadReader) : ReaderTurn :=
  if r.ctBuf.length < 4 then .wait r
  else
    let clen := ofBe (r.ctBuf.take 4)
    if clen < gcmTagSize ∨ clen > maxPayload + gcmTagSize then .error r
    else if r.ctBuf.length < 4 + clen then .wait r
    else
      match P.gcmOpen r.key r.nonce (r.streamNonce ++ r.ctBuf.take 4)
          ((r.ctBuf.drop 4).take clen) with
      | none => .error r
      | some pt =>
        let r' := { r with
          ctBuf := r.ctBuf.drop (4 + clen)
          ptBuf := r.ptBuf ++ pt
          nonce := (incrementNonce r.nonce).1 }
        if (incrementNonce r.nonce).2 then .frame { r' with frameCount := r.frameCount + 1 }
        else .error r'

variable {P}

theorem aeadReaderTurn_eq (r : AeadReader) :
    aeadReaderTurn P r = match r.readHeader with
      | none => .wait r
      | some r₁ => frameTurn P r₁ := rfl

theorem readHeader_of_read {r : AeadReader} (h : r.headerRead = true) : r.readHeader = some r := by
  rw [AeadReader.readHeader, if_pos h]

theorem readHeader_some {r r₁ : AeadReader} (h : r.readHeader = some r₁) :
    r₁.headerRead = true ∧ r₁.ptBuf = r.ptBuf ∧ r₁.frameCount = r.frameCount ∧
      r₁.ctBuf.length ≤ r.ctBuf.length ∧ ∀ c, (more r c).readHeader = some (more r₁ c) := by
  unfold AeadReader.readHeader at h
  split_ifs at h with hr hl
  · obtain rfl := Option.some.inj h
    exact ⟨hr, rfl, rfl, Nat.le_refl _, fun c ↦ readHeader_of_read hr⟩
  · obtain rfl := Option.some.inj h
    have hge : gcmNonceSize ≤ r.ctBuf.length := Nat.le_of_not_lt hl
    refine ⟨rfl, rfl, rfl, ?_, fun c ↦ ?_⟩
    · simp
    · have hlen : ¬ (r.ctBuf ++ c).length < gcmNonceSize := by
        rw [List.length_append]
        omega
      have hr' : ¬ (more r c).headerRead = true := hr
      rw [AeadReader.readHeader, if_neg hr', more_ctBuf, if_neg hlen,
        List.take_append_of_le_length hge, List.drop_append_of_le_length hge]
      rfl

theorem frameTurn_cases (r : AeadReader) :
    frameTurn P r = .wait r ∨
    (∃ r', ∀ c, frameTurn P (more r c) = .error (more r' c)) ∨
    (∃ r', r'.ctBuf.length < r.ctBuf.length ∧ r'.headerRead = r.headerRead ∧
      ∀ c, frameTurn P (more r c) = .frame (more r' c)) := by
  by_cases h4 : r.ctBuf.length < 4
  · exact .inl (by rw [frameTurn, if_pos h4])
  have htake : ∀ c, (r.ctBuf ++ c).take 4 = r.ctBuf.take 4 := fun c ↦
    List.take_append_of_le_length (by omega)
  have h4' : ∀ c : Bytes, ¬ (r.ctBuf ++ c).length < 4 := fun c ↦ by
    rw [List.length_append]
    omega
  by_cases hbad : ofBe (r.ctBuf.take 4) < gcmTagSize ∨
      ofBe (r.ctBuf.take 4) > maxPayload + gcmTagSize
  · refine .inr (.inl ⟨r, fun c ↦ ?_⟩)
    simp only [frameTurn, more_ctBuf, htake, h4', hbad, if_true, if_false]
  by_cases hshort : r.ctBuf.length < 4 + ofBe (r.ctBuf.take 4)
  · exact .inl (by simp only [frameTurn, h4, hbad, hshort, if_true, if_false])
  have hshort' : ∀ c : Bytes, ¬ (r.ctBuf ++ c).length < 4 + ofBe (r.ctBuf.take 4) := fun c ↦ by
    rw [List.length_append]
    omega
  have hct : ∀ c, ((r.ctBuf ++ c).drop 4).take (ofBe (r.ctBuf.take 4)) =
      (r.ctBuf.drop 4).take (ofBe (r.ctBuf.take 4)) := fun c ↦ by
    rw [List.drop_append_of_le_length (by omega),
      List.take_append_of_le_length (by rw [List.length_drop]; omega)]
  have hrest : ∀ c, (r.ctBuf ++ c).drop (4 + ofBe (r.ctBuf.take 4)) =
      r.ctBuf.drop (4 + ofBe (r.ctBuf.take 4)) ++ c := fun c ↦
    List.drop_append_of_le_length (by omega)
  cases hopen : P.gcmOpen r.key r.nonce (r.streamNonce ++ r.ctBuf.take 4)
      ((r.ctBuf.drop 4).take (ofBe (r.ctBuf.take 4))) with
  | none =>
    refine .inr (.inl ⟨r, fun c ↦ ?_⟩)
    simp only [frameTurn, more_ctBuf, htake, h4', hbad, hshort', hct, if_false]
    simp only [more, hopen]
  | some pt =>
    let r' : AeadReader := { r with
      ctBuf := r.ctBuf.drop (4 + ofBe (r.ctBuf.take 4))
      ptBuf := r.ptBuf ++ pt
      nonce := (incrementNonce r.nonce).1 }
    cases hok : (incrementNonce r.nonce).2 with
    | false =>
      refine .inr (.inl ⟨r', fun c ↦ ?_⟩)
      simp only [frameTurn, more_ctBuf, htake, h4', hbad, hshort', hct, hrest, if_false]
      simp [more, hopen, hok, r']
    | true =>
      refine .inr (.inr ⟨{ r' with frameCount := r.frameCount + 1 }, ?_, rfl, fun c ↦ ?_⟩)
      · simp only [r', List.length_drop]
        omega
      · simp only [frameTurn, more_ctBuf, htake, h4', hbad, hshort', hct, hrest, if_false]
        simp [more, hopen, hok, r']

theorem more_nil (r : AeadReader) : more r [] = r := by
  simp [more]

theorem aeadReaderTurn_cases (r : AeadReader) :
    (∃ r', aeadReaderTurn P r = .wait r' ∧ r'.ptBuf = r.ptBuf ∧ r'.frameCount = r.frameCount ∧
      ∀ c, aeadReaderTurn P (more r c) = aeadReaderTurn P (more r' c)) ∨
    (∃ r', ∀ c, aeadReaderTurn P (more r c) = .error (more r' c)) ∨
    (∃ r', r'.ctBuf.length < r.ctBuf.length ∧
      ∀ c, aeadReaderTurn P (more r c) = .frame (more r' c)) := by
  cases hh : r.readHeader with
  | none => exact .inl ⟨r, by rw [aeadReaderTurn_eq, hh], rfl, rfl, fun c ↦ rfl⟩
  | some r₁ =>
    obtain ⟨hread, hpt, hcount, hlen, hmore⟩ := readHeader_some hh
    have hturn : ∀ c, aeadReaderTurn P (more r c) = frameTurn P (more r₁ c) := fun c ↦ by
      rw [aeadReaderTurn_eq, hmore]
    obtain hwait | ⟨r', herr⟩ | ⟨r', hless, -, hframe⟩ := frameTurn_cases (P := P) r₁
    · refine .inl ⟨r₁, by rw [aeadReaderTurn_eq, hh]; exact hwait, hpt, hcount, fun c ↦ ?_⟩
      have hread' : (more r₁ c).headerRead = true := hread
      rw [hturn, aeadReaderTurn_eq, readHeader_of_read hread']
    · exact .inr (.inl ⟨r', fun c ↦ by rw [hturn, herr]⟩)
    · exact .inr (.inr ⟨r', Nat.lt_of_lt_of_le hless hlen, fun c ↦ by rw [hturn, hframe]⟩)

theorem feedLoop_fuel {r : AeadReader} {n m : ℕ} (hn : r.ctBuf.length < n)
    (hm : r.ctBuf.length < m) : feedLoop P n r = feedLoop P m r := by
  induction n generalizing r m with
  | zero => omega
  | succ n ih =>
    cases m with
    | zero => omega
    | succ m =>
      unfold feedLoop
      obtain ⟨r', h, -⟩ | ⟨r', h⟩ | ⟨r', hless, h⟩ := aeadReaderTurn_cases (P := P) r
      · rw [h]
      · have h' := h []
        rw [more_nil, more_nil] at h'
        rw [h']
      · have h' := h []
        rw [more_nil, more_nil] at h'
        rw [h']
        exact ih (by omega) (by omega)

theorem drain_eq (r : AeadReader) :
    drain P r = match aeadReaderTurn P r with
      | .wait r' => (r', true)
      | .error r' => (r', false)
      | .frame r' => drain P r' := by
  obtain ⟨r', h, -⟩ | ⟨r', h⟩ | ⟨r', hless, h⟩ := aeadReaderTurn_cases (P := P) r
  · rw [drain, feedLoop, h]
  · have h' := h []
    rw [more_nil, more_nil] at h'
    rw [drain, feedLoop, h']
  · have h' := h []
    rw [more_nil, more_nil] at h'
    rw [drain, feedLoop, h']
    exact feedLoop_fuel hless (Nat.lt_succ_self _)

theorem drain_more (r : AeadReader) (c : Bytes) :
    drain P (more r c) =
      if (drain P r).2 then drain P (more (drain P r).1 c) else (more (drain P r).1 c, false) := by
  induction hn : r.ctBuf.length using Nat.strongRecOn generalizing r with
  | ind n ih =>
    obtain ⟨r', h, -, -, hmore⟩ | ⟨r', h⟩ | ⟨r', hless, h⟩ := aeadReaderTurn_cases (P := P) r
    · rw [drain_eq r, h]
      dsimp only
      rw [if_pos rfl, drain_eq, hmore, ← drain_eq]
    · have h' := h []
      rw [more_nil, more_nil] at h'
      rw [drain_eq r, h', drain_eq (more r c), h]
      simp
    · have h' := h []
      rw [more_nil, more_nil] at h'
      rw [drain_eq r, h', drain_eq (more r c), h]
      exact ih _ (by omega) r' rfl

theorem aeadReaderFeed_append (r : AeadReader) (b c : Bytes)
    (h : (aeadReaderFeed P r b).2 = true) :
    aeadReaderFeed P r (b ++ c) = aeadReaderFeed P (aeadReaderFeed P r b).1 c := by
  have hmore := drain_more (P := P) (more r b) c
  unfold aeadReaderFeed at h
  rw [more_more, if_pos h] at hmore
  exact hmore

variable (P) in
/-- The frames of a list of plaintexts, when every one of them can be sealed. -/
def sealAll : AeadWriter → List Bytes → Option (AeadWriter × List Bytes)
  | w, [] => some (w, [])
  | w, pt :: pts =>
    match aeadWriterSeal P w pt with
    | (_, none) => none
    | (w₁, some out) => (sealAll w₁ pts).map fun r ↦ (r.1, out :: r.2)

/-- How many of the frames are complete after `n` bytes. -/
def completed : List Bytes → ℕ → ℕ
  | [], _ => 0
  | out :: outs, n => if out.length ≤ n then completed outs (n - out.length) + 1 else 0

theorem sealAll_cons {w w' : AeadWriter} {pt : Bytes} {pts outs : List Bytes}
    (h : sealAll P w (pt :: pts) = some (w', outs)) :
    pt.length ≤ maxPayload ∧ (incrementNonce w.nonce).2 = true ∧ ∃ outs', outs =
      w.sealed P pt :: outs' ∧
        sealAll P { w.advance with frameCount := w.frameCount + 1 } pts = some (w', outs') := by
  have hne : pt ≠ [] := by
    rintro rfl
    simp [sealAll, aeadWriterSeal] at h
  obtain ⟨-, hs⟩ | ⟨-, -, hs⟩ | ⟨hle, hok, hs⟩ := aeadWriterSeal_cases P w hne
  · simp [sealAll, hs] at h
  · simp [sealAll, hs] at h
  · rw [sealAll, hs] at h
    obtain ⟨⟨w₁, outs'⟩, hrest, heq⟩ := Option.map_eq_some_iff.mp h
    simp only [Prod.mk.injEq] at heq
    obtain ⟨rfl, rfl⟩ := heq
    exact ⟨hle, hok, outs', rfl, hrest⟩

theorem frameTurn_part {r : AeadReader} {pt ct : Bytes} (hct : ct.length = pt.length + gcmTagSize)
    (hpt : pt.length ≤ maxPayload) (hpre : r.ctBuf <+: sealHeader pt ++ ct)
    (hlt : r.ctBuf.length < (sealHeader pt ++ ct).length) : frameTurn P r = .wait r := by
  have hh : (sealHeader pt).length = 4 := toBe_length _ _
  have hm : maxPayload = 65536 := rfl
  have hg : gcmTagSize = 16 := rfl
  have hof : ofBe (sealHeader pt) = pt.length + gcmTagSize := ofBe_toBe (by omega)
  rw [List.length_append, hh, hct] at hlt
  unfold frameTurn
  by_cases h4 : r.ctBuf.length < 4
  · rw [if_pos h4]
  · have htake : r.ctBuf.take 4 = sealHeader pt := by
      obtain ⟨rest, hrest⟩ := hpre
      have ht := congrArg (List.take 4) hrest
      rwa [List.take_append_of_le_length (by omega), List.take_left' hh] at ht
    rw [if_neg h4, htake, hof]
    dsimp only
    rw [if_neg (by omega), if_pos hlt]

theorem drain_part {w : AeadWriter} {r : AeadReader} (h : Mirrors w r) {pt : Bytes}
    (hpt : pt.length ≤ maxPayload) (hpre : r.ctBuf <+: w.sealed P pt)
    (hlt : r.ctBuf.length < (w.sealed P pt).length) :
    ∃ r', drain P r = (r', true) ∧ r'.ptBuf = r.ptBuf ∧ r'.frameCount = r.frameCount := by
  have hwait : ∃ r', aeadReaderTurn P r = .wait r' ∧ r'.ptBuf = r.ptBuf ∧
      r'.frameCount = r.frameCount := by
    have hct := P.gcmSeal_length w.key w.nonce (w.streamNonce ++ sealHeader pt) pt
    rw [AeadWriter.sealed, List.append_assoc] at hpre hlt
    cases hh : r.readHeader with
    | none => exact ⟨r, by rw [aeadReaderTurn_eq, hh], rfl, rfl⟩
    | some r₁ =>
      obtain ⟨-, hp, hc, -⟩ := readHeader_some hh
      refine ⟨r₁, ?_, hp, hc⟩
      rw [aeadReaderTurn_eq, hh]
      have hread := h.headerRead
      have hnl := w.nonce_length
      cases hs : w.headerSent with
      | true =>
        rw [hs] at hread hpre hlt
        rw [readHeader_of_read hread, Option.some.injEq] at hh
        rw [← hh]
        exact frameTurn_part hct hpt hpre hlt
      | false =>
        rw [hs] at hread
        simp only [hs, Bool.false_eq_true, if_false] at hpre hlt
        have hge : ¬ r.ctBuf.length < gcmNonceSize := by
          intro hshort
          simp [AeadReader.readHeader, hread, hshort] at hh
        rw [AeadReader.readHeader, if_neg (by rw [hread]; decide), if_neg hge,
          Option.some.injEq] at hh
        have hbuf : r₁.ctBuf = r.ctBuf.drop gcmNonceSize := by rw [← hh]
        refine frameTurn_part hct hpt ?_ ?_
        · have hd := List.IsPrefix.drop hpre gcmNonceSize
          rwa [List.drop_left' hnl, ← hbuf] at hd
        · rw [hbuf, List.length_drop]
          rw [List.length_append, hnl] at hlt
          omega
  obtain ⟨r', hturn, hp, hc⟩ := hwait
  exact ⟨r', by rw [drain_eq, hturn], hp, hc⟩

theorem drain_empty {r : AeadReader} (h : r.ctBuf = []) : drain P r = (r, true) := by
  have hturn : aeadReaderTurn P r = .wait r := by
    rw [aeadReaderTurn_eq]
    cases hr : r.headerRead with
    | true =>
      rw [readHeader_of_read hr]
      exact if_pos (by simp [h])
    | false =>
      have hn : r.readHeader = none := by
        simp [AeadReader.readHeader, hr, h, gcmNonceSize]
      rw [hn]
  rw [drain_eq, hturn]

theorem drain_sealed {w w' : AeadWriter} {r : AeadReader} {pts outs : List Bytes} {rest : Bytes}
    (h : Mirrors w r) (hs : sealAll P w pts = some (w', outs))
    (hbuf : r.ctBuf ++ rest = outs.flatten) :
    ∃ r', drain P r = (r', true) ∧
      r'.ptBuf = r.ptBuf ++ (pts.take (completed outs r.ctBuf.length)).flatten ∧
      r'.frameCount = r.frameCount + completed outs r.ctBuf.length ∧
      (rest = [] → r'.ctBuf = [] ∧ Mirrors w' r' ∧ completed outs r.ctBuf.length = pts.length) := by
  induction pts generalizing w r outs with
  | nil =>
    simp only [sealAll, Option.some.injEq, Prod.mk.injEq] at hs
    obtain ⟨rfl, rfl⟩ := hs
    have hnil := List.append_eq_nil_iff.mp hbuf
    refine ⟨r, drain_empty hnil.1, by simp, by simp [completed], fun _ ↦ ⟨hnil.1, h, rfl⟩⟩
  | cons pt pts ih =>
    obtain ⟨hle, hok, outs', rfl, hs'⟩ := sealAll_cons hs
    rw [List.flatten_cons] at hbuf
    by_cases hlen : (w.sealed P pt).length ≤ r.ctBuf.length
    · obtain ⟨tail, htail⟩ : ∃ tail, r.ctBuf = w.sealed P pt ++ tail := by
        have hpre : w.sealed P pt <+: r.ctBuf :=
          List.prefix_of_prefix_length_le ⟨outs'.flatten, hbuf.symm⟩ ⟨rest, rfl⟩ hlen
        obtain ⟨tail, htail⟩ := hpre
        exact ⟨tail, htail.symm⟩
      obtain ⟨r₁, hturn, hct, hp, hcount, hm⟩ := aeadReaderTurn_sealed P h hle hok tail htail
      have hbuf' : r₁.ctBuf ++ rest = outs'.flatten := by
        rw [hct]
        rw [htail, List.append_assoc] at hbuf
        exact List.append_cancel_left hbuf
      obtain ⟨r', hd, hpt', hc', hend⟩ := ih hm hs' hbuf'
      have hk : completed (w.sealed P pt :: outs') r.ctBuf.length =
          completed outs' r₁.ctBuf.length + 1 := by
        rw [completed, if_pos hlen, hct, htail, List.length_append, Nat.add_sub_cancel_left]
      refine ⟨r', by rw [drain_eq, hturn]; exact hd, ?_, ?_, ?_⟩
      · rw [hpt', hp, hk, List.take_succ_cons, List.flatten_cons, List.append_assoc]
      · rw [hc', hcount, hk]
        omega
      · intro hnil
        obtain ⟨hc, hm', hn⟩ := hend hnil
        exact ⟨hc, hm', by rw [hk, hn, List.length_cons]⟩
    · have hlt : r.ctBuf.length < (w.sealed P pt).length := Nat.lt_of_not_le hlen
      have hpre : r.ctBuf <+: w.sealed P pt :=
        List.prefix_of_prefix_length_le ⟨rest, rfl⟩ ⟨outs'.flatten, hbuf.symm⟩ (Nat.le_of_lt hlt)
      obtain ⟨r', hd, hp, hc⟩ := drain_part h hle hpre hlt
      have hk : completed (w.sealed P pt :: outs') r.ctBuf.length = 0 := by
        rw [completed, if_neg hlen]
      refine ⟨r', hd, by rw [hp, hk]; simp, by rw [hc, hk, Nat.add_zero], fun hnil ↦ ?_⟩
      rw [hnil, List.append_nil] at hbuf
      rw [hbuf, List.length_append] at hlt
      omega

theorem sealAll_frameCount {w w' : AeadWriter} {pts outs : List Bytes}
    (h : sealAll P w pts = some (w', outs)) : w'.frameCount = w.frameCount + pts.length := by
  induction pts generalizing w outs with
  | nil =>
    simp only [sealAll, Option.some.injEq, Prod.mk.injEq] at h
    rw [← h.1]
    rfl
  | cons pt pts ih =>
    obtain ⟨-, -, outs', -, h'⟩ := sealAll_cons h
    rw [ih h', List.length_cons]
    dsimp only
    omega

def putBack (taken : Bytes) (r : AeadReader) : AeadReader := { r with ptBuf := taken ++ r.ptBuf }

def ReaderTurn.putBack (taken : Bytes) : ReaderTurn → ReaderTurn
  | .wait r => .wait (AeadStream.putBack taken r)
  | .error r => .error (AeadStream.putBack taken r)
  | .frame r => .frame (AeadStream.putBack taken r)

theorem frameTurn_putBack (taken : Bytes) (r : AeadReader) :
    frameTurn P (putBack taken r) = ReaderTurn.putBack taken (frameTurn P r) := by
  by_cases h4 : r.ctBuf.length < 4
  · simp only [frameTurn, putBack, h4, if_true]
    rfl
  by_cases hbad : ofBe (r.ctBuf.take 4) < gcmTagSize ∨
      ofBe (r.ctBuf.take 4) > maxPayload + gcmTagSize
  · simp only [frameTurn, putBack, h4, hbad, if_true, if_false]
    rfl
  by_cases hshort : r.ctBuf.length < 4 + ofBe (r.ctBuf.take 4)
  · simp only [frameTurn, putBack, h4, hbad, hshort, if_true, if_false]
    rfl
  simp only [frameTurn, putBack, h4, hbad, hshort, if_false]
  cases P.gcmOpen r.key r.nonce (r.streamNonce ++ r.ctBuf.take 4)
      ((r.ctBuf.drop 4).take (ofBe (r.ctBuf.take 4))) with
  | none => rfl
  | some pt =>
    by_cases hok : (incrementNonce r.nonce).2 = true
    · simp [ReaderTurn.putBack, putBack, hok]
    · simp [ReaderTurn.putBack, putBack, hok]

theorem readHeader_putBack (taken : Bytes) (r : AeadReader) :
    (putBack taken r).readHeader = r.readHeader.map (putBack taken) := by
  by_cases hr : r.headerRead = true
  · have hr' : (putBack taken r).headerRead = true := hr
    rw [readHeader_of_read hr, readHeader_of_read hr']
    rfl
  · have hr' : ¬ (putBack taken r).headerRead = true := hr
    rw [AeadReader.readHeader, AeadReader.readHeader, if_neg hr, if_neg hr']
    by_cases hl : r.ctBuf.length < gcmNonceSize
    · have hl' : (putBack taken r).ctBuf.length < gcmNonceSize := hl
      rw [if_pos hl, if_pos hl']
      rfl
    · have hl' : ¬ (putBack taken r).ctBuf.length < gcmNonceSize := hl
      rw [if_neg hl, if_neg hl']
      rfl

theorem aeadReaderTurn_putBack (taken : Bytes) (r : AeadReader) :
    aeadReaderTurn P (putBack taken r) = ReaderTurn.putBack taken (aeadReaderTurn P r) := by
  rw [aeadReaderTurn_eq, aeadReaderTurn_eq, readHeader_putBack]
  cases r.readHeader with
  | none => rfl
  | some r₁ => exact frameTurn_putBack taken r₁

theorem drain_putBack (taken : Bytes) (r : AeadReader) :
    drain P (putBack taken r) = (putBack taken (drain P r).1, (drain P r).2) := by
  induction hn : r.ctBuf.length using Nat.strongRecOn generalizing r with
  | ind n ih =>
    obtain ⟨r', h, -⟩ | ⟨r', h⟩ | ⟨r', hless, h⟩ := aeadReaderTurn_cases (P := P) r
    · rw [drain_eq r, drain_eq, aeadReaderTurn_putBack, h]
      rfl
    · have h' := h []
      rw [more_nil, more_nil] at h'
      rw [drain_eq r, drain_eq, aeadReaderTurn_putBack, h']
      rfl
    · have h' := h []
      rw [more_nil, more_nil] at h'
      rw [drain_eq r, drain_eq (putBack taken r), aeadReaderTurn_putBack, h']
      exact ih _ (by omega) r' rfl

/-- A reader, the plaintext its caller has taken out of it, and whether every
feed has returned 0. -/
structure Session where
  reader : AeadReader
  taken : Bytes
  ok : Bool
  deriving DecidableEq, Repr

variable (P) in
/-- One `aead_reader_feed`, after which the caller empties `pt_buf` or not. -/
def Session.feed (s : Session) (e : Bytes × Bool) : Session :=
  let (r, ok) := aeadReaderFeed P s.reader e.1
  if e.2 then
    { reader := { r with ptBuf := [] }, taken := s.taken ++ r.ptBuf, ok := s.ok && ok }
  else { s with reader := r, ok := s.ok && ok }

/-- All the plaintext of a session. -/
def Session.appended (s : Session) : Bytes := s.taken ++ s.reader.ptBuf

def Session.whole (s : Session) : AeadReader := putBack s.taken s.reader

theorem Session.feed_whole (s : Session) (e : Bytes × Bool) :
    (s.feed P e).whole = (aeadReaderFeed P s.whole e.1).1 ∧
      (s.feed P e).ok = (s.ok && (aeadReaderFeed P s.whole e.1).2) := by
  have hfeed : aeadReaderFeed P s.whole e.1 =
      (putBack s.taken (aeadReaderFeed P s.reader e.1).1, (aeadReaderFeed P s.reader e.1).2) :=
    drain_putBack s.taken (more s.reader e.1)
  rw [hfeed]
  unfold Session.feed
  cases e.2 with
  | true => simp [Session.whole, putBack]
  | false => simp [Session.whole, putBack]

theorem drain_stable {r : AeadReader} (h : (drain P r).2 = true) :
    drain P (drain P r).1 = ((drain P r).1, true) := by
  have hmore := drain_more (P := P) r []
  rw [more_nil, more_nil, if_pos h] at hmore
  rw [← hmore, ← h]

theorem Session.run_whole {s : Session} (hok : s.ok = true)
    (hst : drain P s.whole = (s.whole, true)) (feeds : List (Bytes × Bool))
    (hall : (aeadReaderFeed P s.whole (feeds.map Prod.fst).flatten).2 = true) :
    (feeds.foldl (Session.feed P) s).ok = true ∧
      (feeds.foldl (Session.feed P) s).whole =
        (aeadReaderFeed P s.whole (feeds.map Prod.fst).flatten).1 := by
  induction feeds generalizing s with
  | nil =>
    refine ⟨hok, ?_⟩
    have hnil : aeadReaderFeed P s.whole [] = (s.whole, true) := by
      rw [aeadReaderFeed, more_nil, hst]
    exact (congrArg Prod.fst hnil).symm
  | cons e es ih =>
    rw [List.map_cons, List.flatten_cons] at hall ⊢
    have hfirst : (aeadReaderFeed P s.whole e.1).2 = true := by
      have hmore := drain_more (P := P) (more s.whole e.1) (es.map Prod.fst).flatten
      rw [more_more] at hmore
      by_contra hf
      unfold aeadReaderFeed at hall hf
      rw [hmore, if_neg hf] at hall
      exact Bool.false_ne_true hall
    obtain ⟨hw, hk⟩ := Session.feed_whole (P := P) s e
    rw [hok, hfirst, Bool.true_and] at hk
    rw [aeadReaderFeed_append _ _ _ hfirst, ← hw] at hall ⊢
    refine ih hk ?_ hall
    rw [hw]
    exact drain_stable hfirst

/-- A writer and a reader as their init functions leave them. -/
structure Initial (w : AeadWriter) (r : AeadReader) : Prop where
  key : r.key = w.key
  headerSent : w.headerSent = false
  streamNonce : w.streamNonce = w.nonce
  written : w.frameCount = 0
  headerRead : r.headerRead = false
  read : r.frameCount = 0
  ctBuf : r.ctBuf = []
  ptBuf : r.ptBuf = []

theorem Initial.mirrors {w : AeadWriter} {r : AeadReader} (h : Initial w r) : Mirrors w r where
  key := h.key
  headerRead := by rw [h.headerRead, h.headerSent]
  nonce hs := by rw [h.headerSent] at hs; exact absurd hs Bool.false_ne_true
  streamNonce hs := by rw [h.headerSent] at hs; exact absurd hs Bool.false_ne_true
  fresh _ := h.streamNonce

theorem Initial.run_part {w w' : AeadWriter} {r : AeadReader} (h : Initial w r)
    {pts outs : List Bytes} (hs : sealAll P w pts = some (w', outs)) {feeds : List (Bytes × Bool)}
    {rest : Bytes} (hcut : (feeds.map Prod.fst).flatten ++ rest = outs.flatten) :
    let s := feeds.foldl (Session.feed P) ⟨r, [], true⟩
    let k := completed outs (feeds.map Prod.fst).flatten.length
    s.ok = true ∧ s.appended = (pts.take k).flatten ∧ s.reader.frameCount = k ∧
      (rest = [] → s.reader.ctBuf = [] ∧ k = pts.length ∧ Mirrors w' s.reader) := by
  intro s k
  have hbuf : (more r (feeds.map Prod.fst).flatten).ctBuf = (feeds.map Prod.fst).flatten := by
    rw [more_ctBuf, h.ctBuf, List.nil_append]
  have hm : Mirrors w (more r (feeds.map Prod.fst).flatten) :=
    ⟨h.mirrors.key, h.mirrors.headerRead, h.mirrors.nonce, h.mirrors.streamNonce, h.mirrors.fresh⟩
  obtain ⟨r', hd, hpt, hc, hend⟩ := drain_sealed hm hs (by rw [hbuf, hcut])
  rw [hbuf] at hpt hc hend
  have hwhole : (⟨r, [], true⟩ : Session).whole = r := rfl
  have hst : drain P (⟨r, [], true⟩ : Session).whole = ((⟨r, [], true⟩ : Session).whole, true) :=
    drain_empty h.ctBuf
  have hfeed : aeadReaderFeed P r (feeds.map Prod.fst).flatten = (r', true) := hd
  obtain ⟨hok, hrun⟩ := Session.run_whole rfl hst feeds (by rw [hwhole, hfeed])
  rw [hwhole, hfeed] at hrun
  have hreader : putBack s.taken s.reader = r' := hrun
  refine ⟨hok, ?_, ?_, ?_⟩
  · have hp := congrArg AeadReader.ptBuf hreader
    rw [hpt, more_ptBuf, h.ptBuf, List.nil_append] at hp
    exact hp
  · have hcount := congrArg AeadReader.frameCount hreader
    rw [hc] at hcount
    have hzero : (more r (feeds.map Prod.fst).flatten).frameCount = 0 := h.read
    rw [hzero, Nat.zero_add] at hcount
    exact hcount
  · intro hnil
    obtain ⟨hct, hm', hk⟩ := hend hnil
    refine ⟨?_, hk, ?_⟩
    · rw [← hreader] at hct
      exact hct
    · rw [← hreader] at hm'
      exact ⟨hm'.key, hm'.headerRead, hm'.nonce, hm'.streamNonce, hm'.fresh⟩

theorem sealAll_headerSent {w w' : AeadWriter} {pts outs : List Bytes}
    (h : sealAll P w pts = some (w', outs)) (hne : pts ≠ [] ∨ w.headerSent = true) :
    w'.headerSent = true := by
  induction pts generalizing w outs with
  | nil =>
    simp only [sealAll, Option.some.injEq, Prod.mk.injEq] at h
    rw [← h.1]
    exact hne.resolve_left (fun h ↦ h rfl)
  | cons pt pts ih =>
    obtain ⟨-, -, outs', -, h'⟩ := sealAll_cons h
    exact ih h' (.inr rfl)

/-- The reader gives back the plaintexts, however the frames are cut, and ends
where the writer stands; without any frame it has not learnt the nonce yet. -/
theorem aead_round_trip {w w' : AeadWriter} {r : AeadReader} (h : Initial w r)
    {pts outs : List Bytes} (hs : sealAll P w pts = some (w', outs))
    (feeds : List (Bytes × Bool)) (hcut : (feeds.map Prod.fst).flatten = outs.flatten) :
    (∀ pre, pre <+: feeds →
      (pre.foldl (Session.feed P) ⟨r, [], true⟩).ok = true ∧
      (pre.foldl (Session.feed P) ⟨r, [], true⟩).appended =
        (pts.take (completed outs (pre.map Prod.fst).flatten.length)).flatten) ∧
    (feeds.foldl (Session.feed P) ⟨r, [], true⟩).appended = pts.flatten ∧
    (feeds.foldl (Session.feed P) ⟨r, [], true⟩).reader.ctBuf = [] ∧
    (feeds.foldl (Session.feed P) ⟨r, [], true⟩).reader.frameCount = pts.length ∧
    w'.frameCount = pts.length ∧
    (pts ≠ [] → (feeds.foldl (Session.feed P) ⟨r, [], true⟩).reader.nonce = w'.nonce) := by
  have hcut' : (feeds.map Prod.fst).flatten ++ [] = outs.flatten := by rw [List.append_nil, hcut]
  obtain ⟨-, happ, hcount, hend⟩ := h.run_part hs hcut'
  obtain ⟨hct, hk, hm⟩ := hend rfl
  refine ⟨?_, ?_, hct, by rw [hcount, hk], ?_, ?_⟩
  · rintro pre ⟨post, rfl⟩
    have hpart : (pre.map Prod.fst).flatten ++ (post.map Prod.fst).flatten = outs.flatten := by
      rw [← hcut, List.map_append, List.flatten_append]
    obtain ⟨hok, happ', -⟩ := h.run_part hs hpart
    exact ⟨hok, happ'⟩
  · rw [happ, hk, List.take_length]
  · rw [sealAll_frameCount hs, h.written, Nat.zero_add]
  · intro hne
    exact hm.nonce (sealAll_headerSent hs (.inl hne))

def sampleWriter : AeadWriter :=
  { key := [3], streamNonce := List.replicate 12 4, nonce := List.replicate 12 4
    headerSent := false, frameCount := 0, nonce_length := rfl }

def sampleReader : AeadReader := ⟨[3], List.replicate 12 0, List.replicate 12 0, false, 0, [], []⟩

theorem sample_initial : Initial sampleWriter sampleReader :=
  ⟨rfl, rfl, rfl, rfl, rfl, rfl, rfl, rfl⟩

def sampleFeeds : List (Bytes × Bool) :=
  let stream := sampleWriter.sealed toyPrimitives [1, 2] ++
    ({ sampleWriter.advance with frameCount := 1 } : AeadWriter).sealed toyPrimitives [5]
  [(stream.take 5, false), ((stream.drop 5).take 9, true), ((stream.drop 14).take 26, false),
   (stream.drop 40, true)]

theorem round_trip_sampleFeeds :
    (sampleFeeds.foldl (Session.feed toyPrimitives) ⟨sampleReader, [], true⟩).appended =
      [1, 2, 5] := by
  have hseal : ∃ w' outs, sealAll toyPrimitives sampleWriter [[1, 2], [5]] = some (w', outs) ∧
      (sampleFeeds.map Prod.fst).flatten = outs.flatten := ⟨_, _, rfl, by decide +kernel⟩
  obtain ⟨w', outs, hs, hcut⟩ := hseal
  exact (aead_round_trip sample_initial hs sampleFeeds hcut).2.1

/-- Without a frame the reader never sees the stream nonce. -/
theorem nonces_differ_without_frames :
    Initial sampleWriter sampleReader ∧
    sealAll toyPrimitives sampleWriter [] = some (sampleWriter, []) ∧
    (([] : List (Bytes × Bool)).foldl (Session.feed toyPrimitives)
      ⟨sampleReader, [], true⟩).reader.nonce ≠ sampleWriter.nonce :=
  ⟨sample_initial, rfl, by decide⟩

end Xfrpc.Crypto.AeadStream
