import Xfrpc.Crypto.AeadStream

namespace Xfrpc.Crypto.FailStop

open Foundations.BigEndian Coder Aead AeadStream

variable (P : Primitives)

/-- The ways out of the loop of `aead_reader_feed` with allocation succeeding. -/
inductive Exit
  | needHeader | needLength | badLength | needBody | badTag | nonceUsedUp
  deriving DecidableEq, Repr

/-- Whether the exit returns 0. -/
def Exit.ok : Exit → Bool
  | .needHeader | .needLength | .needBody => true
  | .badLength | .badTag | .nonceUsedUp => false

/-- The exits that refuse a frame. -/
def Exit.rejects : Exit → Bool
  | .badLength | .badTag => true
  | _ => false

def frameExit (r : AeadReader) : Option Exit :=
  if r.ctBuf.length < 4 then some .needLength
  else
    let clen := ofBe (r.ctBuf.take 4)
    if clen < gcmTagSize ∨ clen > maxPayload + gcmTagSize then some .badLength
    else if r.ctBuf.length < 4 + clen then some .needBody
    else
      match P.gcmOpen r.key r.nonce (r.streamNonce ++ r.ctBuf.take 4)
          ((r.ctBuf.drop 4).take clen) with
      | none => some .badTag
      | some _ => if (incrementNonce r.nonce).2 then none else some .nonceUsedUp

/-- How one turn of the loop leaves it, if it does. -/
def turnExit (r : AeadReader) : Option Exit :=
  match r.readHeader with
  | none => some .needHeader
  | some r₁ => frameExit P r₁

def loopExit : ℕ → AeadReader → Option Exit
  | 0, _ => none
  | fuel + 1, r =>
    match aeadReaderTurn P r with
    | .frame r' => loopExit fuel r'
    | _ => turnExit P r

/-- The exit by which `aead_reader_feed` returns. -/
def feedExit (r : AeadReader) (ct : Bytes) : Option Exit :=
  loopExit P ((more r ct).ctBuf.length + 1) (more r ct)

/-- A frame that `gcm_open` accepted: its length field, its ciphertext and its
plaintext. -/
structure Opened where
  header : Bytes
  ct : Bytes
  pt : Bytes
  deriving DecidableEq, Repr

def Opened.wire (f : Opened) : Bytes := f.header ++ f.ct

def wires (fs : List Opened) : Bytes := (fs.map Opened.wire).flatten

def plaintexts (fs : List Opened) : Bytes := (fs.map Opened.pt).flatten

/-- The frames are opened one after the other, the first under `nonce` and each of
the others under the nonce after the one before it. -/
def Authentic (key streamNonce : Bytes) : Bytes → List Opened → Prop
  | _, [] => True
  | nonce, f :: fs =>
    f.header.length = 4 ∧ ofBe f.header = f.ct.length ∧
      gcmTagSize ≤ f.ct.length ∧ f.ct.length ≤ maxPayload + gcmTagSize ∧
      P.gcmOpen key nonce (streamNonce ++ f.header) f.ct = some f.pt ∧
      Authentic key streamNonce (incrementNonce nonce).1 fs

def nonceAfter (nonce : Bytes) (n : ℕ) : Bytes := (fun m ↦ (incrementNonce m).1)^[n] nonce

/-- A reader past its header, later: the frames it has opened in between are the
ones at the head of its input. -/
structure Reads (r : AeadReader) (fs : List Opened) (r' : AeadReader) : Prop where
  key : r'.key = r.key
  streamNonce : r'.streamNonce = r.streamNonce
  headerRead : r'.headerRead = true
  nonce : r'.nonce = nonceAfter r.nonce fs.length
  ptBuf : r'.ptBuf = r.ptBuf ++ plaintexts fs
  ctBuf : r.ctBuf = wires fs ++ r'.ctBuf
  authentic : Authentic P r.key r.streamNonce r.nonce fs

variable {P}

theorem wires_append (fs gs : List Opened) : wires (fs ++ gs) = wires fs ++ wires gs := by
  simp [wires]

theorem plaintexts_append (fs gs : List Opened) :
    plaintexts (fs ++ gs) = plaintexts fs ++ plaintexts gs := by
  simp [plaintexts]

theorem nonceAfter_add (nonce : Bytes) (m n : ℕ) :
    nonceAfter (nonceAfter nonce m) n = nonceAfter nonce (m + n) := by
  rw [nonceAfter, nonceAfter, nonceAfter, Nat.add_comm m n, Function.iterate_add_apply]

theorem Authentic.append {key sn nonce : Bytes} {fs gs : List Opened}
    (h : Authentic P key sn nonce fs) (h' : Authentic P key sn (nonceAfter nonce fs.length) gs) :
    Authentic P key sn nonce (fs ++ gs) := by
  induction fs generalizing nonce with
  | nil => exact h'
  | cons f fs ih =>
    obtain ⟨hh, hl, hmin, hmax, hopen, hrest⟩ := h
    exact ⟨hh, hl, hmin, hmax, hopen, ih hrest h'⟩

theorem Reads.refl {r : AeadReader} (h : r.headerRead = true) : Reads P r [] r where
  key := rfl
  streamNonce := rfl
  headerRead := h
  nonce := rfl
  ptBuf := by simp [plaintexts]
  ctBuf := rfl
  authentic := trivial

theorem Reads.trans {r r' r'' : AeadReader} {fs gs : List Opened} (h : Reads P r fs r')
    (h' : Reads P r' gs r'') : Reads P r (fs ++ gs) r'' where
  key := h'.key.trans h.key
  streamNonce := h'.streamNonce.trans h.streamNonce
  headerRead := h'.headerRead
  nonce := by rw [h'.nonce, h.nonce, nonceAfter_add, List.length_append]
  ptBuf := by rw [h'.ptBuf, h.ptBuf, plaintexts_append, List.append_assoc]
  ctBuf := by rw [h.ctBuf, h'.ctBuf, wires_append, List.append_assoc]
  authentic := by
    have hnext := h'.authentic
    rw [h.key, h.streamNonce, h.nonce] at hnext
    exact h.authentic.append hnext

theorem Reads.more {r r' : AeadReader} {fs : List Opened} (h : Reads P r fs r') (c : Bytes) :
    Reads P (AeadStream.more r c) fs (AeadStream.more r' c) where
  key := h.key
  streamNonce := h.streamNonce
  headerRead := h.headerRead
  nonce := h.nonce
  ptBuf := h.ptBuf
  ctBuf := by rw [more_ctBuf, more_ctBuf, h.ctBuf, List.append_assoc]
  authentic := h.authentic

/-- What a turn past the header does, with the exit it takes. -/
theorem frameTurn_exit {r : AeadReader} (hr : r.headerRead = true) :
    (∃ e, frameExit P r = some e ∧ e.ok = true ∧ frameTurn P r = .wait r) ∨
    (∃ e, frameExit P r = some e ∧ e.rejects = true ∧ frameTurn P r = .error r) ∨
    (∃ f r', Reads P r [f] r' ∧
      ((frameExit P r = some .nonceUsedUp ∧ frameTurn P r = .error r') ∨
        (frameExit P r = none ∧ frameTurn P r = .frame r'))) := by
  unfold frameExit frameTurn
  by_cases h4 : r.ctBuf.length < 4
  · exact .inl ⟨.needLength, if_pos h4, rfl, if_pos h4⟩
  rw [if_neg h4, if_neg h4]
  dsimp only
  by_cases hbad : ofBe (r.ctBuf.take 4) < gcmTagSize ∨
      ofBe (r.ctBuf.take 4) > maxPayload + gcmTagSize
  · exact .inr (.inl ⟨.badLength, if_pos hbad, rfl, if_pos hbad⟩)
  rw [if_neg hbad, if_neg hbad]
  by_cases hshort : r.ctBuf.length < 4 + ofBe (r.ctBuf.take 4)
  · exact .inl ⟨.needBody, if_pos hshort, rfl, if_pos hshort⟩
  rw [if_neg hshort, if_neg hshort]
  cases hopen : P.gcmOpen r.key r.nonce (r.streamNonce ++ r.ctBuf.take 4)
      ((r.ctBuf.drop 4).take (ofBe (r.ctBuf.take 4))) with
  | none => exact .inr (.inl ⟨.badTag, rfl, rfl, rfl⟩)
  | some pt =>
    dsimp only
    have hlen : ((r.ctBuf.drop 4).take (ofBe (r.ctBuf.take 4))).length =
        ofBe (r.ctBuf.take 4) := by
      rw [List.length_take, List.length_drop]
      omega
    let f : Opened := ⟨r.ctBuf.take 4, (r.ctBuf.drop 4).take (ofBe (r.ctBuf.take 4)), pt⟩
    have hreads : ∀ n, Reads P r [f] { r with
        ctBuf := r.ctBuf.drop (4 + ofBe (r.ctBuf.take 4))
        ptBuf := r.ptBuf ++ pt
        nonce := (incrementNonce r.nonce).1
        frameCount := n } := by
      intro n
      refine ⟨rfl, rfl, hr, rfl, ?_, ?_, ?_, ?_, ?_, ?_, hopen, trivial⟩
      · simp [plaintexts, f]
      · simp only [wires, f, Opened.wire, List.map_singleton, List.flatten_singleton]
        rw [← List.drop_drop, List.append_assoc, List.take_append_drop, List.take_append_drop]
      · rw [List.length_take]
        omega
      · exact hlen.symm
      · rw [hlen]
        omega
      · rw [hlen]
        omega
    by_cases hok : (incrementNonce r.nonce).2 = true
    · exact .inr (.inr ⟨f, _, hreads (r.frameCount + 1), .inr ⟨if_pos hok, if_pos hok⟩⟩)
    · exact .inr (.inr ⟨f, _, hreads r.frameCount, .inl ⟨if_neg hok, if_neg hok⟩⟩)

theorem feedLoop_reads (fuel : ℕ) {r : AeadReader} (hr : r.headerRead = true) :
    ∃ fs, Reads P r fs (feedLoop P fuel r).1 := by
  induction fuel generalizing r with
  | zero => exact ⟨[], Reads.refl hr⟩
  | succ fuel ih =>
    rw [feedLoop, aeadReaderTurn_eq, readHeader_of_read hr]
    dsimp only
    obtain ⟨e, -, -, h⟩ | ⟨e, -, -, h⟩ | ⟨f, r', hreads, ⟨-, h⟩ | ⟨-, h⟩⟩ := frameTurn_exit (P := P) hr
    · rw [h]
      exact ⟨[], Reads.refl hr⟩
    · rw [h]
      exact ⟨[], Reads.refl hr⟩
    · rw [h]
      exact ⟨[f], hreads⟩
    · rw [h]
      obtain ⟨fs, hfs⟩ := ih hreads.headerRead
      exact ⟨[f] ++ fs, hreads.trans hfs⟩

theorem drain_of_readHeader {r r₁ : AeadReader} (h : r.readHeader = some r₁) :
    drain P r = drain P r₁ := by
  obtain ⟨hr, -⟩ := readHeader_some h
  have hturn : aeadReaderTurn P r = aeadReaderTurn P r₁ := by
    rw [aeadReaderTurn_eq, aeadReaderTurn_eq, h, readHeader_of_read hr]
  rw [drain_eq, drain_eq r₁, hturn]

variable (P) in
/-- Where a reader `r` stands after it was fed `input`: still short of its header, or
past it with the frames `fs` opened. -/
def Standing (r : AeadReader) (input : Bytes) (fs : List Opened) (r' : AeadReader) : Prop :=
  ((more r input).readHeader = none ∧ fs = [] ∧ r' = more r input) ∨
    ∃ r₁, (more r input).readHeader = some r₁ ∧ Reads P r₁ fs r'

theorem drain_standing (r : AeadReader) (input : Bytes) :
    ∃ fs, Standing P r input fs (drain P (more r input)).1 := by
  cases h : (more r input).readHeader with
  | none =>
    have hturn : aeadReaderTurn P (more r input) = .wait (more r input) := by
      rw [aeadReaderTurn_eq, h]
    refine ⟨[], .inl ⟨h, rfl, ?_⟩⟩
    rw [drain_eq, hturn]
  | some r₁ =>
    obtain ⟨hr, -⟩ := readHeader_some h
    obtain ⟨fs, hfs⟩ := feedLoop_reads (P := P) (r₁.ctBuf.length + 1) hr
    refine ⟨fs, .inr ⟨r₁, h, ?_⟩⟩
    rw [drain_of_readHeader h]
    exact hfs

theorem Standing.feed {r r' : AeadReader} {input : Bytes} {fs : List Opened}
    (h : Standing P r input fs r') (b : Bytes) :
    ∃ gs, Standing P r (input ++ b) gs (aeadReaderFeed P r' b).1 := by
  obtain ⟨-, -, rfl⟩ | ⟨r₁, hread, hreads⟩ := h
  · rw [aeadReaderFeed, more_more]
    exact drain_standing r (input ++ b)
  · obtain ⟨-, -, -, -, hmore⟩ := readHeader_some hread
    have hb := hmore b
    rw [more_more] at hb
    have hnext := hreads.more b
    obtain ⟨gs, hgs⟩ := feedLoop_reads (P := P) ((more r' b).ctBuf.length + 1) hnext.headerRead
    exact ⟨fs ++ gs, .inr ⟨more r₁ b, hb, hnext.trans hgs⟩⟩

/-- Whole runs of feeds, with the plaintext the caller took put back. -/
theorem Standing.run {r : AeadReader} {s : Session} {input : Bytes} {fs : List Opened}
    (h : Standing P r input fs s.whole) (feeds : List (Bytes × Bool)) :
    ∃ gs, Standing P r (input ++ (feeds.map Prod.fst).flatten) gs
      (feeds.foldl (Session.feed P) s).whole := by
  induction feeds generalizing s input fs with
  | nil => exact ⟨fs, by simpa using h⟩
  | cons e es ih =>
    obtain ⟨gs, hgs⟩ := h.feed e.1
    rw [← (Session.feed_whole s e).1] at hgs
    obtain ⟨hs, hhs⟩ := ih hgs
    refine ⟨hs, ?_⟩
    rw [List.map_cons, List.flatten_cons, ← List.append_assoc]
    exact hhs

variable (P) in
/-- The plaintext a reader has given out after it was fed `input`: that of the frames
at the head of its input, opened in order under consecutive nonces. The first nonce is
the stream nonce for a reader that starts before its header. -/
def Genuine (r : AeadReader) (input appended : Bytes) (r' : AeadReader) : Prop :=
  ∃ fs, appended = r.ptBuf ++ plaintexts fs ∧
    Authentic P r.key r'.streamNonce (if r.headerRead then r.nonce else r'.streamNonce) fs ∧
    r.ctBuf ++ input =
      (if r.headerRead = false ∧ r'.headerRead = true then r'.streamNonce else []) ++
        (wires fs ++ r'.ctBuf)

theorem readHeader_none {r : AeadReader} (h : r.readHeader = none) : r.headerRead = false := by
  cases hr : r.headerRead with
  | false => rfl
  | true =>
    rw [readHeader_of_read hr] at h
    cases h

theorem readHeader_first {r r₁ : AeadReader} (hr : r.headerRead = false)
    (h : r.readHeader = some r₁) : r₁.key = r.key ∧ r₁.nonce = r₁.streamNonce ∧
      r₁.ptBuf = r.ptBuf ∧ r.ctBuf = r₁.streamNonce ++ r₁.ctBuf := by
  unfold AeadReader.readHeader at h
  rw [if_neg (by simp [hr])] at h
  split_ifs at h with hl
  obtain rfl := Option.some.inj h
  exact ⟨rfl, rfl, rfl, (List.take_append_drop _ _).symm⟩

theorem Standing.genuine {r r' : AeadReader} {input : Bytes} {fs : List Opened}
    (h : Standing P r input fs r') : Genuine P r input r'.ptBuf r' := by
  refine ⟨fs, ?_⟩
  obtain ⟨hnone, rfl, rfl⟩ | ⟨r₁, hread, hreads⟩ := h
  · have hr' : (more r input).headerRead = false := readHeader_none hnone
    have hr : r.headerRead = false := hr'
    refine ⟨by simp [plaintexts], trivial, ?_⟩
    rw [hr, hr', if_neg (by simp)]
    rfl
  · cases hr : r.headerRead with
    | true =>
      have hr' : (more r input).headerRead = true := hr
      rw [readHeader_of_read hr'] at hread
      obtain rfl := Option.some.inj hread
      refine ⟨hreads.ptBuf, ?_, ?_⟩
      · rw [hreads.streamNonce]
        exact hreads.authentic
      · rw [if_neg (by simp)]
        exact hreads.ctBuf
    | false =>
      have hr' : (more r input).headerRead = false := hr
      obtain ⟨hkey, hnonce, hpt, hct⟩ := readHeader_first hr' hread
      have hauth := hreads.authentic
      rw [hkey, hnonce] at hauth
      refine ⟨by rw [hreads.ptBuf, hpt, more_ptBuf], ?_, ?_⟩
      · rw [hreads.streamNonce]
        exact hauth
      · rw [if_pos ⟨rfl, hreads.headerRead⟩, ← more_ctBuf, hct, hreads.streamNonce, hreads.ctBuf]

theorem genuine_run (r : AeadReader) (feeds : List (Bytes × Bool)) :
    Genuine P r (feeds.map Prod.fst).flatten
      (feeds.foldl (Session.feed P) ⟨r, [], true⟩).appended
      (feeds.foldl (Session.feed P) ⟨r, [], true⟩).reader := by
  cases feeds with
  | nil =>
    refine ⟨[], by simp [plaintexts, Session.appended], trivial, ?_⟩
    rw [if_neg (fun h ↦ absurd (h.1.symm.trans h.2) Bool.false_ne_true)]
    simp [wires]
  | cons e es =>
    obtain ⟨fs, hfs⟩ := drain_standing (P := P) r e.1
    have hfirst : drain P (more r e.1) = aeadReaderFeed P (⟨r, [], true⟩ : Session).whole e.1 := rfl
    rw [hfirst, ← (Session.feed_whole _ e).1] at hfs
    obtain ⟨gs, hgs⟩ := hfs.run es
    exact hgs.genuine

variable (P) in
/-- The frame at the head of `ct_buf` is one that the reader refuses. -/
def Rejected (r : AeadReader) : Prop :=
  r.headerRead = true ∧ ∃ e, frameExit P r = some e ∧ e.rejects = true

theorem Rejected.drain_eq {r : AeadReader} (h : Rejected P r) : drain P r = (r, false) := by
  obtain ⟨hr, e, he, hrej⟩ := h
  rw [AeadStream.drain_eq, aeadReaderTurn_eq, readHeader_of_read hr]
  dsimp only
  obtain ⟨e', he', hok, -⟩ | ⟨e', -, -, hturn⟩ | ⟨f, r', -, ⟨he', -⟩ | ⟨he', -⟩⟩ :=
    frameTurn_exit (P := P) hr
  · rw [he', Option.some.injEq] at he
    subst he
    cases e' <;> simp [Exit.ok, Exit.rejects] at hok hrej
  · rw [hturn]
  · rw [he', Option.some.injEq] at he
    subst he
    cases hrej
  · rw [he'] at he
    cases he

theorem frameExit_more {r : AeadReader} {e : Exit} (h : frameExit P r = some e)
    (hrej : e.rejects = true) (c : Bytes) : frameExit P (more r c) = some e := by
  by_cases h4 : r.ctBuf.length < 4
  · rw [frameExit, if_pos h4, Option.some.injEq] at h
    subst h
    cases hrej
  have h4' : ¬ (more r c).ctBuf.length < 4 := by
    rw [more_ctBuf, List.length_append]
    omega
  have htake : (more r c).ctBuf.take 4 = r.ctBuf.take 4 :=
    List.take_append_of_le_length (by omega)
  rw [frameExit, if_neg h4] at h
  rw [frameExit, if_neg h4', htake]
  dsimp only at h ⊢
  by_cases hbad : ofBe (r.ctBuf.take 4) < gcmTagSize ∨
      ofBe (r.ctBuf.take 4) > maxPayload + gcmTagSize
  · rw [if_pos hbad] at h ⊢
    exact h
  rw [if_neg hbad] at h ⊢
  by_cases hshort : r.ctBuf.length < 4 + ofBe (r.ctBuf.take 4)
  · rw [if_pos hshort, Option.some.injEq] at h
    subst h
    cases hrej
  have hshort' : ¬ (more r c).ctBuf.length < 4 + ofBe (r.ctBuf.take 4) := by
    rw [more_ctBuf, List.length_append]
    omega
  have hbody : ((more r c).ctBuf.drop 4).take (ofBe (r.ctBuf.take 4)) =
      (r.ctBuf.drop 4).take (ofBe (r.ctBuf.take 4)) := by
    rw [more_ctBuf, List.drop_append_of_le_length (by omega),
      List.take_append_of_le_length (by rw [List.length_drop]; omega)]
  rw [if_neg hshort] at h
  rw [if_neg hshort', hbody]
  exact h

theorem Rejected.more {r : AeadReader} (h : Rejected P r) (c : Bytes) :
    Rejected P (AeadStream.more r c) := by
  obtain ⟨hr, e, he, hrej⟩ := h
  exact ⟨hr, e, frameExit_more he hrej c, hrej⟩

theorem Rejected.feed {r : AeadReader} (h : Rejected P r) (c : Bytes) :
    aeadReaderFeed P r c = (AeadStream.more r c, false) := (h.more c).drain_eq

theorem Rejected.session_feed {s : Session} (h : Rejected P s.reader) (e : Bytes × Bool) :
    Rejected P (s.feed P e).reader := by
  have hmore := h.more e.1
  unfold Session.feed
  rw [h.feed e.1]
  cases e.2 with
  | true => exact hmore
  | false => exact hmore

theorem Rejected.session_run {s : Session} (h : Rejected P s.reader)
    (later : List (Bytes × Bool)) : Rejected P (later.foldl (Session.feed P) s).reader := by
  induction later generalizing s with
  | nil => exact h
  | cons e es ih =>
    apply ih
    exact h.session_feed e

/-- The loop leaves a refused frame at the head of `ct_buf`. -/
theorem loopExit_rejected {fuel : ℕ} {r : AeadReader} {e : Exit}
    (h : loopExit P fuel r = some e) (hrej : e.rejects = true) :
    Rejected P (feedLoop P fuel r).1 ∧ (feedLoop P fuel r).2 = false := by
  induction fuel generalizing r with
  | zero => cases h
  | succ fuel ih =>
    rw [loopExit, turnExit, aeadReaderTurn_eq] at h
    rw [feedLoop, aeadReaderTurn_eq]
    cases hh : r.readHeader with
    | none =>
      rw [hh] at h
      obtain rfl := Option.some.inj h
      cases hrej
    | some r₁ =>
      rw [hh] at h
      dsimp only at h ⊢
      obtain ⟨hr, -⟩ := readHeader_some hh
      obtain ⟨e', he', hok, ht⟩ | ⟨e', he', -, ht⟩ | ⟨f, r', -, ⟨he', ht⟩ | ⟨-, ht⟩⟩ :=
        frameTurn_exit (P := P) hr
      · rw [ht, he', Option.some.injEq] at h
        subst h
        cases e' <;> simp [Exit.ok, Exit.rejects] at hok hrej
      · rw [ht, he', Option.some.injEq] at h
        subst h
        rw [ht]
        exact ⟨⟨hr, e', he', hrej⟩, rfl⟩
      · rw [ht, he', Option.some.injEq] at h
        subst h
        cases hrej
      · rw [ht] at h ⊢
        exact ih h

theorem feedExit_rejected {r : AeadReader} {b : Bytes} {e : Exit}
    (h : feedExit P r b = some e) (hrej : e.rejects = true) :
    Rejected P (aeadReaderFeed P r b).1 ∧ (aeadReaderFeed P r b).2 = false :=
  loopExit_rejected h hrej

theorem Session.feed_rejected {s : Session} {b : Bytes} {e : Exit} (taken : Bool)
    (h : feedExit P s.reader b = some e) (hrej : e.rejects = true) :
    Rejected P (s.feed P (b, taken)).reader := by
  obtain ⟨hr, -⟩ := feedExit_rejected h hrej
  unfold Session.feed
  cases taken with
  | true => exact hr
  | false => exact hr

/-- Every feed has an exit, and the exit says what it returns. -/
theorem feedExit_ok (r : AeadReader) (b : Bytes) :
    ∃ e, feedExit P r b = some e ∧ (aeadReaderFeed P r b).2 = e.ok := by
  unfold feedExit aeadReaderFeed drain
  generalize hn : (more r b).ctBuf.length + 1 = fuel
  have hlt : (more r b).ctBuf.length < fuel := by omega
  clear hn
  generalize more r b = q at hlt
  induction fuel generalizing q with
  | zero => omega
  | succ fuel ih =>
    rw [loopExit, turnExit, feedLoop, aeadReaderTurn_eq]
    cases hh : q.readHeader with
    | none => exact ⟨.needHeader, rfl, rfl⟩
    | some q₁ =>
      obtain ⟨hr, -, -, hlen, -⟩ := readHeader_some hh
      dsimp only
      obtain ⟨e, he, hok, ht⟩ | ⟨e, he, hrej, ht⟩ | ⟨f, q', hreads, ⟨he, ht⟩ | ⟨-, ht⟩⟩ :=
        frameTurn_exit (P := P) hr
      · rw [ht]
        exact ⟨e, he, hok.symm⟩
      · rw [ht]
        refine ⟨e, he, ?_⟩
        cases e <;> simp [Exit.ok, Exit.rejects] at hrej ⊢
      · rw [ht]
        exact ⟨.nonceUsedUp, he, rfl⟩
      · rw [ht]
        apply ih
        have hct := congrArg List.length hreads.ctBuf
        have hhead := hreads.authentic.1
        simp only [wires, Opened.wire, List.map_singleton, List.flatten_singleton,
          List.length_append] at hct
        omega

/-- The reader is fail-stop: what it has given out is genuine, and once it has refused
a frame no feed succeeds or adds to the plaintext. -/
theorem reader_fail_stop (r : AeadReader) (feeds : List (Bytes × Bool)) :
    let s := feeds.foldl (Session.feed P) ⟨r, [], true⟩
    Genuine P r (feeds.map Prod.fst).flatten s.appended s.reader ∧
    ∀ b taken, (feedExit P s.reader b = some .badLength ∨ feedExit P s.reader b = some .badTag) →
      (aeadReaderFeed P s.reader b).2 = false ∧
      ∀ (later : List (Bytes × Bool)) (c : Bytes),
        let t := later.foldl (Session.feed P) (s.feed P (b, taken))
        (aeadReaderFeed P t.reader c).2 = false ∧
        (aeadReaderFeed P t.reader c).1.ptBuf = t.reader.ptBuf := by
  intro s
  refine ⟨genuine_run r feeds, ?_⟩
  intro b taken hexit
  obtain ⟨e, he, hrej⟩ : ∃ e, feedExit P s.reader b = some e ∧ e.rejects = true := by
    obtain h | h := hexit
    · exact ⟨.badLength, h, rfl⟩
    · exact ⟨.badTag, h, rfl⟩
  refine ⟨(feedExit_rejected he hrej).2, ?_⟩
  intro later c t
  have ht : Rejected P t.reader := (Session.feed_rejected taken he hrej).session_run later
  rw [ht.feed c]
  exact ⟨rfl, rfl⟩

/-- A new reader that is fed its header and then a frame of length zero. -/
theorem reader_fail_stop_zero_length :
    let s := Session.feed toyPrimitives ⟨aeadReaderInit [], [], true⟩ (List.replicate 12 5, false)
    feedExit toyPrimitives s.reader [0, 0, 0, 0] = some .badLength ∧
    (aeadReaderFeed toyPrimitives (s.feed toyPrimitives ([0, 0, 0, 0], true)).reader [1]).2 =
      false := by
  intro s
  have hexit : feedExit toyPrimitives s.reader [0, 0, 0, 0] = some .badLength := by decide
  have hstop := reader_fail_stop (P := toyPrimitives) (aeadReaderInit [])
    [(List.replicate 12 5, false)]
  exact ⟨hexit, ((hstop.2 [0, 0, 0, 0] true (.inl hexit)).2 [] [1]).1⟩

end Xfrpc.Crypto.FailStop
