import Xfrpc.Tunnel.StartWork.Dispatch

namespace Xfrpc.Tunnel.StartWork

open Control.Receive (checkMsg)
open Client Control.Message Foundations.Runs Lifetime Mux.Header Mux.Stream Service Wire

variable {E : Env}

/-- No handler has used the client after removing it. -/
def NoStale (t : Conn) : Prop := ∀ site, .stale site ∉ t.log

theorem notes_stale {v : Verdict} {site : Site} (h : .stale site ∈ v.notes) : v.removes = true := by
  cases v with
  | other => cases h
  | refused why => simp [Verdict.notes] at h
  | accepted ps why =>
    rcases why with _ | why
    · simp [Verdict.notes] at h
    · cases why with
      | localConnect => rfl
      | _ => simp [Verdict.notes] at h

theorem msgNotes_stale {bufs : List Bytes} {n : ℕ} (h : Kept E bufs n) (site : Site) :
    .stale site ∉ msgNotes E bufs n := by
  induction bufs generalizing n with
  | nil => exact List.not_mem_nil
  | cons buf bufs ih =>
    intro hmem
    rcases List.mem_append.mp hmem with hmem | hmem
    · rcases List.mem_cons.mp hmem with heq | hmem
      · cases heq
      · have hr := notes_stale hmem
        rw [h.head] at hr
        cases hr
    · exact ih h.tail hmem

theorem foldl_write (t : Conn) (replies : List Bytes) :
    replies.foldl Conn.write t = { t with life := replies.foldl Life.write t.life } := by
  induction replies generalizing t with
  | nil => rfl
  | cons r rs ih => exact ih (t.write r)

theorem dispatch_control {t : Conn} (h : t.owner = .control) (payload : Bytes)
    (replies : List Bytes) :
    dispatch E t payload replies = (replies.foldl Conn.write t, true) := by
  rw [dispatch, h]

theorem dispatch_client {t : Conn} (h : ¬ t.owner = .control) (payload : Bytes)
    (replies : List Bytes) : dispatch E t payload replies = dispatchClient E t payload := by
  unfold dispatch
  cases ho : t.owner with
  | control => exact absurd ho h
  | client => rfl

theorem dispatch_cases {t : Conn} (ha : t.life.alive = true) (payload : Bytes)
    (replies : List Bytes) (halive : (dispatch E t payload replies).1.life.alive = true) :
    (dispatch E t payload replies).1 = { t with life := replies.foldl Life.write t.life } ∨
    Forwarded t (dispatch E t payload replies).1 ∨
    ∃ seen rx, (dispatch E t payload replies).1 =
      { t with
        tick := msgTick (messages E t.life.stream payload) t.tick
        client := msgClient E (messages E t.life.stream payload) t.tick t.client
        life := { t.life with stream := { t.life.stream with v2MagicSeen := seen, v2Rx := rx } }
        log := t.log ++ .frpsMsg payload :: msgNotes E (messages E t.life.stream payload) t.tick } := by
  by_cases ho : t.owner = .control
  · rw [dispatch_control ho, foldl_write]
    exact .inl rfl
  rw [dispatch_client ho] at halive ⊢
  cases hm : takesMessages t.client with
  | false => exact .inr (.inl (dispatchClient_forwarded hm payload))
  | true =>
    rw [dispatchClient_messages hm] at halive ⊢
    by_cases hne : payload = []
    · rw [handleFrpsMsg, if_pos hne]
      exact .inr (.inl ⟨rfl, rfl, .inl rfl, .same rfl rfl⟩)
    by_cases hk : Kept E (messages E t.life.stream payload) t.tick
    · exact .inr (.inr (handleFrpsMsg_kept ha hne hk))
    · obtain ⟨⟨seen, rx, hlife⟩, -⟩ := handleFrpsMsg_removed ha hne hk
      rw [hlife] at halive
      cases halive

theorem write_alive (l : Life) (src : Bytes) : (l.write src).alive = l.alive := rfl

theorem foldl_write_alive (l : Life) (replies : List Bytes) :
    (replies.foldl Life.write l).alive = l.alive := by
  induction replies generalizing l with
  | nil => rfl
  | cons r rs ih => exact (ih (l.write r)).trans (write_alive l r)

theorem Forwarded.alive {t t' : Conn} (h : Forwarded t t') : t'.life.alive = t.life.alive := by
  rcases h.life with hl | hl
  · rw [hl]
  · rw [hl, write_alive]

theorem tcpProxyC2sCb_log (t : Conn) (w : Which) (b : LocalBev) :
    (tcpProxyC2sCb E t w b).log = t.log := by
  unfold tcpProxyC2sCb
  dsimp only
  split_ifs
  · rfl
  · split <;> rfl
  · split <;> rfl

theorem incrSendWindow_log (t : Conn) (flags increment : ℕ) :
    (incrSendWindow t flags increment).log = t.log := by
  unfold incrSendWindow
  cases creditSendWindow flags increment t.life.stream with
  | error s => rfl
  | freed s => rfl
  | credited old s =>
    dsimp only
    split_ifs <;> rfl

theorem step_log {t : Conn} {e : Event}
    (h : ∀ flags payload replies, e ≠ .data flags payload replies) : (step E t e).log = t.log := by
  cases e with
  | data flags payload replies => exact absurd rfl (h flags payload replies)
  | windowUpdate flags increment =>
    simp only [step]
    split_ifs
    · exact incrSendWindow_log t flags increment
    · rfl
  | send src =>
    simp only [step]
    split_ifs <;> rfl
  | connected w =>
    refine withBev_ind (P := fun t' ↦ t'.log = t.log) rfl fun b _ _ ↦ ?_
    unfold onConnected handlePostConnectionData
    dsimp only
    split_ifs <;> rfl
  | readable w d =>
    refine withBev_ind (P := fun t' ↦ t'.log = t.log) rfl fun b _ _ ↦ ?_
    unfold onReadable readCb
    split_ifs
    · rfl
    · exact tcpProxyC2sCb_log t w _
    · rfl
  | closed w d =>
    refine withBev_ind (P := fun t' ↦ t'.log = t.log) rfl fun b _ _ ↦ ?_
    unfold onClosed handleProxyDisconnect
    dsimp only
    split_ifs <;> rfl

theorem touch_settle_log (t : Conn) (n : ℕ) (ha : t.life.alive = true) :
    (t.touch .settle (·.settle n)).log = t.log := by
  rw [Conn.touch, if_pos ha]
  rfl

/-- The stream as the consumer of a frame with `n` bytes finds it. -/
def admitted (s : TmuxStream) (st : TcpMuxState) (n : ℕ) : TmuxStream :=
  { s with state := st, recvWindow := s.recvWindow - .ofNat n }

theorem step_data_messages {t : Conn} {flags : ℕ} {payload : Bytes}
    (h : reachesHandler t flags payload = true) (replies : List Bytes) :
    t.life.alive = true ∧ payload ≠ [] ∧
      ∃ st, processFlags flags t.life.stream = .kept { t.life.stream with state := st } ∧
        step E t (.data flags payload replies) =
          (handleFrpsMsg E (t.setStream (admitted t.life.stream st payload.length)) payload).touch
            .settle (·.settle payload.length) := by
  simp only [reachesHandler, Bool.and_eq_true, decide_eq_true_eq, Bool.not_eq_true'] at h
  obtain ⟨⟨⟨⟨⟨⟨⟨ha, hne⟩, hmax⟩, hr⟩, hf⟩, hw⟩, ho⟩, hm⟩ := h
  refine ⟨ha, hne, ?_⟩
  simp only [step]
  rw [if_pos ⟨ha, hne, hmax⟩]
  obtain ⟨hr', -⟩ | ⟨-, hf', -⟩ | ⟨-, -, st, hpf, ⟨hw', -⟩ | ⟨-, t₁, rfl, hp⟩⟩ :=
    processData_cases (E := E) t flags payload replies
  · rw [hr] at hr'
    cases hr'
  · rw [hf] at hf'
    cases hf'
  · omega
  · refine ⟨st, hpf, ?_⟩
    have hdisp : dispatch E (t.setStream (admitted t.life.stream st payload.length)) payload
        replies = (handleFrpsMsg E (t.setStream (admitted t.life.stream st payload.length)) payload,
          true) := by
      unfold dispatch
      rw [show (t.setStream (admitted t.life.stream st payload.length)).owner = .client from ho]
      exact dispatchClient_messages
        (t := t.setStream (admitted t.life.stream st payload.length)) hm payload
    rw [hp]
    exact congrArg (fun p : Conn × Bool ↦ p.1.touch .settle (·.settle payload.length)) hdisp

theorem step_data_log {t : Conn} {flags : ℕ} {payload : Bytes}
    (h : reachesHandler t flags payload = false) (replies : List Bytes) :
    (step E t (.data flags payload replies)).log = t.log := by
  simp only [step]
  split_ifs with hd
  · obtain ⟨ha, hne, hmax⟩ := hd
    obtain ⟨-, hp⟩ | ⟨-, -, st, -, hp⟩ | ⟨hr, hf, st, -, ⟨-, hp⟩ | ⟨hw, t₁, ht₁, hp⟩⟩ :=
      processData_cases (E := E) t flags payload replies
    · rw [hp]
    · rw [hp]
    · rw [hp]
      rfl
    · rw [hp]
      have ha₁ : t₁.life.alive = true := by rw [ht₁]; exact ha
      have howner : t₁.owner = t.owner := by rw [ht₁]; rfl
      have hclient : t₁.client = t.client := by rw [ht₁]; rfl
      have hlog : t₁.log = t.log := by rw [ht₁]; rfl
      unfold dispatch
      cases ho : t.owner with
      | control =>
        rw [howner, ho]
        dsimp only
        rw [foldl_write, touch_settle_log _ _ ((foldl_write_alive _ _).trans ha₁)]
        exact hlog
      | client =>
        rw [howner, ho]
        dsimp only
        have hm : takesMessages t.client = false := by
          simpa [reachesHandler, ha, hne, hmax, hr, hf, hw, ho] using h
        have hfw := dispatchClient_forwarded (E := E) (t := t₁) (hclient ▸ hm) payload
        rw [touch_settle_log _ _ (hfw.alive.trans ha₁), hfw.log, hlog]
  · rfl

theorem messages_of_admitted (s : TmuxStream) (st : TcpMuxState) (n : ℕ) (payload : Bytes) :
    messages E (admitted s st n) payload = messages E s payload := messages_admitted _ _ _ _

theorem step_noStale {t : Conn} (h : NoStale t) (e : Event) :
    NoStale (step E t e) ↔ StartsHold E t e := by
  have hsame : ∀ t' : Conn, t'.log = t.log → NoStale t' := by
    intro t' hlog site
    rw [hlog]
    exact h site
  cases e with
  | data flags payload replies =>
    cases hreach : reachesHandler t flags payload with
    | false =>
      refine ⟨fun _ hr ↦ ?_, fun _ ↦ hsame _ (step_data_log hreach replies)⟩
      rw [hreach] at hr
      cases hr
    | true =>
      obtain ⟨ha, hne, st, -, hstep⟩ := step_data_messages (E := E) hreach replies
      rw [hstep]
      by_cases hk : Kept E (messages E t.life.stream payload) t.tick
      · obtain ⟨seen, rx, hmsg⟩ := handleFrpsMsg_kept
          (t := t.setStream (admitted t.life.stream st payload.length)) ha hne
          (by rw [← messages_of_admitted t.life.stream st payload.length] at hk; exact hk)
        refine ⟨fun _ _ ↦ hk, fun _ site ↦ ?_⟩
        rw [touch_settle_log _ _ (by rw [hmsg]; exact ha), hmsg]
        intro hmem
        rcases List.mem_append.mp hmem with hmem | hmem
        · exact h site hmem
        · rcases List.mem_cons.mp hmem with heq | hmem
          · cases heq
          · refine msgNotes_stale hk site ?_
            rw [← messages_of_admitted t.life.stream st payload.length]
            exact hmem
      · obtain ⟨⟨seen, rx, hdead⟩, -, site, hsite⟩ := handleFrpsMsg_removed
          (t := t.setStream (admitted t.life.stream st payload.length)) ha hne
          (by rw [← messages_of_admitted t.life.stream st payload.length] at hk; exact hk)
        refine ⟨fun hno ↦ absurd ?_ (hno site), fun hall ↦ absurd (hall hreach) hk⟩
        rw [Conn.touch, if_neg (by simp [hdead])]
        exact List.mem_append_left _ hsite
  | _ => exact ⟨fun _ ↦ trivial, fun _ ↦ hsame _ (step_log (by intro _ _ _ h; cases h))⟩

/-- No handler uses a client again that it has removed, exactly when no
StartWorkConn that is handled has its local connect fail at once. -/
theorem no_stale_access_iff (owner : Owner) (id : ℕ) (msg : Bytes) (events : List Event) :
    Always (step E) NoStale (.start owner id msg) events ↔
      Along (step E) (StartsHold E) (.start owner id msg) events :=
  always_iff_along (fun _ e h ↦ step_noStale h e) (fun _ ↦ List.not_mem_nil)

/-- A plain TCP proxy on port 22. -/
def samplePs : ProxyService :=
  { proxyType := .tcp, serviceType := .noXdpi, uds := false, localIp := true, localPort := 22
    useEncryption := false, useCompression := false, startTime := 0, endTime := 0 }

/-- A client with one proxy whose local service answers or not. -/
def sampleEnv (ps : ProxyService) (connects : Bool) : Env :=
  { prims := Crypto.Coder.toyPrimitives
    conf := ⟨true, false, none⟩
    startWorkConnRespUnmarshal := some
    getProxyService := fun _ ↦ some ps
    currentHour := fun _ ↦ 12
    connectServer := fun _ ↦ connects
    compress := fun _ ↦ none
    decompress := fun _ ↦ none }

/-- A StartWorkConn in a frame of its own. -/
def startFrame : Event := .data 0 (frameMsg MsgType.startWorkConn.code [0x7b, 0x7d]) []

theorem stale_access_localRefused :
    ¬ Always (step (sampleEnv samplePs false)) NoStale (.start .client 3 []) [startFrame] := by
  intro h
  exact absurd (h.last .setClientWorkStart) (by decide)

end Xfrpc.Tunnel.StartWork
