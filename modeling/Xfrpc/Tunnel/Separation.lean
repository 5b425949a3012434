import Xfrpc.Tunnel.Closing
import Xfrpc.Tunnel.Direct

namespace Xfrpc.Tunnel.Separation

open Client Closing Control.Message Foundations.Runs Lifetime Mux.Header Mux.Stream Service
  StartWork Wire

variable (E : Env)

/-- The proxies whose payload is a byte stream: tcp, socks5, and those with a
service type. -/
def isTunnel (ps : ProxyService) : Bool :=
  ps.proxyType == .tcp || ps.proxyType == .socks5 || hasServiceType ps

def opens : Note → Bool
  | .accepted ps => isTunnel ps
  | _ => false

def isMessage : Note → Bool
  | .frpsMsg _ | .controlWork _ => true
  | _ => false

/-- No bytes go to the handlers of messages once a tunnel has been accepted. -/
def Sealed (log : List Note) : Prop :=
  log.Pairwise fun a b ↦ opens a = true → isMessage b = false

instance (log : List Note) : Decidable (Sealed log) :=
  inferInstanceAs (Decidable (List.Pairwise _ log))

def Verdict.opens : Verdict → Bool
  | .accepted ps _ => isTunnel ps
  | _ => false

def handled : List Bytes → ℕ → List Bytes
  | [], _ => []
  | buf :: bufs, n =>
    if (verdict E buf n).removes then [buf] else buf :: handled bufs (nextTick buf n)

def followed : List Bytes → ℕ → Bool
  | [], _ => false
  | buf :: bufs, n =>
    !(verdict E buf n).removes &&
      ((Verdict.opens (verdict E buf n) && decide (bufs ≠ [])) || followed bufs (nextTick buf n))

variable {E}

def Trace (notes : List Note) : Prop := ∀ n ∈ notes, ∃ site, n = .stale site

theorem Trace.quiet {notes : List Note} (h : Trace notes) :
    ∀ n ∈ notes, opens n = false ∧ isMessage n = false := by
  intro n hn
  obtain ⟨site, rfl⟩ := h n hn
  exact ⟨rfl, rfl⟩

theorem v2ConsumePlainFrames_handled (fuel : ℕ) {t : Conn} (ha : t.life.alive = true) :
    ∃ stales, Trace stales ∧
      (v2ConsumePlainFrames E fuel t).log = t.log ++
        msgNotes E (handled E (frameMsgs fuel t.life.stream.v2Rx) t.tick) t.tick ++ stales ∧
      (v2ConsumePlainFrames E fuel t).client =
        msgClient E (handled E (frameMsgs fuel t.life.stream.v2Rx) t.tick) t.tick t.client := by
  induction fuel generalizing t with
  | zero =>
    refine ⟨[], List.forall_mem_nil _, ?_, rfl⟩
    simp [v2ConsumePlainFrames, frameMsgs, handled, msgNotes]
  | succ fuel ih =>
    unfold v2ConsumePlainFrames frameMsgs
    cases hp : V2.parseFrame t.life.stream.v2Rx with
    | incomplete => exact ⟨[], List.forall_mem_nil _, by simp [handled, msgNotes], rfl⟩
    | error =>
      refine ⟨[], List.forall_mem_nil _, ?_, rfl⟩
      simp [handled, msgNotes, setRx, Conn.setStream]
    | frame type payload n =>
      dsimp only
      cases hf : frameToV1 type payload with
      | none =>
        rw [Conn.touch, if_pos ha]
        exact ih (t := setRx t (t.life.stream.v2Rx.drop n)) ha
      | some v1 =>
        dsimp only [Option.toList_some, List.singleton_append, handled]
        by_cases hr : (verdict E v1 t.tick).removes = true
        · have hdead : (handleControlWork E t v1).life.alive = false := by
            rw [handleControlWork_spec E t v1 ha]
            dsimp only
            rw [if_pos hr]
            rfl
          rw [Conn.touch, if_neg (by simp [hdead]), if_pos hr, handleControlWork_spec E t v1 ha]
          refine ⟨[.stale .v2Rx], ?_, ?_, rfl⟩
          · intro n hn
            exact ⟨.v2Rx, List.mem_singleton.mp hn⟩
          · simp [Conn.note, msgNotes]
        · have hr' : (verdict E v1 t.tick).removes = false := by simpa using hr
          rw [handleControlWork_kept ha hr', Conn.touch, if_pos ha, if_neg hr]
          obtain ⟨stales, hst, hlog, hclient⟩ := ih (t := setRx
            { t with
              tick := nextTick v1 t.tick
              client := (verdict E v1 t.tick).client E t.client (tailOf v1) t.tick
              log := t.log ++ .controlWork v1 :: (verdict E v1 t.tick).notes }
            (t.life.stream.v2Rx.drop n)) ha
          refine ⟨stales, hst, hlog.trans ?_, hclient⟩
          simp [setRx, Conn.setStream, msgNotes]

theorem handleFrpsMsg_handled {t : Conn} {payload : Bytes} (ha : t.life.alive = true)
    (hne : payload ≠ []) :
    ∃ stales, Trace stales ∧
      (handleFrpsMsg E t payload).log = t.log ++ .frpsMsg payload ::
        msgNotes E (handled E (messages E t.life.stream payload) t.tick) t.tick ++ stales ∧
      (handleFrpsMsg E t payload).client =
        msgClient E (handled E (messages E t.life.stream payload) t.tick) t.tick t.client := by
  unfold handleFrpsMsg messages
  rw [if_neg hne]
  by_cases hv : E.conf.wireV2 = true
  · rw [if_pos hv, if_pos hv]
    unfold v2HandleBytes
    obtain ⟨stales, hst, hlog, hclient⟩ := v2ConsumePlainFrames_handled (E := E)
      ((received t.life.stream payload).v2Rx.length + 1)
      (t := (t.note (.frpsMsg payload)).setStream (received t.life.stream payload)) ha
    refine ⟨stales, hst, hlog.trans ?_, hclient⟩
    simp [Conn.setStream, Conn.note]
  · rw [if_neg hv, if_neg hv, handleControlWork_spec E _ _ (by exact ha)]
    have hone : handled E [payload] t.tick = [payload] := by
      unfold handled
      split_ifs <;> rfl
    refine ⟨[], List.forall_mem_nil _, ?_, ?_⟩
    · rw [hone]
      simp [Conn.note, msgNotes]
    · rw [hone]
      rfl

theorem notes_any_opens (v : Verdict) : v.notes.any opens = Verdict.opens v := by
  cases v with
  | other => rfl
  | refused why => rfl
  | accepted ps why =>
    rcases why with _ | why
    · simp [Verdict.notes, opens, Verdict.opens]
    · cases why <;> simp [Verdict.notes, opens, Verdict.opens]

theorem notes_not_message {v : Verdict} {n : Note} (h : n ∈ v.notes) : isMessage n = false := by
  cases v with
  | other => cases h
  | refused why =>
    obtain rfl := List.mem_singleton.mp h
    rfl
  | accepted ps why =>
    rcases why with _ | why
    · obtain rfl := List.mem_singleton.mp h
      rfl
    · cases why <;> simp only [Verdict.notes, List.mem_cons, List.not_mem_nil, or_false] at h <;>
        rcases h with rfl | rfl | rfl <;> rfl

theorem sealed_of_quiet {log notes : List Note} (h : ∀ n ∈ notes, isMessage n = false) :
    Sealed (log ++ notes) ↔ Sealed log := by
  unfold Sealed
  rw [List.pairwise_append]
  refine ⟨fun hp ↦ hp.1, fun hp ↦ ⟨hp, ?_, fun a _ b hb _ ↦ h b hb⟩⟩
  exact List.pairwise_of_forall_mem_list fun a _ b hb _ ↦ h b hb

theorem sealed_append {log notes : List Note} (h : ∃ n ∈ notes, isMessage n = true) :
    Sealed (log ++ notes) ↔ Sealed log ∧ Sealed notes ∧ log.any opens = false := by
  unfold Sealed
  rw [List.pairwise_append]
  refine and_congr_right fun _ ↦ and_congr_right fun _ ↦ ?_
  rw [List.any_eq_false]
  constructor
  · intro hx a ha hopen
    obtain ⟨n, hn, hmsg⟩ := h
    rw [hx a ha n hn hopen] at hmsg
    cases hmsg
  · intro hx a ha b _ hopen
    exact absurd hopen (hx a ha)

theorem msgNotes_cons (buf : Bytes) (bufs : List Bytes) (n : ℕ) :
    msgNotes E (buf :: bufs) n =
      ([.controlWork buf] ++ (verdict E buf n).notes) ++ msgNotes E bufs (nextTick buf n) := rfl

theorem sealed_msg (buf : Bytes) (v : Verdict) : Sealed ([.controlWork buf] ++ v.notes) :=
  (sealed_of_quiet fun _ hn ↦ notes_not_message hn).mpr (List.pairwise_singleton _ _)

theorem sealed_msgNotes (bufs : List Bytes) (n : ℕ) :
    Sealed (msgNotes E (handled E bufs n) n) ↔ followed E bufs n = false := by
  induction bufs generalizing n with
  | nil => exact ⟨fun _ ↦ rfl, fun _ ↦ List.Pairwise.nil⟩
  | cons buf bufs ih =>
    unfold handled followed
    by_cases hr : (verdict E buf n).removes = true
    · rw [if_pos hr, msgNotes_cons]
      refine ⟨fun _ ↦ by simp [hr], fun _ ↦ ?_⟩
      simpa [msgNotes] using sealed_msg buf (verdict E buf n)
    rw [if_neg hr, msgNotes_cons]
    cases bufs with
    | nil =>
      refine ⟨fun _ ↦ by simp [followed], fun _ ↦ ?_⟩
      simpa [handled, msgNotes] using sealed_msg buf (verdict E buf n)
    | cons b bs =>
      have hmsg : ∃ m ∈ msgNotes E (handled E (b :: bs) (nextTick buf n)) (nextTick buf n),
          isMessage m = true := by
        refine ⟨.controlWork b, ?_, rfl⟩
        unfold handled
        split_ifs <;> simp [msgNotes]
      rw [sealed_append hmsg, ih]
      have hopen : ([Note.controlWork buf] ++ (verdict E buf n).notes).any opens =
          Verdict.opens (verdict E buf n) := by
        rw [List.any_append, notes_any_opens]
        rfl
      rw [hopen, and_iff_right (sealed_msg buf (verdict E buf n))]
      simp [hr, and_comm]

theorem startClient_ps (c : ProxyClient) (ps : ProxyService) (n : ℕ) :
    (startClient E c ps n).ps = c.ps := by
  obtain ⟨enc, dec, hinit⟩ := initCrypto_eq (E := E) c ps n
  unfold startClient
  split_ifs
  · rfl
  · rcases localConnection E ps n with _ | _ | b
    · dsimp only
      rw [hinit]
    · dsimp only
      rw [hinit]
      rfl
    · dsimp only
      rw [hinit]
      unfold setupProxyCallbacks
      split_ifs <;> rfl

theorem acceptClient_ps (c : ProxyClient) (ps : ProxyService) (rest : Bytes) (n : ℕ) :
    (acceptClient E c ps rest n).ps = some ps := by
  unfold acceptClient
  dsimp only
  by_cases hx : ps.proxyType = .xtcp
  · rw [if_pos hx]
  rw [if_neg hx]
  by_cases hm : amiss E ps n = some .localConnect
  · rw [if_pos hm]
    exact startClient_ps _ ps n
  · rw [if_neg hm]
    exact startClient_ps _ ps n

theorem msgClient_tunnel {bufs : List Bytes} {n : ℕ} {c : ProxyClient}
    (h : followed E bufs n = false) (hc : c.ps.any isTunnel = false) :
    (msgNotes E (handled E bufs n) n).any opens =
      (msgClient E (handled E bufs n) n c).ps.any isTunnel := by
  induction bufs generalizing n c with
  | nil => exact hc.symm
  | cons buf bufs ih =>
    unfold handled
    unfold followed at h
    have hps : Verdict.opens (verdict E buf n) = false →
        ((verdict E buf n).client E c (tailOf buf) n).ps.any isTunnel = false := by
      intro ho
      cases hv : verdict E buf n with
      | other => exact hc
      | refused why => exact hc
      | accepted ps why =>
        rw [hv] at ho
        dsimp only [Verdict.client]
        rw [acceptClient_ps]
        exact ho
    have hyes : Verdict.opens (verdict E buf n) = true →
        ((verdict E buf n).client E c (tailOf buf) n).ps.any isTunnel = true := by
      intro ho
      cases hv : verdict E buf n with
      | other => rw [hv] at ho; cases ho
      | refused why => rw [hv] at ho; cases ho
      | accepted ps why =>
        rw [hv] at ho
        dsimp only [Verdict.client]
        rw [acceptClient_ps]
        exact ho
    by_cases hr : (verdict E buf n).removes = true
    · rw [if_pos hr, msgNotes_cons]
      simp only [List.any_append, notes_any_opens, msgClient, msgNotes, List.any_nil, List.any_cons,
        opens, Bool.false_or, Bool.or_false]
      cases ho : Verdict.opens (verdict E buf n) with
      | true => rw [hyes ho]
      | false => rw [hps ho]
    · rw [if_neg hr, msgNotes_cons]
      have hr' : (verdict E buf n).removes = false := by simpa using hr
      simp only [hr', Bool.not_false, Bool.true_and, Bool.or_eq_false_iff] at h
      simp only [List.any_append, notes_any_opens, msgClient, List.any_nil, List.any_cons, opens,
        Bool.false_or]
      cases ho : Verdict.opens (verdict E buf n) with
      | false =>
        rw [Bool.false_or]
        exact ih h.2 (hps ho)
      | true =>
        have hnil : bufs = [] := by simpa [ho] using h.1
        rw [hnil]
        simp only [handled, msgClient, Bool.true_or]
        rw [hyes ho]

theorem delivery_sealed {log notes stales : List Note} {payload : Bytes} {bufs : List Bytes} {n : ℕ}
    (hlog : Sealed log) (hst : Trace stales)
    (hnotes : notes = log ++ .frpsMsg payload :: msgNotes E (handled E bufs n) n ++ stales) :
    Sealed notes ↔ log.any opens = false ∧ followed E bufs n = false := by
  rw [hnotes, sealed_of_quiet fun n hn ↦ (hst.quiet n hn).2,
    sealed_append ⟨_, List.mem_cons_self, rfl⟩]
  have hmsg : Sealed (.frpsMsg payload :: msgNotes E (handled E bufs n) n) ↔
      followed E bufs n = false := by
    rw [← sealed_msgNotes]
    unfold Sealed
    rw [List.pairwise_cons]
    refine and_iff_right_of_imp fun _ b _ hopen ↦ ?_
    cases hopen
  rw [hmsg]
  simp [hlog, and_comm]

theorem delivery_opens {log notes stales : List Note} {payload : Bytes} {bufs : List Bytes} {n : ℕ}
    {c : ProxyClient} (hst : Trace stales)
    (hnotes : notes = log ++ .frpsMsg payload :: msgNotes E (handled E bufs n) n ++ stales)
    (hopen : log.any opens = false) (hf : followed E bufs n = false)
    (hc : c.ps.any isTunnel = false) :
    notes.any opens = (msgClient E (handled E bufs n) n c).ps.any isTunnel := by
  have hquiet : stales.any opens = false := by
    rw [List.any_eq_false]
    intro n hn
    rw [(hst.quiet n hn).1]
    decide
  rw [hnotes, ← msgClient_tunnel hf hc]
  simp [hopen, hquiet, opens]

/-- The data frames that put tunnel bytes before the handlers of messages. -/
def exposes (E : Env) (t : Conn) : Event → Bool
  | .data flags payload _ =>
    reachesHandler t flags payload &&
      (t.client.ps.any isTunnel || followed E (messages E t.life.stream payload) t.tick)
  | _ => false

theorem step_data_handled {t : Conn} {flags : ℕ} {payload : Bytes}
    (h : reachesHandler t flags payload = true) (replies : List Bytes) :
    ∃ stales, Trace stales ∧
      (step E t (.data flags payload replies)).log = t.log ++ .frpsMsg payload ::
        msgNotes E (handled E (messages E t.life.stream payload) t.tick) t.tick ++ stales ∧
      (step E t (.data flags payload replies)).client =
        msgClient E (handled E (messages E t.life.stream payload) t.tick) t.tick t.client := by
  obtain ⟨ha, hne, st, -, hstep⟩ := step_data_messages (E := E) h replies
  obtain ⟨stales, hst, hlog, hclient⟩ := handleFrpsMsg_handled (E := E)
    (t := t.setStream (admitted t.life.stream st payload.length)) ha hne
  have hmsgs : messages E (t.setStream (admitted t.life.stream st payload.length)).life.stream
      payload = messages E t.life.stream payload := messages_of_admitted _ _ _ _
  rw [hmsgs] at hlog hclient
  rw [hstep]
  unfold Conn.touch
  split_ifs
  · exact ⟨stales, hst, hlog, hclient⟩
  · refine ⟨stales ++ [.stale .settle], ?_, ?_, hclient⟩
    · intro n hn
      rcases List.mem_append.mp hn with hn | hn
      · exact hst n hn
      · exact ⟨.settle, List.mem_singleton.mp hn⟩
    · simp only [Conn.note, hlog, List.append_assoc]
      rfl

theorem dispatch_ps {t : Conn} (h : t.owner = .control ∨ takesMessages t.client = false)
    (payload : Bytes) (replies : List Bytes) :
    (dispatch E t payload replies).1.client.ps = t.client.ps := by
  by_cases ho : t.owner = .control
  · rw [dispatch_control ho, foldl_write]
  · rw [dispatch_client ho]
    have hm := h.resolve_left ho
    exact congrArg (fun p ↦ p.1) (dispatchClient_forwarded (E := E) hm payload).client.upstream

theorem onConnected_ps (t : Conn) (w : Which) (b : LocalBev) :
    (onConnected E t w b).client.ps = t.client.ps := by
  unfold onConnected handlePostConnectionData
  split_ifs
  · obtain ⟨bev, buf, hest⟩ :=
      socks5Established_eq (t.client.setBev { b with connecting := false } w)
    simp [hest]
  · obtain ⟨bev, ctx, tail, hsend⟩ :=
      sendClientDataTail_eq (E := E) (t.client.setBev { b with connecting := false } w)
    simp [hsend]
  · rfl

theorem onReadable_ps {t : Conn} (h : t.life.stream.state ≠ .init) (w : Which) (d : Bytes)
    (b : LocalBev) : (onReadable E t w d b).client.ps = t.client.ps := by
  unfold onReadable readCb
  split_ifs with hd hstub
  · simp
  · obtain ⟨l, -, hcb⟩ := tcpProxyC2sCb_spec (E := E) (b := { b with input := b.input ++ d }) h w
      (List.append_ne_nil_of_right_ne_nil _ hd.2.2) rfl
    obtain ⟨bev, orphans, ctx, pend, hdone⟩ := parked_eq (E := E) t.client w
      { b with input := b.input ++ d } [] b.evRead
    rw [hcb]
    cases writeEnd t.life.stream _ with
    | done =>
      dsimp only
      rw [hdone]
    | blocked =>
      obtain ⟨bev, orphans, ctx, pend, hblocked⟩ := parked_eq (E := E) t.client w
        { b with input := b.input ++ d } _ false
      dsimp only
      rw [hblocked]
    | failed => rfl
  · rfl

theorem onClosed_ps (t : Conn) (w : Which) (d : Bytes) (b : LocalBev) :
    (onClosed t w d b).client.ps = t.client.ps := by
  unfold onClosed handleProxyDisconnect
  dsimp only
  split_ifs <;> simp

theorem incrSendWindow_ps (t : Conn) (flags increment : ℕ) :
    (incrSendWindow t flags increment).client.ps = t.client.ps := by
  unfold incrSendWindow
  cases creditSendWindow flags increment t.life.stream with
  | error s => rfl
  | freed s => rfl
  | credited old s =>
    dsimp only
    split_ifs <;> rfl

theorem step_ps {t : Conn} (h : t.life.stream.state ≠ .init) {e : Event}
    (hno : ∀ flags payload replies, e = .data flags payload replies →
      reachesHandler t flags payload = false) : (step E t e).client.ps = t.client.ps := by
  cases e with
  | data flags payload replies =>
    have hreach := hno flags payload replies rfl
    simp only [step]
    split_ifs with hd
    · obtain ⟨-, hp⟩ | ⟨-, -, st, -, hp⟩ | ⟨hr, hf, st, -, ⟨-, hp⟩ | ⟨hw, t₁, ht₁, hp⟩⟩ :=
        processData_cases (E := E) t flags payload replies
      · rw [hp]
      · rw [hp]
      · rw [hp]
        rfl
      · have hclient : t₁.client = t.client := by rw [ht₁]; rfl
        have howner : t₁.owner = t.owner := by rw [ht₁]; rfl
        have htakes : t₁.owner = .control ∨ takesMessages t₁.client = false := by
          rw [howner, hclient]
          cases ho : t.owner with
          | control => exact .inl rfl
          | client =>
            refine .inr ?_
            simpa [reachesHandler, hd.1, hd.2.1, hd.2.2, hr, hf, hw, ho] using hreach
        have hdisp := dispatch_ps (E := E) htakes payload replies
        rw [hclient] at hdisp
        rw [hp, ← hdisp]
        unfold Conn.touch
        dsimp only
        split_ifs <;> rfl
    · rfl
  | windowUpdate flags increment =>
    simp only [step]
    split_ifs
    · exact incrSendWindow_ps t flags increment
    · rfl
  | send src =>
    simp only [step]
    split_ifs <;> rfl
  | connected w =>
    exact withBev_ind (P := fun t' ↦ t'.client.ps = t.client.ps) rfl fun b _ _ ↦
      onConnected_ps t w b
  | readable w d =>
    exact withBev_ind (P := fun t' ↦ t'.client.ps = t.client.ps) rfl fun b _ _ ↦
      onReadable_ps h w d b
  | closed w d =>
    exact withBev_ind (P := fun t' ↦ t'.client.ps = t.client.ps) rfl fun b _ _ ↦
      onClosed_ps t w d b

structure Tracked (t : Conn) : Prop where
  opened : t.life.stream.state ≠ .init
  tunnel : t.log.any opens = t.client.ps.any isTunnel

theorem step_delivery {t : Conn} (h : t.life.stream.state ≠ .init) (e : Event) :
    (∃ flags payload replies, e = .data flags payload replies ∧
      reachesHandler t flags payload = true) ∨
    (exposes E t e = false ∧ (step E t e).log = t.log ∧ (step E t e).client.ps = t.client.ps) := by
  by_cases hreach : ∃ flags payload replies, e = .data flags payload replies ∧
      reachesHandler t flags payload = true
  · exact .inl hreach
  have hno : ∀ flags payload replies, e = .data flags payload replies →
      reachesHandler t flags payload = false := by
    intro flags payload replies he
    by_contra hr
    exact hreach ⟨flags, payload, replies, he, by simpa using hr⟩
  refine .inr ⟨?_, ?_, step_ps h hno⟩
  · cases e with
    | data flags payload replies => simp [exposes, hno flags payload replies rfl]
    | _ => rfl
  · cases e with
    | data flags payload replies => exact step_data_log (hno flags payload replies rfl) replies
    | _ => exact step_log (by intro _ _ _ h; cases h)

theorem step_sealed {t : Conn} (hs : Sealed t.log) (ht : Tracked t) (e : Event) :
    Sealed (step E t e).log ↔ exposes E t e = false := by
  obtain ⟨flags, payload, replies, rfl, hr⟩ | ⟨hex, hlog, -⟩ :=
    step_delivery (E := E) ht.opened e
  · obtain ⟨stales, hst, hlog, -⟩ := step_data_handled (E := E) hr replies
    rw [delivery_sealed hs hst hlog, ht.tunnel]
    simp [exposes, hr]
  · rw [hlog]
    exact ⟨fun _ ↦ hex, fun _ ↦ hs⟩

theorem step_tracked {t : Conn} (hs : Sealed t.log) {e : Event} (hs' : Sealed (step E t e).log)
    (ht : Tracked t) : Tracked (step E t e) := by
  refine ⟨step_opened ht.opened e, ?_⟩
  obtain ⟨flags, payload, replies, rfl, hr⟩ | ⟨-, hlog, hps⟩ :=
    step_delivery (E := E) ht.opened e
  · obtain ⟨stales, hst, hlog, hclient⟩ := step_data_handled (E := E) hr replies
    obtain ⟨hopen, hf⟩ := (delivery_sealed hs hst hlog).mp hs'
    rw [hclient]
    exact delivery_opens hst hlog hopen hf (ht.tunnel.symm.trans hopen)
  · rw [hlog, hps]
    exact ht.tunnel

/-- The same for a client with a work connection of its own. -/
def exposesDirect (E : Env) (t : Direct.Work) : Direct.Event → Bool
  | .work d =>
    t.conn.life.alive && t.ctlBev && decide (d ≠ []) && decide (t.client.workCb = .start) &&
      (t.client.ps.any isTunnel ||
        followed (Direct.direct E) (messages (Direct.direct E) t.conn.life.stream (t.input ++ d))
          t.conn.tick)
  | _ => false

def Delivers (t : Direct.Work) (d : Bytes) : Prop :=
  t.conn.life.alive = true ∧ t.ctlBev = true ∧ d ≠ [] ∧ t.client.workCb = .start

theorem direct_handled {t : Direct.Work} {d : Bytes} (h : Delivers t d) :
    ∃ stales, Trace stales ∧
      (Direct.step E t (.work d)).conn.log = t.conn.log ++ .frpsMsg (t.input ++ d) ::
        msgNotes (Direct.direct E) (handled (Direct.direct E)
          (messages (Direct.direct E) t.conn.life.stream (t.input ++ d)) t.conn.tick)
          t.conn.tick ++ stales ∧
      (Direct.step E t (.work d)).client = msgClient (Direct.direct E) (handled (Direct.direct E)
        (messages (Direct.direct E) t.conn.life.stream (t.input ++ d)) t.conn.tick)
        t.conn.tick t.client := by
  obtain ⟨ha, hc, hd, hcb⟩ := h
  have hcb' : ({ t with input := t.input ++ d } : Direct.Work).client.workCb = .start := hcb
  obtain ⟨stales, hst, hlog, hclient⟩ := handleFrpsMsg_handled (E := Direct.direct E)
    (t := t.conn) ha (List.append_ne_nil_of_right_ne_nil t.input hd)
  have hstep : Direct.step E t (.work d) = Direct.handleNonMux E { t with input := t.input ++ d } := by
    rw [Direct.step, if_neg (by simp [ha]), if_pos ⟨hc, hd⟩, Direct.workReadCb, hcb']
  rw [hstep]
  exact ⟨stales, hst, hlog, hclient⟩

/-- Neither the log nor the service of the client changes. -/
def Silent (t t' : Direct.Work) : Prop :=
  t'.conn.log = t.conn.log ∧ t'.client.ps = t.client.ps

theorem silent_refl (t : Direct.Work) : Silent t t := ⟨rfl, rfl⟩

section Silent

variable {t : Direct.Work}

theorem tcpProxyS2cCb_silent : Silent t (Direct.tcpProxyS2cCb E t) := by
  obtain ⟨ctx, hdec⟩ := decode_eq (E := E) t.client t.input
  unfold Direct.tcpProxyS2cCb
  dsimp only
  split_ifs
  · exact silent_refl t
  · have hps : (proxyCryptoDecodeEvbuffer E t.client t.input).1.ps = t.client.ps := by
      rw [hdec]
    exact ⟨rfl, hps⟩
  · exact ⟨rfl, rfl⟩

theorem workReadCb_silent (h : t.client.workCb ≠ .start) : Silent t (Direct.workReadCb E t) := by
  unfold Direct.workReadCb
  cases hcb : t.client.workCb with
  | start => exact absurd hcb h
  | tcp => exact tcpProxyS2cCb_silent
  | udp => exact silent_refl t

theorem workEventCb_silent : Silent t (Direct.workEventCb t) := by
  unfold Direct.workEventCb
  split <;> exact ⟨rfl, rfl⟩

theorem onConnected_silent (w : Which) (b : LocalBev) : Silent t (Direct.onConnected E t w b) := by
  unfold Direct.onConnected Direct.handlePostConnectionData
  split_ifs
  · obtain ⟨bev, buf, hest⟩ :=
      socks5Established_eq (t.client.setBev { b with connecting := false } w)
    exact ⟨rfl, (congrArg ProxyClient.ps hest).trans (ProxyClient.setBev_ps _ _ w)⟩
  · obtain ⟨bev, ctx, tail, hsend⟩ :=
      sendClientDataTail_eq (E := E) (t.client.setBev { b with connecting := false } w)
    exact ⟨rfl, (congrArg ProxyClient.ps hsend).trans (ProxyClient.setBev_ps _ _ w)⟩
  · exact silent_refl t

theorem onReadable_silent (w : Which) (d : Bytes) (b : LocalBev) :
    Silent t (Direct.onReadable E t w d b) := by
  obtain ⟨ctx, henc⟩ := encode_eq (E := E) t.client (b.input ++ d)
  unfold Direct.onReadable Direct.tcpProxyC2sCb
  dsimp only
  split_ifs
  · exact ⟨rfl, ProxyClient.setBev_ps _ _ w⟩
  · exact ⟨rfl, ProxyClient.setBev_ps _ _ w⟩
  · rw [henc]
    exact ⟨rfl, ProxyClient.setBev_ps { t.client with encryptCtx := ctx } _ w⟩
  · exact ⟨rfl, ProxyClient.setBev_ps _ _ w⟩
  · exact silent_refl t

theorem onClosed_silent (w : Which) (d : Bytes) (b : LocalBev) :
    Silent t (Direct.onClosed t w d b) := by
  unfold Direct.onClosed Direct.handleProxyDisconnect
  dsimp only
  split_ifs
  · exact ⟨rfl, ProxyClient.setBev_ps _ _ w⟩
  · exact silent_refl t
  · exact ⟨rfl, ProxyClient.freeBev_ps _ w⟩
  · exact ⟨rfl, ProxyClient.freeBev_ps _ w⟩

theorem withBev_silent (w : Which) {f : LocalBev → Direct.Work} (hf : ∀ b, Silent t (f b)) :
    Silent t (t.withBev w f) :=
  Direct.withBev_ind (P := Silent t) (silent_refl t) fun b _ ↦ hf b

end Silent

/-- An event that brings no bytes to the handlers of messages is not exposing and goes
by in silence. -/
theorem direct_delivery (t : Direct.Work) (e : Direct.Event) :
    (∃ d, e = .work d ∧ Delivers t d) ∨
    (exposesDirect E t e = false ∧ Silent t (Direct.step E t e)) := by
  by_cases hdel : ∃ d, e = .work d ∧ Delivers t d
  · exact .inl hdel
  refine .inr ⟨?_, ?_⟩
  · cases e with
    | work d =>
      by_contra hex
      refine hdel ⟨d, rfl, ?_⟩
      simp only [exposesDirect, Bool.not_eq_false, Bool.and_eq_true, decide_eq_true_eq] at hex
      exact ⟨hex.1.1.1.1, hex.1.1.1.2, hex.1.1.2, hex.1.2⟩
    | _ => rfl
  unfold Direct.step
  by_cases hdead : t.conn.life.alive = false
  · rw [if_pos hdead]
    exact silent_refl t
  rw [if_neg hdead]
  have ha : t.conn.life.alive = true := by simpa using hdead
  cases e with
  | work d =>
    dsimp only
    split_ifs with hd
    · exact workReadCb_silent (t := { t with input := t.input ++ d })
        fun hcb ↦ hdel ⟨d, rfl, ha, hd.1, hd.2, hcb⟩
    · exact silent_refl t
  | workClosed d =>
    dsimp only
    split_ifs
    · exact workEventCb_silent (t := { t with input := t.input ++ d })
    · exact silent_refl t
  | connected w => exact withBev_silent w (onConnected_silent w)
  | readable w d => exact withBev_silent w (onReadable_silent w d)
  | closed w d => exact withBev_silent w (onClosed_silent w d)

theorem direct_sealed {t : Direct.Work} (hs : Sealed t.conn.log)
    (ht : t.conn.log.any opens = t.client.ps.any isTunnel) (e : Direct.Event) :
    Sealed (Direct.step E t e).conn.log ↔ exposesDirect E t e = false := by
  obtain ⟨d, rfl, hd⟩ | ⟨hex, hlog, -⟩ := direct_delivery (E := E) t e
  · obtain ⟨stales, hst, hlog, -⟩ := direct_handled (E := E) hd
    rw [delivery_sealed hs hst hlog, ht]
    simp [exposesDirect, hd.1, hd.2.1, hd.2.2.1, hd.2.2.2]
  · rw [hlog]
    exact ⟨fun _ ↦ hex, fun _ ↦ hs⟩

theorem direct_tracked {t : Direct.Work} (hs : Sealed t.conn.log) {e : Direct.Event}
    (hs' : Sealed (Direct.step E t e).conn.log)
    (ht : t.conn.log.any opens = t.client.ps.any isTunnel) :
    (Direct.step E t e).conn.log.any opens = (Direct.step E t e).client.ps.any isTunnel := by
  obtain ⟨d, rfl, hd⟩ | ⟨-, hlog, hps⟩ := direct_delivery (E := E) t e
  · obtain ⟨stales, hst, hlog, hclient⟩ := direct_handled (E := E) hd
    obtain ⟨hopen, hf⟩ := (delivery_sealed hs hst hlog).mp hs'
    rw [hclient]
    exact delivery_opens hst hlog hopen hf (ht.symm.trans hopen)
  · rw [hlog, hps]
    exact ht

/-- Tunnel bytes never reach the handlers of messages, with `tcp_mux` and without,
exactly in the runs in which nothing exposes them. -/
theorem tunnel_bytes_separate_iff (id : ℕ) (msg : Bytes) :
    (∀ events, Always (step E) (fun t ↦ Sealed t.log) (.start .client id msg) events ↔
      Along (step E) (fun t e ↦ exposes E t e = false) (.start .client id msg) events) ∧
    ∀ events, Always (Direct.step E) (fun t ↦ Sealed t.conn.log) (.start id msg) events ↔
      Along (Direct.step E) (fun t e ↦ exposesDirect E t e = false) (.start id msg) events := by
  constructor
  · intro events
    exact always_iff_along_of (P := fun t ↦ Sealed t.log) (Q := Tracked)
      (fun _ _ hs hs' ht ↦ step_tracked hs hs' ht) (fun _ e hs ht ↦ step_sealed hs ht e)
      (show Sealed [] from List.Pairwise.nil) ⟨(start_resetQuiet .client id msg).opened, rfl⟩
  · intro events
    exact always_iff_along_of (P := fun t : Direct.Work ↦ Sealed t.conn.log)
      (Q := fun t : Direct.Work ↦ t.conn.log.any opens = t.client.ps.any isTunnel)
      (fun _ _ hs hs' ht ↦ direct_tracked hs hs' ht) (fun _ e hs ht ↦ direct_sealed hs ht e)
      (show Sealed [] from List.Pairwise.nil) rfl

/-- The local service closes, and the server sends more of the visitor's bytes. -/
def dataAfterClose : List Event :=
  [startFrame, .connected .current, .closed .current [], .data 0 [0x73] []]

theorem visitor_bytes_exposed :
    ¬ Always (step (sampleEnv samplePs true)) (fun t ↦ Sealed t.log) (.start .client 3 [])
      dataAfterClose := by
  decide

end Xfrpc.Tunnel.Separation
