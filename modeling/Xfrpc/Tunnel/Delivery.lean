import Xfrpc.Tunnel.Inbound

namespace Xfrpc.Tunnel.Delivery

open Client Closing Control.Message Foundations.Runs Inbound Lifetime Mux.Stream Service StartWork Tcp

variable {E : Env}

def cameIn (E : Env) (t : Conn) (came : Bytes) : Event → Bytes
  | .data flags payload _ =>
    if admits t flags payload then
      if t.client.localProxyBev.isSome then came ++ payload
      else cameWith E t.life.stream payload t.tick came
    else came
  | _ => came

/-- A stream, and what the server has sent for its tunnel. The code does not keep
`came`. -/
structure Inflow where
  conn : Conn
  came : Bytes
  deriving DecidableEq, Repr

def Inflow.step (E : Env) (f : Inflow) (e : Event) : Inflow :=
  ⟨Client.step E f.conn e, cameIn E f.conn f.came e⟩

def Inflow.start (id : ℕ) (msg : Bytes) : Inflow := ⟨.start .client id msg, []⟩

/-- The events of a stream after which the local service has what it should. -/
def keepsOrder (E : Env) (t : Conn) : Event → Bool
  | .data flags payload _ => !admits t flags payload ||
    match t.client.localProxyBev with
    | some b => inTurn t.client b && !ivSplit t.client payload
    | none => opensWell E t.client t.life.stream payload t.tick
  | .connected w => (t.client.bevAt w).all fun b ↦ !b.connecting || tailLong t.client
  | _ => true

structure Sound (E : Env) (f : Inflow) : Prop where
  owner : f.conn.owner = .client
  opened : f.conn.life.stream.state ≠ .init
  course : f.conn.life.alive = true → Course E f.conn.client f.came

theorem step_data_course {t : Conn} {came : Bytes} {flags : ℕ} {payload : Bytes}
    {replies : List Bytes} (h : t.life.stream.state ≠ .init) (ho : t.owner = .client)
    (hcourse : Course E t.client came)
    (hc : keepsOrder E t (.data flags payload replies) = true) :
    (step E t (.data flags payload replies)).owner = .client ∧
      ((step E t (.data flags payload replies)).life.alive = true →
        Course E (step E t (.data flags payload replies)).client
          (cameIn E t came (.data flags payload replies))) := by
  have hserved : t.client.localProxyBev.isNone = false → t.client.ps.isSome = true := by
    intro hb
    obtain ⟨b, hb⟩ := Option.isSome_iff_exists.mp (by simpa using hb)
    obtain ⟨ps, hps, -⟩ := hcourse.served hb
    rw [hps]
    rfl
  obtain ⟨howner, -, hcases⟩ := step_data_cases (E := E) h ho (fun ps ↦ hcourse.tcp) hserved flags
    payload replies
  refine ⟨howner, fun halive ↦ ?_⟩
  simp only [keepsOrder] at hc
  simp only [cameIn]
  obtain ⟨hadm, hcl⟩ | ⟨hadm, hbev, hcl⟩ | ⟨hreach, hk, hcl⟩ | ⟨-, -, hgone⟩ := hcases
  · rw [hadm, hcl, if_neg (by simp)]
    exact hcourse
  · obtain ⟨b, hb⟩ := Option.isSome_iff_exists.mp (by simpa using hbev)
    rw [hadm, hb] at hc
    simp only [Bool.not_true, Bool.false_or, Bool.and_eq_true, Bool.not_eq_true'] at hc
    have hne : payload ≠ [] := by
      simp only [admits, Bool.and_eq_true, decide_eq_true_eq] at hadm
      exact hadm.1.1.1.1.1.2
    rw [if_pos hadm, if_pos (by rw [hb]; rfl), hcl]
    exact hcourse.delivered hb hne hc.1 hc.2
  · rw [reachesHandler_eq, takesMessages_tcp fun ps ↦ hcourse.tcp, Bool.and_eq_true] at hreach
    obtain ⟨hadm, hbev⟩ := hreach
    have hb : t.client.localProxyBev = none := Option.isNone_iff_eq_none.mp hbev
    rw [hadm, hb] at hc
    rw [if_pos hadm, if_neg (by simp [hb]), hcl]
    exact hcourse.messages hb hk (by simpa using hc)
  · rw [hgone] at halive
    cases halive

theorem parked_course {c : ProxyClient} {came : Bytes} {b : LocalBev} (h : Course E c came)
    (hb : c.localProxyBev = some b) (b₁ : LocalBev) (hout : b₁.output = b.output)
    (hconn : b₁.connecting = b.connecting) (rest : Bytes) (ev : Bool) :
    Course E (parked E c .current b₁ rest ev) came := by
  unfold parked
  obtain ⟨ctx, henc⟩ := encode_eq (E := E) c b₁.input
  split_ifs
  · rw [henc]
    exact h.upstream hb rfl hout hconn rfl
  · exact h.upstream hb rfl hout hconn rfl

theorem wake_course {c : ProxyClient} {came : Bytes} (h : Course E c came) :
    Course E (wake c) came := by
  cases hb : c.localProxyBev with
  | none =>
    have hsame : wake c = c := by
      rw [wake, hb, Option.map_none, ← hb]
    rw [hsame]
    exact h
  | some b =>
    have hwake : (wake c).localProxyBev = some { b with evRead := true } := by
      rw [wake, hb]
      rfl
    exact h.upstream hb hwake rfl rfl rfl

section Local

variable {t : Conn} {came : Bytes} (h : Course E t.client came)

include h

theorem onConnected_course {w : Which} (hc : keepsOrder E t (.connected w) = true) :
    Course E (t.withBev w (onConnected E t w)).client came := by
  refine withBev_ind (P := fun t ↦ Course E t.client came) h fun b _ hb ↦ ?_
  simp only [keepsOrder, hb, Option.all_some] at hc
  obtain ⟨rfl, hcur⟩ := h.bevAt hb
  obtain ⟨ps, hps, htcp⟩ := h.served hcur
  have h5 : isSocks5Proxy t.client.ps = false := by
    rw [hps]
    exact (isTcp_iff.mp htcp).2.1
  unfold Client.onConnected handlePostConnectionData
  by_cases hconn : b.connecting = true
  · rw [if_pos hconn, if_neg (by simp [h5])]
    exact h.connected hcur (by simpa [hconn] using hc)
  · rw [if_neg hconn]
    exact h

theorem onReadable_course (hopened : t.life.stream.state ≠ .init) (w : Which) (d : Bytes) :
    Course E (t.withBev w (onReadable E t w d)).client came := by
  refine withBev_ind (P := fun t ↦ Course E t.client came) h fun b _ hb ↦ ?_
  obtain ⟨rfl, hcur⟩ := h.bevAt hb
  unfold Client.onReadable readCb
  split_ifs with hd
  · exact h.upstream hcur rfl rfl rfl rfl
  · obtain ⟨l, -, hcb⟩ := tcpProxyC2sCb_spec (E := E) (b := { b with input := b.input ++ d })
      hopened .current (List.append_ne_nil_of_right_ne_nil _ hd.2.2) rfl
    rw [hcb]
    split
    · exact parked_course h hcur { b with input := b.input ++ d } rfl rfl _ _
    · exact parked_course h hcur { b with input := b.input ++ d } rfl rfl _ _
    · exact h
  · exact h

theorem onClosed_course (w : Which) (d : Bytes) :
    Course E (t.withBev w (onClosed t w d)).client came := by
  refine withBev_ind (P := fun t ↦ Course E t.client came) h fun b _ hb ↦ ?_
  obtain ⟨rfl, hcur⟩ := h.bevAt hb
  unfold Client.onClosed handleProxyDisconnect
  dsimp only
  split_ifs
  · unfold LocalBev.lastRead
    split_ifs <;> exact h.upstream hcur rfl rfl rfl rfl
  · exact h
  · exact h.freed true
  · exact h.freed t.client.pendingClose

end Local

/-- What happens at the local connection leaves the owner of the stream alone. -/
theorem step_local_owner {t : Conn} (hopened : t.life.stream.state ≠ .init) (w : Which)
    (d : Bytes) :
    (t.withBev w (onConnected E t w)).owner = t.owner ∧
      (t.withBev w (onReadable E t w d)).owner = t.owner ∧
      (t.withBev w (onClosed t w d)).owner = t.owner := by
  refine ⟨?_, ?_, ?_⟩
  · refine withBev_ind (P := fun t' ↦ t'.owner = t.owner) rfl fun b _ _ ↦ ?_
    unfold onConnected handlePostConnectionData
    dsimp only
    split_ifs <;> rfl
  · refine withBev_ind (P := fun t' ↦ t'.owner = t.owner) rfl fun b _ _ ↦ ?_
    unfold onReadable readCb
    split_ifs with hd
    · rfl
    · obtain ⟨l, -, hcb⟩ := tcpProxyC2sCb_spec (E := E) (b := { b with input := b.input ++ d })
        hopened w (List.append_ne_nil_of_right_ne_nil _ hd.2.2) rfl
      rw [hcb]
      split <;> rfl
    · rfl
  · refine withBev_ind (P := fun t' ↦ t'.owner = t.owner) rfl fun b _ _ ↦ ?_
    unfold onClosed handleProxyDisconnect
    dsimp only
    split_ifs <;> rfl

theorem step_sound {f : Inflow} {e : Event} (h : Sound E f) (hc : keepsOrder E f.conn e = true) :
    Sound E (f.step E e) := by
  by_cases ha : f.conn.life.alive = true
  swap
  · have hdead : f.conn.life.alive = false := by simpa using ha
    have hstep : (f.step E e).conn = f.conn := step_gone hdead h.owner e
    refine ⟨by rw [hstep]; exact h.owner, by rw [hstep]; exact h.opened, fun halive ↦ ?_⟩
    rw [hstep, hdead] at halive
    cases halive
  have hcourse := h.course ha
  have hopened : (f.step E e).conn.life.stream.state ≠ .init := step_opened h.opened e
  have howner := fun w d ↦ step_local_owner (E := E) h.opened w d
  cases e with
  | data flags payload replies =>
    obtain ⟨howner, hnext⟩ := step_data_course h.opened h.owner hcourse hc
    exact ⟨howner, hopened, hnext⟩
  | windowUpdate flags increment =>
    obtain ⟨howner, hcases⟩ := step_windowUpdate_cases (E := E) h.opened flags increment
    refine ⟨howner.trans h.owner, hopened, fun _ ↦ ?_⟩
    have hcl : (step E f.conn (.windowUpdate flags increment)).client = f.conn.client ∨
        (step E f.conn (.windowUpdate flags increment)).client = wake f.conn.client := by
      obtain ⟨-, hcl⟩ | ⟨-, hcl, -⟩ := hcases
      · exact hcl
      · exact .inl hcl
    show Course E (step E f.conn (.windowUpdate flags increment)).client f.came
    rcases hcl with hcl | hcl
    · rw [hcl]
      exact hcourse
    · rw [hcl]
      exact wake_course hcourse
  | send src =>
    have hstep : f.step E (.send src) = f := by simp [Inflow.step, step, cameIn, h.owner]
    rw [hstep]
    exact h
  | connected w =>
    exact ⟨(howner w []).1.trans h.owner, hopened, fun _ ↦ onConnected_course hcourse hc⟩
  | readable w d =>
    exact ⟨(howner w d).2.1.trans h.owner, hopened, fun _ ↦ onReadable_course hcourse h.opened w d⟩
  | closed w d =>
    exact ⟨(howner w d).2.2.trans h.owner, hopened, fun _ ↦ onClosed_course hcourse w d⟩

def cameOn (E : Env) (t : Direct.Work) (came : Bytes) : Direct.Event → Bytes
  | .work d =>
    if t.conn.life.alive && t.ctlBev && decide (d ≠ []) then
      match t.client.workCb with
      | .start => cameWith (Direct.direct E) t.conn.life.stream (t.input ++ d) t.conn.tick came
      | .tcp => came ++ d
      | .udp => came
    else came
  | .workClosed d =>
    if t.conn.life.alive && t.ctlBev && decide (t.client.workCb = .tcp) then came ++ d else came
  | _ => came

structure WorkInflow where
  work : Direct.Work
  came : Bytes
  deriving DecidableEq, Repr

def WorkInflow.step (E : Env) (f : WorkInflow) (e : Direct.Event) : WorkInflow :=
  ⟨Direct.step E f.work e, cameOn E f.work f.came e⟩

def WorkInflow.start (id : ℕ) (msg : Bytes) : WorkInflow := ⟨.start id msg, []⟩

/-- The events of a work connection after which the local service has what it
should. The bytes of its last pass are not handled. -/
def keepsWorkOrder (E : Env) (t : Direct.Work) : Direct.Event → Bool
  | .work d => !(t.ctlBev && decide (d ≠ [])) ||
    match t.client.workCb with
    | .start => opensWell (Direct.direct E) t.client t.conn.life.stream (t.input ++ d) t.conn.tick
    | .tcp => t.client.localProxyBev.all (inTurn t.client)
    | .udp => true
  | .workClosed d =>
    !(t.ctlBev && decide (t.client.workCb = .tcp)) || t.client.localProxyBev.isNone || decide (d = [])
  | .connected w => (t.client.bevAt w).all fun b ↦ !b.connecting || tailLong t.client
  | _ => true

/-- What has come for the tunnel, less the part of the IV that waits for the rest
of it. -/
structure Waits (E : Env) (t : Direct.Work) (came₀ rest : Bytes) : Prop where
  course : Course (Direct.direct E) t.client came₀
  callback : t.client.workCb = .start ∨ t.client.workCb = .tcp
  start : t.client.workCb = .start → Fresh t.client ∧ t.input = [] ∧ rest = []
  input : t.client.localProxyBev.isSome = true → t.ctlBev = true → t.input = rest
  short : t.client.localProxyBev.isSome = true → rest ≠ [] →
    came₀ = [] ∧ t.client.useEncryption = true ∧ rest.length < 16

theorem Waits.tunnel {t : Direct.Work} {came₀ rest : Bytes}
    (course : Course (Direct.direct E) t.client came₀) (htcp : t.client.workCb = .tcp)
    (input : t.client.localProxyBev.isSome = true → t.ctlBev = true → t.input = rest)
    (short : t.client.localProxyBev.isSome = true → rest ≠ [] →
      came₀ = [] ∧ t.client.useEncryption = true ∧ rest.length < 16) : Waits E t came₀ rest :=
  ⟨course, .inr htcp, fun hst ↦ absurd (htcp.symm.trans hst) (by decide), input, short⟩

theorem Waits.faithful {t : Direct.Work} {came₀ rest : Bytes} (h : Waits E t came₀ rest)
    (alive : Bool) : Faithful E alive t.client (came₀ ++ rest) := by
  intro ha ps hps b hb
  have hsome : t.client.localProxyBev.isSome = true := by
    rw [Option.mem_def.mp hb]
    rfl
  have hcourse : Faithful E alive t.client came₀ := h.course.faithful alive
  by_cases hrest : rest = []
  · rw [hrest, List.append_nil]
    exact hcourse ha ps hps b hb
  · obtain ⟨hnone, hue, hlen⟩ := h.short hsome hrest
    obtain ⟨ps', fed, hf, -⟩ := h.course.fed hb
    obtain rfl : ps' = ps := Option.some.inj (hf.served.symm.trans hps)
    have he : ps'.useEncryption = true := hf.useEncryption.symm.trans hue
    have hempty : decode E ps' rest = decode E ps' [] := by
      simp [decode, he, hlen]
    rw [hnone, List.nil_append, hempty]
    rw [hnone] at hcourse
    exact hcourse ha ps' hps b hb

theorem Waits.local {t t' : Direct.Work} {came₀ rest : Bytes} (h : Waits E t came₀ rest)
    (hcourse : Course (Direct.direct E) t'.client came₀) (hcb : t'.client.workCb = t.client.workCb)
    (hue : t'.client.useEncryption = t.client.useEncryption) (hin : t'.input = t.input)
    (hctl : t'.ctlBev = t.ctlBev) (hb : t.client.localProxyBev.isSome = true) :
    Waits E t' came₀ rest := by
  have htcp : t.client.workCb ≠ .start := by
    intro hst
    rw [(h.start hst).1.bev] at hb
    cases hb
  refine ⟨hcourse, by rw [hcb]; exact h.callback, fun hst ↦ absurd (hcb ▸ hst) htcp, fun _ ha ↦ ?_,
    fun _ hne ↦ ?_⟩
  · rw [hin]
    exact h.input hb (hctl.symm.trans ha)
  · rw [hue]
    exact h.short hb hne

theorem Waits.upstream {t t' : Direct.Work} {came₀ rest : Bytes} {b b₁ : LocalBev}
    (h : Waits E t came₀ rest) (hb : t.client.localProxyBev = some b)
    (hb₁ : t'.client.localProxyBev = some b₁) (hout : b₁.output = b.output)
    (hconn : b₁.connecting = b.connecting) (hd : downstream t'.client = downstream t.client)
    (hin : t'.input = t.input) (hctl : t'.ctlBev = t.ctlBev) : Waits E t' came₀ rest :=
  h.local (h.course.upstream hb hb₁ hout hconn hd) (congrArg (fun p ↦ p.2.2.2.2.2.2) hd)
    (congrArg (fun p ↦ p.2.2.1) hd) hin hctl (by rw [hb]; rfl)

theorem tcpProxyS2cCb_absent {t : Direct.Work} (h : t.client.localProxyBev.isSome = false) :
    Direct.tcpProxyS2cCb E t = t := by
  unfold Direct.tcpProxyS2cCb
  dsimp only
  rw [if_pos (.inl (by simpa using h))]

theorem tcpProxyS2cCb_fed {t : Direct.Work} {ps : ProxyService} {b : LocalBev} {fed : Bytes}
    (h : Fed (Direct.direct E) ps b fed t.client) (hne : t.input ≠ []) :
    Direct.tcpProxyS2cCb E t =
      if ivSplit t.client t.input then t
      else { t.setClient (Tcp.delivered (Direct.direct E) t.client t.input) with input := [] } := by
  have hE : proxyCryptoDecodeEvbuffer (Direct.direct E) = proxyCryptoDecodeEvbuffer E := rfl
  unfold Direct.tcpProxyS2cCb Tcp.delivered
  dsimp only
  rw [if_neg (by simp [h.bev, hne]), hE]
  cases hsplit : ivSplit t.client t.input with
  | true =>
    obtain ⟨hdec, he, -⟩ := h.decode_split hne hsplit
    rw [hE] at hdec
    have hue : t.client.useEncryption = true := h.useEncryption.trans he
    rw [hdec, hue, queue_nil]
    rfl
  | false =>
    obtain ⟨ctx, plain, hdec, -⟩ := h.decode hne hsplit
    rw [hE] at hdec
    rw [hdec]
    simp only [Bool.false_eq_true, if_false]
    split_ifs <;> rfl

theorem Waits.started {t : Direct.Work} {came₀ rest d : Bytes} (h : Waits E t came₀ rest)
    (ha : t.conn.life.alive = true) (hd : d ≠ []) (hcb : t.client.workCb = .start)
    (hw : opensWell (Direct.direct E) t.client t.conn.life.stream (t.input ++ d) t.conn.tick = true)
    (halive : (Direct.handleNonMux E { t with input := t.input ++ d }).conn.life.alive = true) :
    Waits E (Direct.handleNonMux E { t with input := t.input ++ d })
      (cameWith (Direct.direct E) t.conn.life.stream (t.input ++ d) t.conn.tick (came₀ ++ rest))
      [] := by
  obtain ⟨hfresh, -, hrest⟩ := h.start hcb
  have hne : t.input ++ d ≠ [] := List.append_ne_nil_of_right_ne_nil _ hd
  by_cases hk : Kept (Direct.direct E)
      (messages (Direct.direct E) t.conn.life.stream (t.input ++ d)) t.conn.tick
  · obtain ⟨seen, rx, hmsg⟩ := handleFrpsMsg_kept (E := Direct.direct E) ha hne hk
    have hclient : (Direct.handleNonMux E { t with input := t.input ++ d }).client =
        msgClient (Direct.direct E) (messages (Direct.direct E) t.conn.life.stream (t.input ++ d))
          t.conn.tick t.client := by
      show (handleFrpsMsg (Direct.direct E) t.conn (t.input ++ d)).client = _
      rw [hmsg]
      rfl
    have hnext := h.course.messages hfresh.bev hk hw
    have hopens : opensOnce (Direct.direct E) false (verdicts (Direct.direct E)
        (messages (Direct.direct E) t.conn.life.stream (t.input ++ d)) t.conn.tick) = true := by
      have hbegun : begun t.client = false := by simp [begun, hfresh.bev, hfresh.ended]
      rw [← hbegun]
      exact (Bool.and_eq_true _ _ ▸ hw).1
    rw [hrest, List.append_nil]
    rw [← hclient] at hnext
    obtain ⟨-, hfresh', hcb'⟩ | ⟨ps, tail, k, -, -, -, hop⟩ := msgClient_fresh hfresh hopens hk
    · rw [← hclient] at hfresh' hcb'
      exact ⟨hnext, .inl (hcb'.trans hcb), fun _ ↦ ⟨hfresh', rfl, rfl⟩, fun _ _ ↦ rfl,
        fun _ hno ↦ absurd rfl hno⟩
    · rw [← hclient] at hop
      exact .tunnel hnext (hop.workCb rfl) (fun _ _ ↦ rfl) fun _ hno ↦ absurd rfl hno
  · obtain ⟨⟨seen, rx, hdead⟩, -⟩ := handleFrpsMsg_removed (E := Direct.direct E) ha hne hk
    have hgone : (handleFrpsMsg (Direct.direct E) t.conn (t.input ++ d)).life.alive = true := halive
    rw [hdead] at hgone
    cases hgone

theorem Waits.carried {t : Direct.Work} {came₀ rest d : Bytes} (h : Waits E t came₀ rest)
    (hctl : t.ctlBev = true) (hd : d ≠ []) (hcb : t.client.workCb = .tcp)
    (hturn : t.client.localProxyBev.all (inTurn t.client) = true) :
    ∃ came₁ rest₁, came₀ ++ rest ++ d = came₁ ++ rest₁ ∧
      Waits E (Direct.tcpProxyS2cCb E { t with input := t.input ++ d }) came₁ rest₁ := by
  cases hbev : t.client.localProxyBev with
  | none =>
    have hsome : t.client.localProxyBev.isSome = false := by rw [hbev]; rfl
    refine ⟨came₀, rest ++ d, List.append_assoc _ _ _, ?_⟩
    rw [tcpProxyS2cCb_absent (t := { t with input := t.input ++ d }) hsome]
    refine .tunnel h.course hcb (fun hno ↦ ?_) fun hno ↦ ?_
    · exact absurd (hsome.symm.trans hno) (by decide)
    · exact absurd (hsome.symm.trans hno) (by decide)
  | some b =>
    have hsome : t.client.localProxyBev.isSome = true := by rw [hbev]; rfl
    have hin := h.input hsome hctl
    have hturn' : inTurn t.client b = true := by
      rw [hbev] at hturn
      exact hturn
    obtain ⟨ps, fed, hf, htail, hall⟩ := h.course.fed hbev
    have hne : rest ++ d ≠ [] := List.append_ne_nil_of_right_ne_nil _ hd
    have hstep : Direct.tcpProxyS2cCb E { t with input := rest ++ d } =
        if ivSplit t.client (rest ++ d) then { t with input := rest ++ d }
        else { t.setClient (Tcp.delivered (Direct.direct E) t.client (rest ++ d)) with input := [] } :=
      tcpProxyS2cCb_fed (E := E) (t := { t with input := rest ++ d }) hf hne
    rw [hin, hstep]
    cases hsplit : ivSplit t.client (rest ++ d) with
    | true =>
      obtain ⟨-, he, hfed, hlen⟩ := hf.decode_split hne hsplit
      have hnil : t.client.dataTail = [] := by
        by_contra hno
        simp [inTurn, (htail hno).1, hno] at hturn'
      have hnone : came₀ = [] := by rw [hall, hfed, hnil]; rfl
      refine ⟨came₀, rest ++ d, List.append_assoc _ _ _, ?_⟩
      rw [if_pos rfl]
      exact .tunnel h.course hcb (fun _ _ ↦ rfl)
        fun _ _ ↦ ⟨hnone, hf.useEncryption.trans he, hlen⟩
    | false =>
      refine ⟨came₀ ++ (rest ++ d), [], by simp, ?_⟩
      rw [if_neg (by simp)]
      have hnext := h.course.delivered hbev hne hturn' hsplit
      obtain ⟨ctx, out, hq⟩ := delivered_queue (E := Direct.direct E) t.client (rest ++ d)
      have hcb' : (Tcp.delivered (Direct.direct E) t.client (rest ++ d)).workCb = .tcp := by
        rw [hq]
        exact hcb
      exact .tunnel hnext hcb' (fun _ _ ↦ rfl) fun _ hno ↦ absurd rfl hno

def WorkSound (E : Env) (f : WorkInflow) : Prop :=
  f.work.conn.life.alive = true → ∃ came₀ rest, f.came = came₀ ++ rest ∧ Waits E f.work came₀ rest

/-- The server has closed the work connection: its last bytes go with the buffer. -/
theorem Waits.workClosed {t : Direct.Work} {came₀ rest d : Bytes} (h : Waits E t came₀ rest)
    (hctl : t.ctlBev = true) (hcb : t.client.workCb = .tcp)
    (hc : keepsWorkOrder E t (.workClosed d) = true) :
    Waits E { t with input := [], ctlBev := false } came₀ (rest ++ d) := by
  refine .tunnel h.course hcb (fun _ hno ↦ by cases hno) fun hsome hne ↦ ?_
  have hd : d = [] := by
    have hsome' : t.client.localProxyBev.isSome = true := hsome
    simpa [keepsWorkOrder, hctl, hcb, Option.isSome_iff_ne_none.mp hsome'] using hc
  rw [hd, List.append_nil] at hne
  rw [hd, List.append_nil]
  exact h.short hsome hne

theorem Waits.onConnected {t : Direct.Work} {came₀ rest : Bytes} (h : Waits E t came₀ rest)
    {w : Which} (hc : keepsWorkOrder E t (.connected w) = true) :
    Waits E (t.withBev w (Direct.onConnected E t w)) came₀ rest := by
  refine Direct.withBev_ind (P := fun t ↦ Waits E t came₀ rest) h fun b hb ↦ ?_
  rw [keepsWorkOrder, hb, Option.all_some] at hc
  obtain ⟨rfl, hcur⟩ := h.course.bevAt hb
  obtain ⟨ps, hps, htcp⟩ := h.course.served hcur
  have h5 : isSocks5Proxy t.client.ps = false := by
    rw [hps]
    exact (isTcp_iff.mp htcp).2.1
  unfold Direct.onConnected Direct.handlePostConnectionData
  by_cases hconn : b.connecting = true
  · rw [if_pos hconn, if_neg (by simpa [Direct.Work.client, Direct.Work.setClient] using h5)]
    have hlong : tailLong t.client = true := by simpa [hconn] using hc
    have hnext := h.course.connected hcur hlong
    obtain ⟨ctx, tail, out, hq⟩ := sendClientDataTail_queue (E := E)
      (t.client.setBev { b with connecting := false } .current)
    refine h.local hnext ?_ ?_ rfl rfl (by rw [hcur]; rfl)
    · exact (congrArg ProxyClient.workCb hq).trans rfl
    · exact (congrArg ProxyClient.useEncryption hq).trans rfl
  · rw [if_neg hconn]
    exact h

theorem Waits.onReadable {t : Direct.Work} {came₀ rest : Bytes} (h : Waits E t came₀ rest)
    (w : Which) (d : Bytes) : Waits E (t.withBev w (Direct.onReadable E t w d)) came₀ rest := by
  refine Direct.withBev_ind (P := fun t ↦ Waits E t came₀ rest) h fun b hb ↦ ?_
  obtain ⟨rfl, hcur⟩ := h.course.bevAt hb
  obtain ⟨ctx, henc⟩ := encode_eq (E := E) t.client (b.input ++ d)
  unfold Direct.onReadable Direct.tcpProxyC2sCb
  dsimp only
  split_ifs
  · exact h.upstream hcur rfl rfl rfl rfl rfl rfl
  · exact h.upstream hcur rfl rfl rfl rfl rfl rfl
  · rw [henc]
    exact h.upstream hcur rfl rfl rfl rfl rfl rfl
  · exact h.upstream hcur rfl rfl rfl rfl rfl rfl
  · exact h

theorem Waits.onClosed {t : Direct.Work} {came₀ rest : Bytes} (h : Waits E t came₀ rest)
    (w : Which) (d : Bytes) : Waits E (t.withBev w (Direct.onClosed t w d)) came₀ rest := by
  refine Direct.withBev_ind (P := fun t ↦ Waits E t came₀ rest) h fun b hb ↦ ?_
  obtain ⟨rfl, hcur⟩ := h.course.bevAt hb
  have hsome : t.client.localProxyBev.isSome = true := by rw [hcur]; rfl
  unfold Direct.onClosed Direct.handleProxyDisconnect
  dsimp only
  split_ifs
  · unfold LocalBev.lastRead
    split_ifs
    · exact h.upstream hcur rfl rfl rfl rfl rfl rfl
    · exact h.upstream hcur rfl rfl rfl rfl rfl rfl
  · exact h
  · exact h.local (h.course.freed true) rfl rfl rfl rfl hsome
  · exact h.local (h.course.freed t.client.pendingClose) rfl rfl rfl rfl hsome

theorem stepWork_sound {f : WorkInflow} {e : Direct.Event} (h : WorkSound E f)
    (hc : keepsWorkOrder E f.work e = true) : WorkSound E (f.step E e) := by
  intro halive
  have halive' : (Direct.step E f.work e).conn.life.alive = true := halive
  show ∃ came₀ rest, cameOn E f.work f.came e = came₀ ++ rest ∧
    Waits E (Direct.step E f.work e) came₀ rest
  unfold Direct.step at halive' ⊢
  by_cases hdead : f.work.conn.life.alive = false
  · rw [if_pos hdead, hdead] at halive'
    cases halive'
  rw [if_neg hdead] at halive' ⊢
  have ha : f.work.conn.life.alive = true := by simpa using hdead
  obtain ⟨came₀, rest, hcame, hw⟩ := h ha
  cases e with
  | work d =>
    dsimp only at halive' ⊢
    simp only [keepsWorkOrder] at hc
    simp only [cameOn]
    by_cases hd : f.work.ctlBev = true ∧ d ≠ []
    · rw [if_pos hd] at halive' ⊢
      rw [if_pos (by simp [ha, hd.1, hd.2]), hcame]
      unfold Direct.workReadCb at halive' ⊢
      rcases hw.callback with hcb | hcb
      · have hcb' : ({ f.work with input := f.work.input ++ d } : Direct.Work).client.workCb =
          .start := hcb
        rw [hcb'] at halive' ⊢
        rw [hcb] at hc ⊢
        exact ⟨_, [], (List.append_nil _).symm,
          hw.started ha hd.2 hcb (by simpa [hd.1, hd.2] using hc) halive'⟩
      · have hcb' : ({ f.work with input := f.work.input ++ d } : Direct.Work).client.workCb =
          .tcp := hcb
        rw [hcb'] at halive' ⊢
        rw [hcb] at hc ⊢
        exact hw.carried hd.1 hd.2 hcb (by simpa [hd.1, hd.2] using hc)
    · rw [if_neg hd]
      rw [if_neg (by simpa [ha] using hd)]
      exact ⟨came₀, rest, hcame, hw⟩
  | workClosed d =>
    dsimp only at halive' ⊢
    simp only [cameOn]
    by_cases hctl : f.work.ctlBev = true
    · rw [if_pos hctl] at halive' ⊢
      unfold Direct.workEventCb at halive' ⊢
      rcases hw.callback with hcb | hcb
      · have hcb' : ({ f.work with input := f.work.input ++ d } : Direct.Work).client.workCb =
          .start := hcb
        rw [hcb'] at halive'
        cases halive'
      · have hcb' : ({ f.work with input := f.work.input ++ d } : Direct.Work).client.workCb =
          .tcp := hcb
        rw [hcb', if_pos (by simp [ha, hctl, hcb]), hcame]
        exact ⟨came₀, rest ++ d, List.append_assoc _ _ _, hw.workClosed hctl hcb hc⟩
    · rw [if_neg hctl, if_neg (by simp [hctl])]
      exact ⟨came₀, rest, hcame, hw⟩
  | connected w => exact ⟨came₀, rest, hcame, hw.onConnected hc⟩
  | readable w d => exact ⟨came₀, rest, hcame, hw.onReadable w d⟩
  | closed w d => exact ⟨came₀, rest, hcame, hw.onClosed w d⟩

/-- The local service of a TCP tunnel gets the decoding of what the server sent for
it, with `tcp_mux` and without, in every run in which no delivery overtakes the
tail of the StartWorkConn or splits the IV where the client cannot wait. -/
theorem server_to_local_intact (id : ℕ) (msg : Bytes) :
    (∀ events,
      Along (Inflow.step E) (fun f e ↦ keepsOrder E f.conn e = true) (.start id msg) events →
      Always (Inflow.step E) (fun f ↦ Faithful E f.conn.life.alive f.conn.client f.came)
        (.start id msg) events) ∧
    ∀ events,
      Along (WorkInflow.step E) (fun f e ↦ keepsWorkOrder E f.work e = true) (.start id msg)
        events →
      Always (WorkInflow.step E) (fun f ↦ Faithful E f.work.conn.life.alive f.work.client f.came)
        (.start id msg) events := by
  constructor
  · intro events hev
    have hstart : Sound E (.start id msg) :=
      ⟨rfl, (start_resetQuiet .client id msg).opened, fun _ ↦ .awaiting new_fresh rfl rfl⟩
    have hsound := always_of_along (fun _ _ hs hc ↦ step_sound hs hc) hstart hev
    refine hsound.mono fun f hs ha ↦ ?_
    exact (hs.course ha).faithful f.conn.life.alive ha
  · intro events hev
    have hstart : WorkSound E (.start id msg) := fun _ ↦ ⟨[], [], rfl, .awaiting new_fresh rfl rfl,
      .inl rfl, fun _ ↦ ⟨new_fresh, rfl, rfl⟩, fun _ _ ↦ rfl, fun hno ↦ by cases hno⟩
    have hsound := always_of_along (fun _ _ hs hc ↦ stepWork_sound hs hc) hstart hev
    refine hsound.mono fun f hs ha ↦ ?_
    obtain ⟨came₀, rest, hcame, hw⟩ := hs ha
    rw [hcame]
    exact hw.faithful f.work.conn.life.alive ha

/-- A StartWorkConn with the first byte of the tunnel behind it. -/
def startWithTail : Bytes := frameMsg MsgType.startWorkConn.code [0x7b, 0x7d] ++ [1]

theorem intact_tailThenData :
    Always (Inflow.step (sampleEnv samplePs true))
        (fun f ↦ Faithful (sampleEnv samplePs true) f.conn.life.alive f.conn.client f.came)
        (.start 3 []) [.data 0 startWithTail [], .connected .current, .data 0 [2] []] ∧
      Always (WorkInflow.step (sampleEnv samplePs true))
        (fun f ↦ Faithful (sampleEnv samplePs true) f.work.conn.life.alive f.work.client f.came)
        (.start 3 []) [.work startWithTail, .connected .current, .work [2]] :=
  ⟨(server_to_local_intact 3 []).1 _ (by decide), (server_to_local_intact 3 []).2 _ (by decide)⟩

/-- The second byte comes before the local connection is up. -/
theorem tail_overtaken :
    ¬ Always (Inflow.step (sampleEnv samplePs true))
      (fun f ↦ Faithful (sampleEnv samplePs true) f.conn.life.alive f.conn.client f.came)
      (.start 3 []) [.data 0 startWithTail [], .data 0 [2] [], .connected .current] := by
  decide

end Xfrpc.Tunnel.Delivery
