import Xfrpc.Tunnel.Tcp

namespace Xfrpc.Tunnel.Outbound

open Client Closing Crypto.Cfb Foundations.Runs Lifetime Mux.Header Mux.Stream Service StartWork Tcp

variable {E : Env}

def readIn (t : Conn) : Event → List Bytes
  | .readable w d | .closed w d =>
    if t.life.alive && (t.client.bevAt w).any (fun b ↦ !b.connecting && b.evRead) && decide (d ≠ [])
    then [d] else []
  | _ => []

/-- A stream, and what has been read from the local service in each callback. The
code does not keep `read`. -/
structure Traffic where
  conn : Conn
  read : List Bytes
  deriving DecidableEq, Repr

def Traffic.step (E : Env) (f : Traffic) (e : Event) : Traffic :=
  ⟨Client.step E f.conn e, f.read ++ readIn f.conn e⟩

def Traffic.start (id : ℕ) (msg : Bytes) : Traffic := ⟨.start .client id msg, []⟩

def squeeze (E : Env) (ps : ProxyService) (d : Bytes) : Bytes :=
  if ps.useCompression then (E.compress d).getD d else d

def encode (E : Env) (ps : ProxyService) (iv : Bytes) (pieces : List Bytes) : Bytes :=
  let work := (pieces.map (squeeze E ps)).flatten
  if ps.useEncryption && decide (pieces ≠ []) then
    iv ++ encrypt E.prims.aes (.init (tunnelKey E) iv) work
  else work

/-- The IV of the writer, as `crypto_get_iv` returns it. -/
def writerIv (c : ProxyClient) : Bytes := (c.encryptCtx.map CryptoCtx.iv).getD []

/-- The payload of the DATA frames after `hello`, the first message on the stream. -/
def emitted (hello : Bytes) (t : Conn) : Bytes := (dataBytes t.life.out).drop hello.length

def FinSent (t : Conn) : Prop := ∃ f ∈ t.life.out, hasFlag f.header.flags .fin = true

instance (t : Conn) : Decidable (FinSent t) := inferInstanceAs (Decidable (∃ f ∈ t.life.out, _))

/-- What has gone out is the beginning of the encoding, and with FIN all of it. -/
def Intact (E : Env) (hello : Bytes) (f : Traffic) : Prop :=
  ∀ ps ∈ f.conn.client.ps,
    emitted hello f.conn <+: encode E ps (writerIv f.conn.client) f.read ∧
      (FinSent f.conn → emitted hello f.conn = encode E ps (writerIv f.conn.client) f.read)

instance (hello : Bytes) (f : Traffic) : Decidable (Intact E hello f) :=
  inferInstanceAs (Decidable (∀ ps ∈ f.conn.client.ps, _))

/-- The flush of a disconnect sends what it should: there is nothing to encode and
nothing stashed, or the window takes it all. -/
def flushes (t : Conn) (input : Bytes) : Bool :=
  if t.client.useEncryption || t.client.useCompression then
    decide (t.client.encPending = [] ∧ input = [])
  else decide (input.length ≤ t.life.stream.sendWindow.toNat)

/-- The events after which the tunnel is still whole. -/
def keepsWhole (E : Env) (t : Conn) : Event → Bool
  | .data flags payload _ => !reachesHandler t flags payload ||
      opensOnce E (begun t.client) (verdicts E (messages E t.life.stream payload) t.tick)
  | .closed w d =>
    !t.life.alive || (t.client.bevAt w).all fun b ↦ flushes t (b.lastRead d).input
  | _ => true

def writer (E : Env) (ps : ProxyService) (iv : Bytes) (pieces : List Bytes) : CryptoCtx :=
  { key := tunnelKey E
    iv
    ivDone := decide (pieces ≠ [])
    cfb := encryptCtx E.prims.aes (.init (tunnelKey E) iv) (pieces.map (squeeze E ps)).flatten }

theorem encode_nil (ps : ProxyService) (iv : Bytes) : encode E ps iv [] = [] := by
  simp [encode]

theorem encode_plain {ps : ProxyService} (h : (ps.useEncryption || ps.useCompression) = false)
    (iv : Bytes) (pieces : List Bytes) : encode E ps iv pieces = pieces.flatten := by
  obtain ⟨he, hc⟩ := Bool.or_eq_false_iff.mp h
  have hid : squeeze E ps = id := by
    funext d
    simp [squeeze, hc]
  simp [encode, he, hid]

theorem encode_snoc {c : ProxyClient} {ps : ProxyService} {iv : Bytes} {pieces : List Bytes}
    (he : c.useEncryption = ps.useEncryption) (hc : c.useCompression = ps.useCompression)
    (hw : ps.useEncryption = true → c.encryptCtx = some (writer E ps iv pieces)) (d : Bytes) :
    encode E ps iv (pieces ++ [d]) = encode E ps iv pieces ++ (cryptoEncodeEvbuffer E c d).2 ∧
      (ps.useEncryption = true →
        (cryptoEncodeEvbuffer E c d).1.encryptCtx = some (writer E ps iv (pieces ++ [d]))) := by
  have hsq : (if c.useCompression = true then (E.compress d).getD d else d) = squeeze E ps d := by
    rw [hc, squeeze]
  unfold cryptoEncodeEvbuffer
  dsimp only
  rw [hsq, he]
  cases hpe : ps.useEncryption with
  | false => simp [encode, hpe]
  | true =>
    rw [hw hpe]
    cases pieces with
    | nil => simp [encode, hpe, cryptoEncrypt, writer]
    | cons p pieces =>
      simp [encode, hpe, cryptoEncrypt, writer, encrypt_append, encryptCtx_append]

def backlog (c : ProxyClient) (b : LocalBev) : Bytes :=
  if c.useEncryption || c.useCompression then c.encPending else b.input

structure Open (l : Life) : Prop where
  unclosed : l.alive = true → l.stream.state.writeClosed = false
  unsigned : ∀ f ∈ l.out, closes f = false

structure Waiting (hello : Bytes) (f : Traffic) : Prop where
  client : Fresh f.conn.client
  life : Open f.conn.life
  sent : dataBytes f.conn.life.out = hello
  read : f.read = []

/-- The local connection is there. What has been sent and what is still to be sent
make up the encoding. -/
structure Carrying (E : Env) (hello : Bytes) (ps : ProxyService) (b : LocalBev) (f : Traffic) :
    Prop where
  served : f.conn.client.ps = some ps
  tcp : isTcp ps = true
  bev : f.conn.client.localProxyBev = some b
  stub : b.stub = false
  orphans : f.conn.client.orphans = []
  pendingClose : f.conn.client.pendingClose = false
  useEncryption : f.conn.client.useEncryption = ps.useEncryption
  useCompression : f.conn.client.useCompression = ps.useCompression
  writer : ps.useEncryption = true →
    f.conn.client.encryptCtx = some (writer E ps (writerIv f.conn.client) f.read)
  drained : (ps.useEncryption || ps.useCompression) = true → b.input = []
  life : Open f.conn.life
  sent : dataBytes f.conn.life.out ++ backlog f.conn.client b =
    hello ++ encode E ps (writerIv f.conn.client) f.read

structure Ended (E : Env) (hello : Bytes) (ps : ProxyService) (f : Traffic) : Prop where
  served : f.conn.client.ps = some ps
  tcp : isTcp ps = true
  bev : f.conn.client.localProxyBev = none
  orphans : f.conn.client.orphans = []
  ended : f.conn.client.localEnded = true
  sent : dataBytes f.conn.life.out = hello ++ encode E ps (writerIv f.conn.client) f.read

inductive Phase (E : Env) (hello : Bytes) (f : Traffic) : Prop
  | waiting (h : Waiting hello f)
  | carrying (ps : ProxyService) (b : LocalBev) (h : Carrying E hello ps b f)
  | ended (ps : ProxyService) (h : Ended E hello ps f)
  | gone (h : f.conn.life.alive = false) (h' : Intact E hello f)

structure Sound (E : Env) (hello : Bytes) (f : Traffic) : Prop where
  owner : f.conn.owner = .client
  opened : f.conn.life.stream.state ≠ .init
  phase : Phase E hello f

theorem emitted_eq {hello x : Bytes} {t : Conn} (h : dataBytes t.life.out = hello ++ x) :
    emitted hello t = x := by
  rw [emitted, h, List.drop_left]

theorem intact_of_whole {hello : Bytes} {f : Traffic}
    (h : ∀ ps, f.conn.client.ps = some ps →
      dataBytes f.conn.life.out = hello ++ encode E ps (writerIv f.conn.client) f.read) :
    Intact E hello f := by
  intro ps hps
  rw [emitted_eq (h ps hps)]
  exact ⟨List.prefix_rfl, fun _ ↦ rfl⟩

theorem not_finSent {t : Conn} (h : ∀ f ∈ t.life.out, closes f = false) : ¬ FinSent t := by
  rintro ⟨f, hf, hfin⟩
  have hno := h f hf
  rw [closes, hfin] at hno
  cases hno

theorem Phase.intact {hello : Bytes} {f : Traffic} (h : Phase E hello f) : Intact E hello f := by
  cases h with
  | waiting h =>
    refine intact_of_whole fun ps _ ↦ ?_
    rw [h.sent, h.read, encode_nil, List.append_nil]
  | ended ps h =>
    refine intact_of_whole fun ps' hps' ↦ ?_
    obtain rfl : ps = ps' := Option.some.inj (h.served.symm.trans hps')
    exact h.sent
  | gone h h' => exact h'
  | carrying ps b h =>
    intro ps' hps'
    obtain rfl : ps = ps' := Option.some.inj (h.served.symm.trans hps')
    refine ⟨?_, fun hfin ↦ absurd hfin (not_finSent h.life.unsigned)⟩
    have hlen := congrArg (List.drop hello.length) h.sent
    rw [List.drop_left] at hlen
    rw [← hlen]
    exact (List.prefix_append _ _).drop hello.length

theorem Open.idle {l l' : Life} (h : Open l) (hl : Idle l l') : Open l' := by
  refine ⟨fun ha ↦ ?_, fun f hf ↦ ?_⟩
  · obtain ⟨ha', hwc⟩ := hl.writeClosed ha
    exact hwc.trans (h.unclosed ha')
  · by_contra hc
    have hc' : closes f = true := by simpa using hc
    rw [h.unsigned f (hl.closes hf hc')] at hc'
    cases hc'

theorem Open.wrote {l l' : Life} {bytes : Bytes} (h : Open l) (hw : Wrote l l' bytes) : Open l' := by
  obtain ⟨frames, hout, -, hdata, -⟩ := hw.out
  refine ⟨fun ha ↦ hw.writeClosed.trans (h.unclosed (hw.alive.symm.trans ha)), fun f hf ↦ ?_⟩
  rw [hout] at hf
  rcases List.mem_append.mp hf with hf | hf
  · exact h.unsigned f hf
  · exact (hdata f hf).not_closes

theorem writerIv_upstream {c c' : ProxyClient} (h : upstream c' = upstream c) :
    writerIv c' = writerIv c := by
  have henc : c'.encryptCtx = c.encryptCtx := congrArg (fun p ↦ p.2.2.2.2.1) h
  rw [writerIv, writerIv, henc]

theorem Carrying.idle {hello : Bytes} {ps : ProxyService} {b b₁ : LocalBev} {f : Traffic} {t : Conn}
    (h : Carrying E hello ps b f) (hl : Idle f.conn.life t.life)
    (hu : upstream t.client = upstream f.conn.client) (hb : t.client.localProxyBev = some b₁)
    (hin : b₁.input = b.input) (hstub : b₁.stub = b.stub)
    (ho : t.client.orphans = f.conn.client.orphans) : Carrying E hello ps b₁ ⟨t, f.read⟩ := by
  have hiv := writerIv_upstream hu
  simp only [upstream, Prod.mk.injEq] at hu
  obtain ⟨hps, hpc, hue, huc, henc, hpend⟩ := hu
  refine ⟨hps.trans h.served, h.tcp, hb, hstub.trans h.stub, ho.trans h.orphans,
    hpc.trans h.pendingClose, hue.trans h.useEncryption, huc.trans h.useCompression, ?_, ?_,
    h.life.idle hl, ?_⟩
  · intro he
    rw [hiv]
    exact henc.trans (h.writer he)
  · intro hc
    exact hin.trans (h.drained hc)
  · show dataBytes t.life.out ++ backlog t.client b₁ = _
    rw [hl.dataBytes, backlog, hue, huc, hpend, hin, hiv]
    exact h.sent

theorem Waiting.idle {hello : Bytes} {f : Traffic} {t : Conn} (h : Waiting hello f)
    (hl : Idle f.conn.life t.life) (hc : Fresh t.client) : Waiting hello ⟨t, f.read⟩ :=
  ⟨hc, h.life.idle hl, hl.dataBytes.trans h.sent, h.read⟩

theorem Waiting.opened {hello : Bytes} {f : Traffic} {t : Conn} {ps : ProxyService} {k : ℕ}
    (h : Waiting hello f) (hl : Idle f.conn.life t.life) (hps : isTcp ps = true)
    (hkey : keyed E ps = true) (ho : Opened E ps k t.client) :
    Carrying E hello ps (.tcp []) ⟨t, f.read⟩ := by
  refine ⟨ho.served, hps, ho.bev, rfl, ho.orphans, ho.pendingClose, ho.useEncryption,
    ho.useCompression, fun he ↦ ?_, fun _ ↦ rfl, h.life.idle hl, ?_⟩
  · obtain ⟨token, htok⟩ : ∃ token, E.conf.authToken = some token := by
      rw [keyed, he] at hkey
      exact Option.isSome_iff_exists.mp (by simpa using hkey)
    obtain ⟨henc, -⟩ := ho.coders he token htok
    show t.client.encryptCtx = some (writer E ps (writerIv t.client) f.read)
    rw [writerIv, henc, h.read]
    simp [writer, cryptoCtxNewWriter, tunnelKey, htok]
  · show dataBytes t.life.out ++ backlog t.client (.tcp []) = _
    have hback : backlog t.client (.tcp []) = [] := by
      rw [backlog, ho.encPending]
      split_ifs <;> rfl
    rw [hl.dataBytes, h.sent, hback, h.read, encode_nil]

theorem isTcp_of_served {c : ProxyClient} {ps : ProxyService} (hps : c.ps = some ps)
    (htcp : isTcp ps = true) : ∀ ps', c.ps = some ps' → isTcp ps' = true := by
  intro ps' hps'
  rw [← Option.some.inj (hps.symm.trans hps')]
  exact htcp

section Data

variable {hello : Bytes} {f : Traffic} {flags : ℕ} {payload : Bytes} {replies : List Bytes}
  (h : Sound E hello f)

/-- A DATA frame has come; nothing is read from the local service meanwhile. -/
def afterData (E : Env) (f : Traffic) (flags : ℕ) (payload : Bytes) (replies : List Bytes) : Traffic :=
  ⟨step E f.conn (.data flags payload replies), f.read⟩

include h

theorem data_waiting (hw : Waiting hello f)
    (hopens : reachesHandler f.conn flags payload = true → opensOnce E (begun f.conn.client)
      (verdicts E (messages E f.conn.life.stream payload) f.conn.tick) = true) :
    Sound E hello (afterData E f flags payload replies) := by
  have hbev : f.conn.client.localProxyBev.isNone = true := by rw [hw.client.bev]; rfl
  obtain ⟨ho, hl, hcases⟩ := step_data_cases (E := E) h.opened h.owner hw.client.tcp
    (fun hno ↦ by rw [hbev] at hno; cases hno) flags payload replies
  refine ⟨ho, hl.opened, ?_⟩
  have hbegun : begun f.conn.client = false := by simp [begun, hw.client.bev, hw.client.ended]
  rw [hbegun] at hopens
  obtain ⟨-, hcl⟩ | ⟨-, hno, -⟩ | ⟨hreach, hk, hcl⟩ | ⟨-, -, hgone⟩ := hcases
  · exact .waiting (hw.idle hl (hcl ▸ hw.client))
  · rw [hbev] at hno
    cases hno
  · obtain ⟨-, hfresh, -⟩ | ⟨ps, rest, k, -, hps, hkey, hop⟩ :=
      msgClient_fresh hw.client (hopens hreach) hk
    · exact .waiting (hw.idle hl (hcl ▸ hfresh))
    · exact .carrying ps _ (hw.opened hl hps hkey (hcl ▸ hop))
  · refine .gone hgone (intact_of_whole fun ps _ ↦ ?_)
    show dataBytes (step E f.conn (.data flags payload replies)).life.out = _ ++ encode E ps _ f.read
    rw [hl.dataBytes, hw.sent, hw.read, encode_nil, List.append_nil]

theorem data_carrying {ps : ProxyService} {b : LocalBev} (hw : Carrying E hello ps b f) :
    Sound E hello (afterData E f flags payload replies) := by
  have hbev : f.conn.client.localProxyBev.isNone = false := by rw [hw.bev]; rfl
  have htcp := isTcp_of_served hw.served hw.tcp
  obtain ⟨ho, hl, hcases⟩ := step_data_cases (E := E) h.opened h.owner htcp
    (fun _ ↦ by rw [hw.served]; rfl) flags payload replies
  refine ⟨ho, hl.opened, ?_⟩
  have hreach : reachesHandler f.conn flags payload = false := by
    rw [reachesHandler_eq, takesMessages_tcp htcp, hbev, Bool.and_false]
  obtain ⟨-, hcl⟩ | ⟨-, -, hcl⟩ | ⟨hyes, -⟩ | ⟨hyes, -⟩ := hcases
  · exact .carrying ps b (hw.idle hl (by rw [hcl]) (by rw [hcl, hw.bev]) rfl rfl (by rw [hcl]))
  · obtain ⟨ctx, out, hq⟩ := delivered_queue (E := E) f.conn.client payload
    rw [hq] at hcl
    refine .carrying ps { b with output := b.output ++ out }
      (hw.idle hl (by rw [hcl]; rfl) ?_ rfl rfl (by rw [hcl]; rfl))
    rw [hcl]
    simp [ProxyClient.queue, hw.bev]
  · rw [hreach] at hyes
    cases hyes
  · rw [hreach] at hyes
    cases hyes

theorem data_ended {ps : ProxyService} (hw : Ended E hello ps f)
    (hopens : reachesHandler f.conn flags payload = true → opensOnce E (begun f.conn.client)
      (verdicts E (messages E f.conn.life.stream payload) f.conn.tick) = true) :
    Sound E hello (afterData E f flags payload replies) := by
  have hbev : f.conn.client.localProxyBev.isNone = true := by rw [hw.bev]; rfl
  obtain ⟨ho, hl, hcases⟩ := step_data_cases (E := E) h.opened h.owner
    (isTcp_of_served hw.served hw.tcp) (fun _ ↦ by rw [hw.served]; rfl) flags payload replies
  refine ⟨ho, hl.opened, ?_⟩
  have hbegun : begun f.conn.client = true := by simp [begun, hw.ended]
  rw [hbegun] at hopens
  have hsame : (step E f.conn (.data flags payload replies)).client = f.conn.client →
      Phase E hello (afterData E f flags payload replies) := by
    intro hcl
    refine .ended ps ⟨by rw [afterData, hcl]; exact hw.served, hw.tcp,
      by rw [afterData, hcl]; exact hw.bev, by rw [afterData, hcl]; exact hw.orphans,
      by rw [afterData, hcl]; exact hw.ended, ?_⟩
    rw [afterData, hl.dataBytes, hcl]
    exact hw.sent
  obtain ⟨-, hcl⟩ | ⟨-, hno, -⟩ | ⟨hreach, hk, hcl⟩ | ⟨hreach, hk, -⟩ := hcases
  · exact hsame hcl
  · rw [hbev] at hno
    cases hno
  · rw [msgClient_begun (hopens hreach)] at hcl
    exact hsame hcl
  · exact absurd (kept_begun (hopens hreach)) hk

theorem step_data_sound (hc : keepsWhole E f.conn (.data flags payload replies) = true) :
    Sound E hello (f.step E (.data flags payload replies)) := by
  have hread : f.step E (.data flags payload replies) = afterData E f flags payload replies := by
    simp [afterData, Traffic.step, readIn]
  rw [hread]
  have hopens : reachesHandler f.conn flags payload = true →
      opensOnce E (begun f.conn.client)
        (verdicts E (messages E f.conn.life.stream payload) f.conn.tick) = true := by
    intro hreach
    simpa [keepsWhole, hreach] using hc
  cases h.phase with
  | waiting hw => exact data_waiting h hw hopens
  | carrying ps b hw => exact data_carrying h hw
  | ended ps hw => exact data_ended h hw hopens
  | gone hdead hint =>
    have hstep : step E f.conn (.data flags payload replies) = f.conn := by
      simp [step, hdead]
    rw [afterData, hstep]
    exact ⟨h.owner, h.opened, .gone hdead hint⟩

end Data

theorem step_windowUpdate_sound {hello : Bytes} {f : Traffic} (h : Sound E hello f)
    (flags increment : ℕ) : Sound E hello (f.step E (.windowUpdate flags increment)) := by
  have hread : f.step E (.windowUpdate flags increment) =
      ⟨step E f.conn (.windowUpdate flags increment), f.read⟩ := by
    simp [Traffic.step, readIn]
  rw [hread]
  obtain ⟨ho, hcases⟩ := step_windowUpdate_cases (E := E) h.opened flags increment
  have hopened : (step E f.conn (.windowUpdate flags increment)).life.stream.state ≠ .init :=
    step_opened h.opened _
  refine ⟨ho.trans h.owner, hopened, ?_⟩
  cases h.phase with
  | waiting hw =>
    obtain ⟨hl, hcl⟩ | ⟨hpend, -⟩ := hcases
    · refine .waiting (hw.idle hl ?_)
      rcases hcl with hcl | hcl
      · rw [hcl]
        exact hw.client
      · rw [hcl]
        exact ⟨by simp [wake, hw.client.bev], hw.client.orphans, hw.client.ended,
          hw.client.pendingClose, hw.client.encPending, hw.client.tcp⟩
    · rw [hw.client.pendingClose] at hpend
      cases hpend
  | carrying ps b hw =>
    obtain ⟨hl, hcl⟩ | ⟨hpend, -⟩ := hcases
    · rcases hcl with hcl | hcl
      · exact .carrying ps b (hw.idle hl (by rw [hcl]) (by rw [hcl, hw.bev]) rfl rfl (by rw [hcl]))
      · refine .carrying ps { b with evRead := true }
          (hw.idle hl (by rw [hcl]; rfl) ?_ rfl rfl (by rw [hcl]; rfl))
        rw [hcl, wake, hw.bev]
        rfl
    · rw [hw.pendingClose] at hpend
      cases hpend
  | ended ps hw =>
    have hkeep : ∀ c : ProxyClient, c = f.conn.client ∨ c = wake f.conn.client →
        c.ps = some ps ∧ c.localProxyBev = none ∧ c.orphans = [] ∧ c.localEnded = true ∧
          writerIv c = writerIv f.conn.client := by
      rintro c (rfl | rfl)
      · exact ⟨hw.served, hw.bev, hw.orphans, hw.ended, rfl⟩
      · exact ⟨hw.served, by simp [wake, hw.bev], hw.orphans, hw.ended, rfl⟩
    obtain ⟨hl, hcl⟩ | ⟨-, hcl, l, hclose, hl⟩ := hcases
    · obtain ⟨hps, hbev, horph, hend, hiv⟩ := hkeep _ hcl
      refine .ended ps ⟨hps, hw.tcp, hbev, horph, hend, ?_⟩
      rw [hl.dataBytes, hiv]
      exact hw.sent
    · obtain ⟨hps, hbev, horph, hend, hiv⟩ := hkeep _ (.inl hcl)
      refine .ended ps ⟨hps, hw.tcp, hbev, horph, hend, ?_⟩
      rw [hclose, close_dataBytes, hl.dataBytes, hiv]
      exact hw.sent
  | gone hdead hint =>
    have hstep : step E f.conn (.windowUpdate flags increment) = f.conn := by
      simp [step, hdead]
    rw [hstep]
    exact .gone hdead hint

theorem readIn_absent {t : Conn} {w : Which} {d : Bytes}
    (h : t.life.alive = false ∨ t.client.bevAt w = none) :
    readIn t (.readable w d) = [] ∧ readIn t (.closed w d) = [] := by
  unfold readIn
  rcases h with h | h <;> simp [h]

theorem Phase.local {hello : Bytes} {f : Traffic} (h : Phase E hello f) (w : Which) :
    (f.conn.life.alive = false ∨ f.conn.client.bevAt w = none) ∨
      (f.conn.life.alive = true ∧ w = .current ∧ ∃ ps b, Carrying E hello ps b f) := by
  cases h with
  | waiting h => exact .inl (.inr (bevAt_none h.client.bev h.client.orphans w))
  | ended ps h => exact .inl (.inr (bevAt_none h.bev h.orphans w))
  | gone h h' => exact .inl (.inl h)
  | carrying ps b h =>
    cases w with
    | orphan i => exact .inl (.inr (by simp [ProxyClient.bevAt, h.orphans]))
    | current =>
      cases ha : f.conn.life.alive with
      | false => exact .inl (.inl rfl)
      | true => exact .inr ⟨rfl, rfl, ps, b, h⟩

theorem step_connected_sound {hello : Bytes} {f : Traffic} (h : Sound E hello f) (w : Which) :
    Sound E hello (f.step E (.connected w)) := by
  have hread : f.step E (.connected w) = ⟨step E f.conn (.connected w), f.read⟩ := by
    simp [Traffic.step, readIn]
  rw [hread]
  obtain habs | ⟨ha, rfl, ps, b, hw⟩ := h.phase.local w
  · have hstep : step E f.conn (.connected w) = f.conn := step_absent habs _
    rw [hstep]
    exact h
  have hstep : step E f.conn (.connected .current) = onConnected E f.conn .current b := by
    show f.conn.withBev .current (onConnected E f.conn .current) = _
    rw [Conn.withBev, if_pos ha, ProxyClient.bevAt, hw.bev]
  rw [hstep]
  unfold onConnected handlePostConnectionData
  by_cases hconn : b.connecting = true
  swap
  · rw [if_neg hconn]
    exact h
  have h5 : isSocks5Proxy f.conn.client.ps = false := by
    rw [hw.served]
    exact (isTcp_iff.mp hw.tcp).2.1
  rw [if_pos hconn]
  dsimp only
  rw [if_neg (by simp [h5])]
  obtain ⟨ctx, tail, out, hq⟩ := sendClientDataTail_queue (E := E)
    (f.conn.client.setBev { b with connecting := false } .current)
  rw [hq]
  refine ⟨h.owner, h.opened, .carrying ps { b with connecting := false, output := b.output ++ out }
    (hw.idle (.refl h.opened) rfl rfl rfl rfl rfl)⟩

theorem Carrying.toSend {hello : Bytes} {ps : ProxyService} {b : LocalBev} {f : Traffic}
    (h : Carrying E hello ps b f) (d : Bytes) :
    dataBytes f.conn.life.out ++ Closing.toSend E f.conn.client (b.input ++ d) =
      hello ++ encode E ps (writerIv f.conn.client) (f.read ++ [d]) := by
  have hmode : (f.conn.client.useEncryption || f.conn.client.useCompression) =
      (ps.useEncryption || ps.useCompression) := by rw [h.useEncryption, h.useCompression]
  have hsent := h.sent
  unfold backlog at hsent
  unfold Closing.toSend
  rw [hmode] at hsent ⊢
  by_cases hc : (ps.useEncryption || ps.useCompression) = true
  · obtain ⟨hsnoc, -⟩ := encode_snoc h.useEncryption h.useCompression h.writer d
    rw [if_pos hc] at hsent ⊢
    rw [h.drained hc, List.nil_append, hsnoc, ← List.append_assoc, hsent, List.append_assoc]
  · have hplain := encode_plain (E := E) (by simpa using hc) (writerIv f.conn.client)
    rw [if_neg hc] at hsent ⊢
    rw [hplain] at hsent ⊢
    rw [← List.append_assoc, hsent, List.flatten_append]
    simp

theorem Carrying.parked {hello : Bytes} {ps : ProxyService} {b : LocalBev} {f : Traffic} {l : Life}
    (h : Carrying E hello ps b f) {d rest : Bytes} (ev : Bool) (hl : Open l)
    (hsent : dataBytes l.out ++ rest =
      hello ++ encode E ps (writerIv f.conn.client) (f.read ++ [d])) :
    ∃ b₁, Carrying E hello ps b₁
      ⟨{ f.conn with
        life := l
        client := Closing.parked E f.conn.client .current { b with input := b.input ++ d } rest ev },
        f.read ++ [d]⟩ := by
  have hmode : (f.conn.client.useEncryption || f.conn.client.useCompression) =
      (ps.useEncryption || ps.useCompression) := by rw [h.useEncryption, h.useCompression]
  unfold Closing.parked
  rw [hmode]
  by_cases hc : (ps.useEncryption || ps.useCompression) = true
  · obtain ⟨ctx, henc⟩ := encode_eq (E := E) f.conn.client (b.input ++ d)
    obtain ⟨-, hctx⟩ := encode_snoc h.useEncryption h.useCompression h.writer d
    rw [if_pos hc, h.drained hc, List.nil_append] at *
    rw [henc] at hctx ⊢
    have hiv : ps.useEncryption = true →
        writerIv { f.conn.client with encryptCtx := ctx } = writerIv f.conn.client := by
      intro he
      have hctx' : ctx = _ := hctx he
      rw [writerIv, hctx']
      rfl
    have hcode : ∀ pieces, encode E ps (writerIv { f.conn.client with encryptCtx := ctx }) pieces =
        encode E ps (writerIv f.conn.client) pieces := by
      intro pieces
      cases he : ps.useEncryption with
      | true => rw [hiv he]
      | false => simp [encode, he]
    refine ⟨{ b with input := [], evRead := ev }, h.served, h.tcp, rfl, h.stub, h.orphans,
      h.pendingClose, h.useEncryption, h.useCompression, ?_, fun _ ↦ rfl, hl, ?_⟩
    · intro he
      show ctx = some (Outbound.writer E ps (writerIv { f.conn.client with encryptCtx := ctx })
        (f.read ++ [d]))
      rw [hiv he]
      exact hctx he
    · show dataBytes l.out ++
          (if (f.conn.client.useEncryption || f.conn.client.useCompression) = true then rest
            else []) =
        hello ++ encode E ps (writerIv { f.conn.client with encryptCtx := ctx }) (f.read ++ [d])
      rw [hcode, if_pos (hmode.trans hc)]
      exact hsent
  · rw [if_neg hc]
    refine ⟨{ b with input := rest, evRead := ev }, h.served, h.tcp, rfl, h.stub, h.orphans,
      h.pendingClose, h.useEncryption, h.useCompression, ?_, fun hc' ↦ absurd hc' hc, hl, ?_⟩
    · intro he
      exact absurd (by simp [he]) hc
    · show dataBytes l.out ++
          (if (f.conn.client.useEncryption || f.conn.client.useCompression) = true then
            f.conn.client.encPending else rest) = _
      rw [if_neg (by rw [← hmode] at hc; exact hc)]
      exact hsent

theorem step_readable_sound {hello : Bytes} {f : Traffic} (h : Sound E hello f) (w : Which)
    (d : Bytes) : Sound E hello (f.step E (.readable w d)) := by
  unfold Traffic.step
  obtain habs | ⟨ha, rfl, ps, b, hw⟩ := h.phase.local w
  · have hstep : step E f.conn (.readable w d) = f.conn := step_absent habs _
    rw [hstep, (readIn_absent habs).1, List.append_nil]
    exact h
  have hstep : step E f.conn (.readable .current d) = onReadable E f.conn .current d b := by
    show f.conn.withBev .current (onReadable E f.conn .current d) = _
    rw [Conn.withBev, if_pos ha, ProxyClient.bevAt, hw.bev]
  have hread : readIn f.conn (.readable .current d) =
      if b.connecting = false ∧ b.evRead = true ∧ d ≠ [] then [d] else [] := by
    simp [readIn, ha, ProxyClient.bevAt, hw.bev, and_assoc]
  rw [hstep, hread]
  unfold onReadable readCb
  by_cases hd : b.connecting = false ∧ b.evRead = true ∧ d ≠ []
  swap
  · rw [if_neg hd, if_neg hd, List.append_nil]
    exact h
  rw [if_pos hd, if_pos hd, if_neg (by simp [hw.stub])]
  obtain ⟨l, hwrote, hcb⟩ := tcpProxyC2sCb_spec (E := E) (b := { b with input := b.input ++ d })
    h.opened .current (List.append_ne_nil_of_right_ne_nil _ hd.2.2) rfl
  have hopen := hw.life.unclosed ha
  obtain ⟨frames, hout, hdata, -⟩ := hwrote.out
  have hall : dataBytes l.out ++
      (toSend E f.conn.client (b.input ++ d)).drop
        (sendable f.conn.life.stream (toSend E f.conn.client (b.input ++ d)).length) =
      hello ++ encode E ps (writerIv f.conn.client) (f.read ++ [d]) := by
    rw [hout, dataBytes_append, hdata, List.append_assoc, List.take_append_drop]
    exact hw.toSend d
  rw [hcb, writeEnd_open hopen]
  split_ifs with hfits
  · have hrest : (toSend E f.conn.client (b.input ++ d)).drop
        (sendable f.conn.life.stream (toSend E f.conn.client (b.input ++ d)).length) = [] := by
      rw [sendable, if_neg (by simp [hopen]), Nat.min_eq_left hfits, List.drop_length]
    rw [hrest] at hall
    obtain ⟨b₁, hnext⟩ := hw.parked b.evRead (hw.life.wrote hwrote) hall
    exact ⟨h.owner, hwrote.state_ne, .carrying ps b₁ hnext⟩
  · obtain ⟨b₁, hnext⟩ := hw.parked false (hw.life.wrote hwrote) hall
    exact ⟨h.owner, hwrote.state_ne, .carrying ps b₁ hnext⟩

theorem Carrying.flushed {hello : Bytes} {ps : ProxyService} {b : LocalBev} {f : Traffic} {l : Life}
    {d : Bytes} (h : Carrying E hello ps b f) (ha : f.conn.life.alive = true)
    (hf : flushes f.conn (b.lastRead d).input = true)
    (hw : Wrote f.conn.life l ((b.lastRead d).input.take
      (sendable f.conn.life.stream (b.lastRead d).input.length))) :
    dataBytes l.out = hello ++ encode E ps (writerIv f.conn.client)
      (f.read ++ if b.connecting = false ∧ b.evRead = true ∧ d ≠ [] then [d] else []) := by
  have hmode : (f.conn.client.useEncryption || f.conn.client.useCompression) =
      (ps.useEncryption || ps.useCompression) := by rw [h.useEncryption, h.useCompression]
  have hopen := h.life.unclosed ha
  obtain ⟨frames, hout, hdata, -⟩ := hw.out
  have hsent := h.sent
  unfold backlog at hsent
  unfold flushes at hf
  rw [hmode] at hsent hf
  rw [hout, dataBytes_append, hdata]
  by_cases hc : (ps.useEncryption || ps.useCompression) = true
  · rw [if_pos hc] at hsent hf
    obtain ⟨hpend, hin⟩ := of_decide_eq_true hf
    have hno : ¬ (b.connecting = false ∧ b.evRead = true ∧ d ≠ []) := by
      rintro ⟨hconn, hev, hd⟩
      rw [LocalBev.lastRead, if_pos ⟨hconn, hev⟩] at hin
      exact hd (List.append_eq_nil_iff.mp hin).2
    rw [hin, if_neg hno, List.take_nil, List.append_nil, List.append_nil, ← hsent, hpend,
      List.append_nil]
  · have hplain := encode_plain (E := E) (by simpa using hc) (writerIv f.conn.client)
    rw [if_neg hc] at hsent hf
    rw [hplain] at hsent ⊢
    have hfits := of_decide_eq_true hf
    rw [sendable, if_neg (by simp [hopen]), Nat.min_eq_left hfits, List.take_length]
    unfold LocalBev.lastRead
    by_cases hr : b.connecting = false ∧ b.evRead = true
    · rw [if_pos hr]
      by_cases hd : d = []
      · rw [if_neg (by simp [hd]), hd, List.append_nil, List.append_nil]
        exact hsent
      · rw [if_pos ⟨hr.1, hr.2, hd⟩]
        show dataBytes f.conn.life.out ++ (b.input ++ d) = _
        rw [← List.append_assoc, hsent, List.flatten_append]
        simp
    · rw [if_neg hr, if_neg fun hall ↦ hr ⟨hall.1, hall.2.1⟩, List.append_nil]
      exact hsent

theorem step_closed_sound {hello : Bytes} {f : Traffic} (h : Sound E hello f) (w : Which)
    (d : Bytes) (hc : keepsWhole E f.conn (.closed w d) = true) :
    Sound E hello (f.step E (.closed w d)) := by
  unfold Traffic.step
  obtain habs | ⟨ha, rfl, ps, b, hw⟩ := h.phase.local w
  · have hstep : step E f.conn (.closed w d) = f.conn := step_absent habs _
    rw [hstep, (readIn_absent habs).2, List.append_nil]
    exact h
  have hstep : step E f.conn (.closed .current d) = onClosed f.conn .current d b := by
    show f.conn.withBev .current (onClosed f.conn .current d) = _
    rw [Conn.withBev, if_pos ha, ProxyClient.bevAt, hw.bev]
  have hread : readIn f.conn (.closed .current d) =
      if b.connecting = false ∧ b.evRead = true ∧ d ≠ [] then [d] else [] := by
    simp [readIn, ha, ProxyClient.bevAt, hw.bev, and_assoc]
  have hflush : flushes f.conn (b.lastRead d).input = true := by
    simpa [keepsWhole, ha, ProxyClient.bevAt, hw.bev] using hc
  have hudp : isUdpProxy f.conn.client.ps = false := by
    rw [hw.served]
    exact (isTcp_iff.mp hw.tcp).1
  obtain ⟨l, hwrote, hl⟩ := writeAll_spec h.opened (b.lastRead d).input
  have hsent := hw.flushed ha hflush hwrote
  rw [hstep, hread, onClosed, if_neg (by simp [hudp]), handleProxyDisconnect,
    if_neg (by simp [hw.served]), hl]
  dsimp only
  by_cases hz : l.stream.sendWindow = 0
  · rw [if_pos hz]
    exact ⟨h.owner, hwrote.state_ne,
      .ended ps ⟨hw.served, hw.tcp, rfl, hw.orphans, rfl, hsent⟩⟩
  · rw [if_neg hz]
    refine ⟨h.owner, close_opened hwrote.state_ne,
      .ended ps ⟨hw.served, hw.tcp, rfl, hw.orphans, rfl, ?_⟩⟩
    exact (close_dataBytes l).trans hsent

theorem step_sound {hello : Bytes} {f : Traffic} {e : Event} (h : Sound E hello f)
    (hc : keepsWhole E f.conn e = true) : Sound E hello (f.step E e) := by
  cases e with
  | data flags payload replies => exact step_data_sound h hc
  | windowUpdate flags increment => exact step_windowUpdate_sound h flags increment
  | connected w => exact step_connected_sound h w
  | readable w d => exact step_readable_sound h w d
  | closed w d => exact step_closed_sound h w d hc
  | send src =>
    have hstep : f.step E (.send src) = f := by
      simp [Traffic.step, readIn, step, h.owner]
    rw [hstep]
    exact h

theorem start_sound (id : ℕ) (msg : Bytes) :
    Sound E (dataBytes (Conn.start .client id msg).life.out) (.start id msg) := by
  have hd := start_disciplined .client id msg
  have hopen : (Conn.start .client id msg).life.stream.state.writeClosed = false := by
    obtain ⟨l, hl, hfirst⟩ := start_life .client id msg
    have hne : l.stream.state ≠ .init := by
      rw [hfirst]
      exact (show TcpMuxState.synSend ≠ .init by decide)
    rw [hl, (write_steady hne msg).writeClosed, hfirst]
    rfl
  refine ⟨rfl, hd.opened, .waiting ⟨new_fresh, ⟨fun _ ↦ hopen, fun f hf ↦ ?_⟩, rfl, rfl⟩⟩
  by_contra hc
  have hclosed := hd.closing f hf (by simpa using hc)
  rw [hopen] at hclosed
  cases hclosed

/-- What the server gets of a TCP tunnel is the encoding of what was read from the
local service, as far as it has gone out, in every run whose disconnects flush as
they should and in which one StartWorkConn at most opens the tunnel. -/
theorem local_to_server_intact (id : ℕ) (msg : Bytes) (events : List Event)
    (h : Along (Traffic.step E) (fun f e ↦ keepsWhole E f.conn e = true) (.start id msg) events) :
    Always (Traffic.step E) (Intact E (dataBytes (Conn.start .client id msg).life.out))
      (.start id msg) events := by
  have hsound : Always (Traffic.step E)
      (Sound E (dataBytes (Conn.start .client id msg).life.out)) (.start id msg) events :=
    always_of_along (fun _ _ hs hc ↦ step_sound hs hc) (start_sound id msg) h
  exact hsound.mono fun _ hs ↦ hs.phase.intact

/-- An encrypted TCP proxy with its token. -/
def secretPs : ProxyService := { samplePs with useEncryption := true }

def secretEnv : Env :=
  { sampleEnv secretPs true with conf := ⟨true, false, some [0x6b]⟩ }

/-- The local service sends a byte, another one, and closes. -/
def readThenClose : List Event :=
  [startFrame, .connected .current, .readable .current [1], .readable .current [2],
    .closed .current []]

theorem intact_readThenClose :
    Along (Traffic.step secretEnv) (fun f e ↦ keepsWhole secretEnv f.conn e = true)
        (.start 3 []) readThenClose ∧
      Always (Traffic.step secretEnv)
        (Intact secretEnv (dataBytes (Conn.start .client 3 []).life.out)) (.start 3 [])
        readThenClose :=
  ⟨by decide, local_to_server_intact 3 [] readThenClose (by decide)⟩

/-- The byte and the EOF come in one pass of the event loop. -/
theorem last_byte_unencoded :
    ¬ Always (Traffic.step secretEnv)
      (Intact secretEnv (dataBytes (Conn.start .client 3 []).life.out)) (.start 3 [])
      [startFrame, .connected .current, .closed .current [1]] := by
  decide

end Xfrpc.Tunnel.Outbound
