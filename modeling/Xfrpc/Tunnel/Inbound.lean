import Xfrpc.Tunnel.Direct
import Xfrpc.Tunnel.Tcp

namespace Xfrpc.Tunnel.Inbound

open Control.Receive (checkMsg checkMsg_frameMsg intLimit)
open Client Closing Control.Message Crypto.Cfb Foundations.Runs Lifetime Mux.Header Mux.Stream
  Service StartWork Tcp Wire

variable {E : Env}

def decode (E : Env) (ps : ProxyService) (bytes : Bytes) : Bytes :=
  if ps.useEncryption then
    if bytes.length < 16 then []
    else decrypt E.prims.aes (.init (tunnelKey E) (bytes.take 16)) (bytes.drop 16)
  else bytes

def framesBehind (E : Env) : ℕ → Bytes → ℕ → Bytes
  | 0, _, _ => []
  | fuel + 1, rx, n =>
    match V2.parseFrame rx with
    | .incomplete | .error => []
    | .frame type payload k =>
      match frameToV1 type payload with
      | none => framesBehind E fuel (rx.drop k) n
      | some v1 =>
        match verdict E v1 n with
        | .accepted _ none => rx.drop k
        | _ => framesBehind E fuel (rx.drop k) (nextTick v1 n)

def behind (E : Env) (s : TmuxStream) (payload : Bytes) (n : ℕ) : Bytes :=
  if E.conf.wireV2 then
    let rx := (received s payload).v2Rx
    framesBehind E (rx.length + 1) rx n
  else tailOf payload

def cameWith (E : Env) (s : TmuxStream) (payload : Bytes) (n : ℕ) (came : Bytes) : Bytes :=
  if (opening E (messages E s payload) n).isSome then behind E s payload n else came

/-- The delivery does not split the IV, and does not overtake the tail of the
StartWorkConn. -/
def inTurn (c : ProxyClient) (b : LocalBev) : Bool := !b.connecting || decide (c.dataTail = [])

def ivSplit (c : ProxyClient) (data : Bytes) : Bool :=
  c.useEncryption && !c.decryptCtx.any CryptoCtx.ivDone && decide (data.length < 16)

/-- A message opens a tunnel without compression, and the bytes behind it are where
the client looks for them. -/
def tailKept (E : Env) (s : TmuxStream) (payload : Bytes) (n : ℕ) : Bool :=
  match opening E (messages E s payload) n with
  | some (ps, _, _) => !ps.useCompression && (!E.conf.wireV2 || decide (behind E s payload n = []))
  | none =>
    E.conf.wireV2 ||
      match verdict E payload n with
      | .accepted _ _ => decide (tailOf payload = [])
      | _ => true

def opensWell (E : Env) (c : ProxyClient) (s : TmuxStream) (payload : Bytes) (n : ℕ) : Bool :=
  opensOnce E (begun c) (verdicts E (messages E s payload) n) && tailKept E s payload n

def tailLong (c : ProxyClient) : Bool := decide (c.dataTail = []) || !ivSplit c c.dataTail

def reader (E : Env) (fed : Bytes) : CryptoCtx :=
  if fed = [] then cryptoCtxNewReader (tunnelKey E)
  else
    { key := tunnelKey E
      iv := []
      ivDone := true
      cfb := decryptCtx E.prims.aes (.init (tunnelKey E) (fed.take 16)) (fed.drop 16) }

/-- A client whose local service has been given the decoding of `fed`. -/
structure Fed (E : Env) (ps : ProxyService) (b : LocalBev) (fed : Bytes) (c : ProxyClient) :
    Prop where
  served : c.ps = some ps
  tcp : isTcp ps = true
  bev : c.localProxyBev = some b
  orphans : c.orphans = []
  useEncryption : c.useEncryption = ps.useEncryption
  useCompression : c.useCompression = false
  reader : ps.useEncryption = true →
    c.decryptCtx = some (reader E fed) ∧ (fed = [] ∨ 16 ≤ fed.length)
  queued : b.output = decode E ps fed

theorem decode_append {ps : ProxyService} {fed data : Bytes}
    (h : ps.useEncryption = true → 16 ≤ fed.length) :
    decode E ps (fed ++ data) = decode E ps fed ++
      if ps.useEncryption then
        decrypt E.prims.aes
          (decryptCtx E.prims.aes (.init (tunnelKey E) (fed.take 16)) (fed.drop 16)) data
      else data := by
  unfold decode
  cases he : ps.useEncryption with
  | false => simp
  | true =>
    have hlen := h he
    have htake : (fed ++ data).take 16 = fed.take 16 := List.take_append_of_le_length hlen
    have hdrop : (fed ++ data).drop 16 = fed.drop 16 ++ data := List.drop_append_of_le_length hlen
    have hlong : ¬ (fed ++ data).length < 16 := by
      rw [List.length_append]
      omega
    simp only [if_true]
    rw [if_neg hlong, if_neg (by omega), htake, hdrop, decrypt_append]

theorem reader_ivDone (fed : Bytes) : (reader E fed).ivDone = decide (fed ≠ []) := by
  unfold reader
  by_cases h : fed = []
  · simp [h, cryptoCtxNewReader]
  · simp [h]

theorem reader_append {fed data : Bytes} (h : 16 ≤ fed.length) :
    reader E (fed ++ data) = { reader E fed with
      cfb := decryptCtx E.prims.aes (reader E fed).cfb data } := by
  have hne : fed ≠ [] := by
    rintro rfl
    simp at h
  have htake : (fed ++ data).take 16 = fed.take 16 := List.take_append_of_le_length h
  have hdrop : (fed ++ data).drop 16 = fed.drop 16 ++ data := List.drop_append_of_le_length h
  unfold reader
  rw [if_neg (List.append_ne_nil_of_left_ne_nil hne data), if_neg hne, htake, hdrop,
    decryptCtx_append]

theorem reader_iv {data : Bytes} (h : 16 ≤ data.length) :
    reader E data = { cryptoSetIv (reader E []) (data.take 16) with
      cfb := decryptCtx E.prims.aes (.init (tunnelKey E) (data.take 16)) (data.drop 16) } := by
  have hne : data ≠ [] := by
    rintro rfl
    simp at h
  rw [reader, if_neg hne]
  rfl

theorem proxyCryptoDecodeEvbuffer_plain {c : ProxyClient} (he : c.useEncryption = false)
    (hc : c.useCompression = false) {src : Bytes} (hne : src ≠ []) :
    proxyCryptoDecodeEvbuffer E c src = (c, src, []) := by
  unfold proxyCryptoDecodeEvbuffer
  rw [if_neg hne, he]
  simp [cryptoDecode, he, hc]

theorem Fed.decode {ps : ProxyService} {b : LocalBev} {fed : Bytes} {c : ProxyClient}
    (h : Fed E ps b fed c) {src : Bytes} (hne : src ≠ []) (hiv : ivSplit c src = false) :
    ∃ ctx plain, proxyCryptoDecodeEvbuffer E c src = ({ c with decryptCtx := ctx }, plain, []) ∧
      Inbound.decode E ps (fed ++ src) = Inbound.decode E ps fed ++ plain ∧
      (ps.useEncryption = true →
        ctx = some (Inbound.reader E (fed ++ src)) ∧ 16 ≤ (fed ++ src).length) := by
  have hue := h.useEncryption
  have hread := h.reader
  have hcomp := h.useCompression
  cases he : ps.useEncryption with
  | false =>
    rw [he] at hue
    exact ⟨c.decryptCtx, src, proxyCryptoDecodeEvbuffer_plain hue hcomp hne,
      by simp [Inbound.decode, he], nofun⟩
  | true =>
    rw [he] at hue
    unfold proxyCryptoDecodeEvbuffer
    rw [if_neg hne]
    obtain ⟨hctx, hlen⟩ := hread he
    by_cases hfed : fed = []
    · subst hfed
      have hlong : 16 ≤ src.length := by
        simpa [ivSplit, hue, hctx, reader_ivDone] using hiv
      have hdec : Inbound.decode E ps src =
          decrypt E.prims.aes (.init (tunnelKey E) (src.take 16)) (src.drop 16) := by
        simp [Inbound.decode, he, Nat.not_lt.mpr hlong]
      have hzero : Inbound.decode E ps [] = [] := by simp [Inbound.decode, he]
      refine ⟨some (Inbound.reader E src),
        decrypt E.prims.aes (.init (tunnelKey E) (src.take 16)) (src.drop 16), ?_, ?_, fun _ ↦ ?_⟩
      · rw [hue, hctx]
        simp only [reader_ivDone]
        rw [reader_iv hlong]
        by_cases h16 : src.length = 16
        · have hdrop : src.drop 16 = [] := List.drop_eq_nil_of_le (by omega)
          simp [h16, hdrop, cryptoSetIv]
          rfl
        · simp [Nat.not_lt.mpr hlong, h16, cryptoDecode, hcomp, cryptoSetIv]
          exact ⟨rfl, rfl⟩
      · rw [List.nil_append, hzero, List.nil_append, hdec]
      · rw [List.nil_append]
        exact ⟨rfl, hlong⟩
    · have hlong : 16 ≤ fed.length := hlen.resolve_left hfed
      refine ⟨some (Inbound.reader E (fed ++ src)),
        decrypt E.prims.aes (Inbound.reader E fed).cfb src, ?_, ?_, fun _ ↦ ⟨rfl, ?_⟩⟩
      · rw [hue, hctx]
        simp [reader_ivDone, hfed, cryptoDecode, hue, hctx, hcomp, reader_append hlong]
      · rw [decode_append fun _ ↦ hlong, he, if_pos rfl, Inbound.reader, if_neg hfed]
      · rw [List.length_append]
        omega

theorem Fed.decode_split {ps : ProxyService} {b : LocalBev} {fed : Bytes} {c : ProxyClient}
    (h : Fed E ps b fed c) {src : Bytes} (hne : src ≠ []) (hiv : ivSplit c src = true) :
    proxyCryptoDecodeEvbuffer E c src = (c, [], src) ∧ ps.useEncryption = true ∧ fed = [] ∧
      src.length < 16 := by
  simp only [ivSplit, Bool.and_eq_true, Bool.not_eq_true', decide_eq_true_eq] at hiv
  obtain ⟨⟨hue, hdone⟩, hshort⟩ := hiv
  have he : ps.useEncryption = true := h.useEncryption.symm.trans hue
  obtain ⟨hctx, -⟩ := h.reader he
  have hfed : fed = [] := by
    rw [hctx, Option.any_some, reader_ivDone] at hdone
    simpa using hdone
  refine ⟨?_, he, hfed, hshort⟩
  unfold proxyCryptoDecodeEvbuffer
  rw [if_neg hne, hue, hctx]
  simp [reader_ivDone, hfed, hshort]

theorem Fed.delivered {ps : ProxyService} {b : LocalBev} {fed : Bytes} {c : ProxyClient}
    (h : Fed E ps b fed c) {src : Bytes} (hne : src ≠ []) (hiv : ivSplit c src = false) :
    ∃ plain, Fed E ps { b with output := b.output ++ plain } (fed ++ src)
      (Tcp.delivered E c src) := by
  obtain ⟨ctx, plain, hdec, happ, hread⟩ := h.decode hne hiv
  have hnext : ∀ c', c' = ({ c with decryptCtx := ctx } : ProxyClient).queue plain →
      Fed E ps { b with output := b.output ++ plain } (fed ++ src) c' := by
    rintro c' rfl
    refine ⟨h.served, h.tcp, by simp [ProxyClient.queue, h.bev], h.orphans, h.useEncryption,
      h.useCompression, fun he ↦ ⟨(hread he).1, .inr (hread he).2⟩, ?_⟩
    rw [happ, h.queued]
  refine ⟨plain, hnext _ ?_⟩
  unfold Tcp.delivered
  by_cases hc : (c.useEncryption || c.useCompression) = true
  · rw [if_pos hc, hdec]
  · rw [if_neg hc]
    obtain ⟨hue, huc⟩ := Bool.or_eq_false_iff.mp (by simpa using hc)
    rw [proxyCryptoDecodeEvbuffer_plain hue huc hne, Prod.mk.injEq, Prod.mk.injEq] at hdec
    rw [← hdec.1, hdec.2.1]

theorem Fed.connected {ps : ProxyService} {b : LocalBev} {fed : Bytes} {c : ProxyClient}
    (h : Fed E ps b fed c) (hlong : tailLong c = true) :
    ∃ b₁, b₁.connecting = false ∧
      Fed E ps b₁ (fed ++ c.dataTail)
        (sendClientDataTail E (c.setBev { b with connecting := false } .current)) ∧
      (sendClientDataTail E (c.setBev { b with connecting := false } .current)).dataTail = [] ∧
      (sendClientDataTail E (c.setBev { b with connecting := false } .current)).workCb =
        c.workCb := by
  have h₁ : Fed E ps { b with connecting := false } fed
      (c.setBev { b with connecting := false } .current) :=
    ⟨h.served, h.tcp, rfl, h.orphans, h.useEncryption, h.useCompression, h.reader, h.queued⟩
  have htail : (c.setBev { b with connecting := false } .current).dataTail = c.dataTail := rfl
  by_cases hnil : c.dataTail = []
  · refine ⟨{ b with connecting := false }, rfl, ?_⟩
    unfold sendClientDataTail
    rw [if_pos (.inl (htail.trans hnil)), hnil, List.append_nil]
    exact ⟨h₁, hnil, rfl⟩
  · have hiv : ivSplit (c.setBev { b with connecting := false } .current) c.dataTail = false := by
      show ivSplit c c.dataTail = false
      simpa [tailLong, hnil] using hlong
    obtain ⟨plain, hfed⟩ := h₁.delivered hnil hiv
    obtain ⟨ctx, out, hq⟩ := delivered_queue (E := E)
      (c.setBev { b with connecting := false } .current) c.dataTail
    have hsend : sendClientDataTail E (c.setBev { b with connecting := false } .current) =
        { Tcp.delivered E (c.setBev { b with connecting := false } .current) c.dataTail with
          dataTail := [] } := by
      unfold sendClientDataTail Tcp.delivered
      rw [if_neg (by simp [hnil, ProxyClient.setBev])]
      split_ifs <;> rfl
    rw [hsend]
    refine ⟨{ b with connecting := false, output := b.output ++ plain }, rfl, ?_, rfl, ?_⟩
    · exact ⟨hfed.served, hfed.tcp, hfed.bev, hfed.orphans, hfed.useEncryption,
        hfed.useCompression, hfed.reader, hfed.queued⟩
    · rw [hq]
      rfl

/-- The part of the client, next to its local connection, that decides what becomes
of the server's bytes. -/
def downstream (c : ProxyClient) :
    Option ProxyService × List LocalBev × Bool × Bool × Option CryptoCtx × Bytes × WorkCb :=
  (c.ps, c.orphans, c.useEncryption, c.useCompression, c.decryptCtx, c.dataTail, c.workCb)

theorem Fed.upstream {ps : ProxyService} {b b₁ : LocalBev} {fed : Bytes} {c c₁ : ProxyClient}
    (h : Fed E ps b fed c) (hb : c₁.localProxyBev = some b₁) (hout : b₁.output = b.output)
    (hd : downstream c₁ = downstream c) : Fed E ps b₁ fed c₁ := by
  simp only [downstream, Prod.mk.injEq] at hd
  obtain ⟨hps, ho, he, hc, hctx, -, -⟩ := hd
  exact ⟨hps.trans h.served, h.tcp, hb, ho.trans h.orphans, he.trans h.useEncryption,
    hc.trans h.useCompression, fun hen ↦ hctx.symm ▸ h.reader hen, hout.trans h.queued⟩

theorem acceptClient_dataTail (c : ProxyClient) (ps : ProxyService) (rest : Bytes) (n : ℕ) :
    (acceptClient E c ps rest n).dataTail = if rest = [] then c.dataTail else rest := by
  have hstart : ∀ c₁ : ProxyClient, (startClient E c₁ ps n).dataTail = c₁.dataTail := by
    intro c₁
    obtain ⟨enc, dec, hinit⟩ := initCrypto_eq (E := E) c₁ ps n
    unfold startClient
    rw [hinit]
    split_ifs
    · rfl
    · rcases localConnection E ps n with _ | _ | bev
      · rfl
      · rfl
      · unfold setupProxyCallbacks
        dsimp only
        split_ifs <;> rfl
  unfold acceptClient
  dsimp only
  split_ifs <;> first | rfl | exact hstart _

theorem verdict_dataTail (v : Verdict) {c : ProxyClient} (hc : c.dataTail = []) (rest : Bytes)
    (n : ℕ) : (v.client E c rest n).dataTail = match v with | .accepted _ _ => rest | _ => [] := by
  cases v with
  | other => exact hc
  | refused why => exact hc
  | accepted ps why =>
    show (acceptClient E c ps rest n).dataTail = rest
    rw [acceptClient_dataTail, hc]
    split_ifs with hr
    · exact hr.symm
    · rfl

theorem tailOf_frameToV1 {type : ℕ} {payload v1 : Bytes} (h : frameToV1 type payload = some v1)
    (hlen : payload.length ≤ V2.maxFramePayload) : tailOf v1 = [] := by
  unfold frameToV1 V2.payloadToV1 at h
  split_ifs at h
  obtain ⟨t, -, rfl⟩ := Option.map_eq_some_iff.mp h
  have hshort : (payload.drop 2).length < intLimit := by
    rw [List.length_drop]
    have hmax : V2.maxFramePayload = 65536 := rfl
    have hint : (65536 : ℕ) < intLimit := by decide
    omega
  rw [tailOf, checkMsg_frameMsg t.code hshort]
  refine List.drop_eq_nil_of_le ?_
  rw [frameMsg_length]
  exact Nat.le_refl _

theorem parseFrame_payload {rx payload : Bytes} {type n : ℕ}
    (h : V2.parseFrame rx = .frame type payload n) : payload.length ≤ V2.maxFramePayload := by
  unfold V2.parseFrame at h
  dsimp only at h
  split_ifs at h with h1 h2 h3 h4
  cases h
  rw [List.length_take]
  omega

theorem frameMsgs_tail {fuel : ℕ} {rx buf : Bytes} (h : buf ∈ frameMsgs fuel rx) :
    tailOf buf = [] := by
  induction fuel generalizing rx with
  | zero => cases h
  | succ fuel ih =>
    unfold frameMsgs at h
    cases hp : V2.parseFrame rx with
    | incomplete =>
      rw [hp] at h
      cases h
    | error =>
      rw [hp] at h
      cases h
    | frame type payload n =>
      rw [hp] at h
      rcases List.mem_append.mp h with h | h
      · exact tailOf_frameToV1 (Option.mem_toList.mp h) (parseFrame_payload hp)
      · exact ih h

theorem msgClient_dataTail {bufs : List Bytes} {n : ℕ} {c : ProxyClient}
    (h : ∀ buf ∈ bufs, tailOf buf = []) (hc : c.dataTail = []) :
    (msgClient E bufs n c).dataTail = [] := by
  induction bufs generalizing n c with
  | nil => exact hc
  | cons buf bufs ih =>
    refine ih (fun b hb ↦ h b (List.mem_cons_of_mem _ hb)) ?_
    rw [verdict_dataTail _ hc, h buf List.mem_cons_self]
    split <;> rfl

theorem messages_dataTail {s : TmuxStream} {payload : Bytes} {n : ℕ} {c : ProxyClient}
    (hc : c.dataTail = []) (h : tailKept E s payload n = true) :
    (msgClient E (messages E s payload) n c).dataTail = cameWith E s payload n [] := by
  unfold cameWith
  unfold tailKept at h
  by_cases hv : E.conf.wireV2 = true
  · have htail : (msgClient E (messages E s payload) n c).dataTail = [] := by
      refine msgClient_dataTail (fun buf hb ↦ ?_) hc
      rw [messages, if_pos hv] at hb
      exact frameMsgs_tail hb
    rw [htail]
    cases ho : opening E (messages E s payload) n with
    | none => rfl
    | some o =>
      rw [ho] at h
      simp only [hv, Bool.not_true, Bool.false_or, Bool.and_eq_true, decide_eq_true_eq] at h
      rw [h.2]
      rfl
  · have hmsgs : messages E s payload = [payload] := by rw [messages, if_neg hv]
    rw [hmsgs] at h ⊢
    unfold behind
    rw [if_neg hv]
    show ((verdict E payload n).client E c (tailOf payload) n).dataTail = _
    rw [verdict_dataTail _ hc]
    cases hver : verdict E payload n with
    | other => simp [opening, hver]
    | refused why => simp [opening, hver]
    | accepted ps why =>
      cases why with
      | none => simp [opening, hver]
      | some why =>
        have hno : opening E [payload] n = none := by simp [opening, hver]
        rw [hno] at h ⊢
        simpa [hver, hv] using h

inductive Course (E : Env) (c : ProxyClient) (came : Bytes) : Prop
  | awaiting (fresh : Fresh c) (tail : c.dataTail = []) (nothing : came = [])
  | feeding (ps : ProxyService) (b : LocalBev) (fed : Bytes) (h : Fed E ps b fed c)
    (tail : c.dataTail ≠ [] → b.connecting = true ∧ fed = []) (all : came = fed ++ c.dataTail)
  | finished (bev : c.localProxyBev = none) (orphans : c.orphans = []) (ended : c.localEnded = true)
    (tcp : ∀ ps, c.ps = some ps → isTcp ps = true)

/-- The local service of a client that is there has been given the decoding of what
came for it; as long as it is not connected, the beginning of that. -/
def Faithful (E : Env) (alive : Bool) (c : ProxyClient) (came : Bytes) : Prop :=
  alive = true → ∀ ps ∈ c.ps, ∀ b ∈ c.localProxyBev,
    (b.connecting = true → b.output <+: decode E ps came) ∧
      (b.connecting = false → b.output = decode E ps came)

instance (alive : Bool) (c : ProxyClient) (came : Bytes) : Decidable (Faithful E alive c came) :=
  inferInstanceAs (Decidable (alive = true → ∀ ps ∈ c.ps, ∀ b ∈ c.localProxyBev, _ ∧ _))

theorem decode_nil (ps : ProxyService) : decode E ps [] = [] := by
  unfold decode
  split_ifs <;> rfl

theorem Course.fed {c : ProxyClient} {came : Bytes} {b : LocalBev} (h : Course E c came)
    (hb : c.localProxyBev = some b) :
    ∃ ps fed, Fed E ps b fed c ∧ (c.dataTail ≠ [] → b.connecting = true ∧ fed = []) ∧
      came = fed ++ c.dataTail := by
  cases h with
  | awaiting fresh =>
    rw [fresh.bev] at hb
    cases hb
  | finished bev =>
    rw [bev] at hb
    cases hb
  | feeding ps b' fed hf htail hall =>
    obtain rfl : b' = b := Option.some.inj (hf.bev.symm.trans hb)
    exact ⟨ps, fed, hf, htail, hall⟩

theorem Course.faithful {c : ProxyClient} {came : Bytes} (h : Course E c came) (alive : Bool) :
    Faithful E alive c came := by
  intro _ ps hps b hb
  obtain ⟨ps', fed, hf, htail, hall⟩ := h.fed hb
  obtain rfl : ps' = ps := Option.some.inj (hf.served.symm.trans hps)
  by_cases hnil : c.dataTail = []
  · rw [hnil, List.append_nil] at hall
    rw [hf.queued, hall]
    exact ⟨fun _ ↦ List.prefix_rfl, fun _ ↦ rfl⟩
  · obtain ⟨hconn, hfed⟩ := htail hnil
    rw [hf.queued, hfed, decode_nil]
    refine ⟨fun _ ↦ List.nil_prefix, fun hno ↦ ?_⟩
    rw [hconn] at hno
    cases hno

theorem Course.messages {c : ProxyClient} {came : Bytes} {s : TmuxStream} {payload : Bytes} {n : ℕ}
    (h : Course E c came) (hb : c.localProxyBev = none)
    (hk : Kept E (StartWork.messages E s payload) n) (hw : opensWell E c s payload n = true) :
    Course E (msgClient E (StartWork.messages E s payload) n c) (cameWith E s payload n came) := by
  simp only [opensWell, Bool.and_eq_true] at hw
  obtain ⟨hopens, hkept⟩ := hw
  cases h with
  | awaiting fresh tail nothing =>
    have htail := messages_dataTail (E := E) tail hkept
    have hbegun : begun c = false := by simp [begun, fresh.bev, fresh.ended]
    rw [hbegun] at hopens
    rw [nothing]
    obtain ⟨hno, hfresh, -⟩ | ⟨ps, rest, k, ho, hps, hkey, hop⟩ := msgClient_fresh fresh hopens hk
    · have hcame : cameWith E s payload n [] = [] := by simp [cameWith, hno]
      rw [hcame] at htail ⊢
      exact .awaiting hfresh htail rfl
    · have hcomp : ps.useCompression = false := by
        unfold tailKept at hkept
        rw [ho] at hkept
        simp only [Bool.and_eq_true, Bool.not_eq_true'] at hkept
        exact hkept.1
      refine .feeding ps (.tcp []) [] ⟨hop.served, hps, hop.bev, hop.orphans, hop.useEncryption,
        hop.useCompression.trans hcomp, fun he ↦ ⟨?_, .inl rfl⟩, (decode_nil ps).symm⟩
        (fun _ ↦ ⟨rfl, rfl⟩) htail.symm
      obtain ⟨token, htok⟩ : ∃ token, E.conf.authToken = some token := by
        rw [keyed, he] at hkey
        exact Option.isSome_iff_exists.mp (by simpa using hkey)
      rw [(hop.coders he token htok).2]
      simp [reader, tunnelKey, htok]
  | feeding ps b fed hf =>
    rw [hf.bev] at hb
    cases hb
  | finished bev orphans ended tcp =>
    have hbegun : begun c = true := by simp [begun, ended]
    rw [hbegun] at hopens
    rw [msgClient_begun hopens]
    exact .finished bev orphans ended tcp

theorem Course.delivered {c : ProxyClient} {came payload : Bytes} {b : LocalBev}
    (h : Course E c came) (hb : c.localProxyBev = some b) (hne : payload ≠ [])
    (hturn : inTurn c b = true) (hiv : ivSplit c payload = false) :
    Course E (Tcp.delivered E c payload) (came ++ payload) := by
  obtain ⟨ps, fed, hf, htail, hall⟩ := h.fed hb
  have hnil : c.dataTail = [] := by
    by_contra hno
    simp [inTurn, (htail hno).1, hno] at hturn
  obtain ⟨plain, hnext⟩ := hf.delivered hne hiv
  obtain ⟨ctx, out, hq⟩ := delivered_queue (E := E) c payload
  have htail' : (Tcp.delivered E c payload).dataTail = [] := by
    rw [hq]
    exact hnil
  rw [hnil, List.append_nil] at hall
  refine .feeding ps _ (fed ++ payload) hnext (fun hno ↦ absurd htail' hno) ?_
  rw [htail', List.append_nil, hall]

theorem Course.connected {c : ProxyClient} {came : Bytes} {b : LocalBev} (h : Course E c came)
    (hb : c.localProxyBev = some b) (hlong : tailLong c = true) :
    Course E (sendClientDataTail E (c.setBev { b with connecting := false } .current)) came := by
  obtain ⟨ps, fed, hf, htail, hall⟩ := h.fed hb
  obtain ⟨b₁, -, hnext, htail', -⟩ := hf.connected hlong
  refine .feeding ps b₁ (fed ++ c.dataTail) hnext (fun hno ↦ absurd htail' hno) ?_
  rw [htail', List.append_nil]
  exact hall

theorem Course.upstream {c c₁ : ProxyClient} {came : Bytes} {b b₁ : LocalBev} (h : Course E c came)
    (hb : c.localProxyBev = some b) (hb₁ : c₁.localProxyBev = some b₁)
    (hout : b₁.output = b.output) (hconn : b₁.connecting = b.connecting)
    (hd : downstream c₁ = downstream c) : Course E c₁ came := by
  obtain ⟨ps, fed, hf, htail, hall⟩ := h.fed hb
  have ht : c₁.dataTail = c.dataTail := congrArg (fun p ↦ p.2.2.2.2.2.1) hd
  refine .feeding ps b₁ fed (hf.upstream hb₁ hout hd) ?_ ?_
  · rw [ht, hconn]
    exact htail
  · rw [ht]
    exact hall

theorem Course.tcp {c : ProxyClient} {came : Bytes} (h : Course E c came) {ps : ProxyService}
    (hps : c.ps = some ps) : isTcp ps = true := by
  cases h with
  | awaiting fresh => exact fresh.tcp ps hps
  | finished _ _ _ tcp => exact tcp ps hps
  | feeding ps' b fed hf =>
    obtain rfl : ps' = ps := Option.some.inj (hf.served.symm.trans hps)
    exact hf.tcp

theorem Course.served {c : ProxyClient} {came : Bytes} {b : LocalBev} (h : Course E c came)
    (hb : c.localProxyBev = some b) : ∃ ps, c.ps = some ps ∧ isTcp ps = true := by
  obtain ⟨ps, fed, hf, -⟩ := h.fed hb
  exact ⟨ps, hf.served, hf.tcp⟩

theorem Course.orphans {c : ProxyClient} {came : Bytes} (h : Course E c came) : c.orphans = [] := by
  cases h with
  | awaiting fresh => exact fresh.orphans
  | finished _ orphans => exact orphans
  | feeding ps b fed hf => exact hf.orphans

theorem Course.bevAt {c : ProxyClient} {came : Bytes} {b : LocalBev} {w : Which}
    (h : Course E c came) (hb : c.bevAt w = some b) : w = .current ∧ c.localProxyBev = some b := by
  cases w with
  | current => exact ⟨rfl, hb⟩
  | orphan i => simp [ProxyClient.bevAt, h.orphans] at hb

theorem Course.freed {c : ProxyClient} {came : Bytes} (h : Course E c came) (pend : Bool) :
    Course E { c.freeBev .current with pendingClose := pend } came :=
  .finished rfl h.orphans rfl fun _ hps ↦ h.tcp hps

end Xfrpc.Tunnel.Inbound
