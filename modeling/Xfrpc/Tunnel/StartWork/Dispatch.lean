import Xfrpc.Tunnel.StartWork.Messages

namespace Xfrpc.Tunnel.StartWork

open Control.Receive (checkMsg)
open Client Control.Message Foundations.Runs Lifetime Mux.Header Mux.Stream Service Wire

variable {E : Env}

def takesMessages (c : ProxyClient) : Bool :=
  defaultPath c || (isUdpProxy c.ps && !hasServiceType c.ps && !isSocks5Proxy c.ps)

theorem dispatchClient_messages {t : Conn} (h : takesMessages t.client = true) (payload : Bytes) :
    dispatchClient E t payload = (handleFrpsMsg E t payload, true) := by
  unfold dispatchClient
  by_cases hd : defaultPath t.client = true
  · rw [if_pos hd]
  · rw [if_neg hd]
    have hudp : (isUdpProxy t.client.ps && !hasServiceType t.client.ps &&
        !isSocks5Proxy t.client.ps) = true := by
      simpa [takesMessages, hd] using h
    simp only [Bool.and_eq_true, Bool.not_eq_true'] at hudp
    obtain ⟨⟨hu, hs⟩, h5⟩ := hudp
    cases hps : t.client.ps with
    | none =>
      rw [hps] at hu
      cases hu
    | some ps =>
      rw [hps] at hu hs h5
      simp only [hs, h5, hu]
      rfl

/-- What a consumer of server bytes may do to the client: queue something to the
local service, or connect to it. -/
structure Calm (c c' : ProxyClient) : Prop where
  upstream : upstream c' = upstream c
  locals : (∃ out, locals c' = locals (c.queue out)) ∨
    (∃ out, locals c' = locals (c.openLocal (some (.tcp out)))) ∨
    locals c' = locals (c.openLocal none)

theorem queue_nil (c : ProxyClient) : c.queue [] = c := by
  obtain ⟨ps, bev⟩ := c
  cases bev <;> simp [ProxyClient.queue]

theorem Calm.same {c c' : ProxyClient} (hu : StartWork.upstream c' = StartWork.upstream c)
    (hl : StartWork.locals c' = StartWork.locals c) : Calm c c' :=
  ⟨hu, .inl ⟨[], by rw [queue_nil, hl]⟩⟩

theorem Calm.of_same {c c₁ c' : ProxyClient} (hu : StartWork.upstream c₁ = StartWork.upstream c)
    (hl : StartWork.locals c₁ = StartWork.locals c) (h : Calm c₁ c') : Calm c c' := by
  obtain ⟨hbev, horph, hended⟩ : c₁.localProxyBev = c.localProxyBev ∧ c₁.orphans = c.orphans ∧
      c₁.localEnded = c.localEnded := by
    simpa [StartWork.locals] using hl
  refine ⟨h.upstream.trans hu, ?_⟩
  obtain ⟨out, hq⟩ | ⟨out, ho⟩ | hn := h.locals
  · exact .inl ⟨out, by rw [hq]; simp [StartWork.locals, ProxyClient.queue, hbev, horph, hended]⟩
  · refine .inr (.inl ⟨out, ?_⟩)
    rw [ho]
    simp [StartWork.locals, ProxyClient.openLocal, hbev, horph, hended]
  · refine .inr (.inr ?_)
    rw [hn]
    simp [StartWork.locals, ProxyClient.openLocal, hbev, horph, hended]

structure Forwarded (t t' : Conn) : Prop where
  owner : t'.owner = t.owner
  log : t'.log = t.log
  life : t'.life = t.life ∨ t'.life = t.life.write noAuthResp
  client : Calm t.client t'.client

theorem Forwarded.of_client {t t' : Conn} {c : ProxyClient} (h : Forwarded { t with client := c } t')
    (hu : upstream c = upstream t.client) (hl : locals c = locals t.client) : Forwarded t t' :=
  ⟨h.owner, h.log, h.life, h.client.of_same hu hl⟩

theorem handleXdpi_forwarded (t : Conn) (ps : ProxyService) (payload : Bytes) :
    Forwarded t (handleXdpi E t ps payload) := by
  unfold handleXdpi
  dsimp only
  split_ifs
  · exact ⟨rfl, rfl, .inl rfl, rfl, .inl ⟨payload, rfl⟩⟩
  · exact ⟨rfl, rfl, .inl rfl, .same rfl rfl⟩
  · exact ⟨rfl, rfl, .inl rfl, rfl, .inl ⟨t.client.xdpiBuf ++ payload, rfl⟩⟩
  · exact ⟨rfl, rfl, .inl rfl, .same rfl rfl⟩
  · exact ⟨rfl, rfl, .inl rfl, rfl, .inr (.inl ⟨t.client.xdpiBuf ++ payload, rfl⟩)⟩
  · exact ⟨rfl, rfl, .inl rfl, .same rfl rfl⟩

theorem socks5Request_forwarded (t : Conn) : Forwarded t (socks5Request E t) := by
  unfold socks5Request
  dsimp only
  cases parseSocks5Addr (t.client.socks5Buf.drop 3) with
  | none => split_ifs <;> exact ⟨rfl, rfl, .inl rfl, .same rfl rfl⟩
  | some n =>
    split_ifs
    · exact ⟨rfl, rfl, .inl rfl, .same rfl rfl⟩
    · exact ⟨rfl, rfl, .inl rfl, .same rfl rfl⟩
    · exact ⟨rfl, rfl, .inl rfl, rfl, .inr (.inl ⟨_, rfl⟩)⟩
    · exact ⟨rfl, rfl, .inl rfl, rfl, .inr (.inr rfl)⟩

theorem socks5Greeting_forwarded (t : Conn) :
    Forwarded t (socks5Greeting t).1 ∧
      upstream (socks5Greeting t).1.client = upstream t.client ∧
      locals (socks5Greeting t).1.client = locals t.client := by
  unfold socks5Greeting
  dsimp only
  split_ifs
  · exact ⟨⟨rfl, rfl, .inl rfl, .same rfl rfl⟩, rfl, rfl⟩
  · exact ⟨⟨rfl, rfl, .inl rfl, .same rfl rfl⟩, rfl, rfl⟩
  · exact ⟨⟨rfl, rfl, .inr rfl, .same rfl rfl⟩, rfl, rfl⟩
  · exact ⟨⟨rfl, rfl, .inr rfl, .same rfl rfl⟩, rfl, rfl⟩

theorem socks5Request_life (t : Conn) : (socks5Request E t).life = t.life := by
  unfold socks5Request
  dsimp only
  cases parseSocks5Addr (t.client.socks5Buf.drop 3) with
  | none => split_ifs <;> rfl
  | some n => split_ifs <;> rfl

theorem socks5Loop_forwarded (t : Conn) : Forwarded t (socks5Loop E t) := by
  unfold socks5Loop
  cases t.client.state with
  | init =>
    dsimp only
    obtain ⟨hg, hu, hl⟩ := socks5Greeting_forwarded t
    rcases hgr : socks5Greeting t with ⟨t', go⟩
    rw [hgr] at hg hu hl
    cases go with
    | false => exact hg
    | true =>
      dsimp only
      split_ifs
      · exact hg
      · have hreq := socks5Request_forwarded (E := E) t'
        refine ⟨hreq.owner.trans hg.owner, hreq.log.trans hg.log, ?_, hreq.client.of_same hu hl⟩
        rw [socks5Request_life]
        exact hg.life
  | handshake => exact socks5Request_forwarded t
  | connect => exact ⟨rfl, rfl, .inl rfl, .same rfl rfl⟩
  | established => exact ⟨rfl, rfl, .inl rfl, .same rfl rfl⟩
  | broken => exact ⟨rfl, rfl, .inl rfl, .same rfl rfl⟩

theorem handleSocks5_forwarded (t : Conn) (payload : Bytes) :
    Forwarded t (handleSocks5 E t payload).1 := by
  unfold handleSocks5
  split_ifs
  · exact ⟨rfl, rfl, .inl rfl, rfl, .inl ⟨payload, rfl⟩⟩
  · exact (socks5Loop_forwarded (E := E) _).of_client rfl rfl

theorem cryptoDecode_eq (c : ProxyClient) (data : Bytes) :
    ∃ ctx, (cryptoDecode E c data).1 = { c with decryptCtx := ctx } := by
  obtain ⟨ps, bev, ws, pc, ue, uc, enc, dec⟩ := c
  cases ue with
  | false => exact ⟨dec, rfl⟩
  | true => cases dec <;> exact ⟨_, rfl⟩

theorem decode_eq (c : ProxyClient) (src : Bytes) :
    ∃ ctx, (proxyCryptoDecodeEvbuffer E c src).1 = { c with decryptCtx := ctx } := by
  have hc := cryptoDecode_eq (E := E) c src
  have hiv : ∀ ctx : CryptoCtx, ∃ ctx', (cryptoDecode E
      { c with decryptCtx := some (cryptoSetIv ctx (src.take 16)) } (src.drop 16)).1 =
        { c with decryptCtx := ctx' } := fun ctx ↦
    cryptoDecode_eq { c with decryptCtx := some (cryptoSetIv ctx (src.take 16)) } (src.drop 16)
  unfold proxyCryptoDecodeEvbuffer
  by_cases hs : src = []
  · rw [if_pos hs]
    exact ⟨c.decryptCtx, rfl⟩
  rw [if_neg hs]
  obtain ⟨ps, bev, ws, pc, ue, uc, enc, dec⟩ := c
  cases ue with
  | false => exact hc
  | true =>
    cases dec with
    | none => exact hc
    | some ctx =>
      dsimp only
      split_ifs
      · exact hc
      · exact ⟨some ctx, rfl⟩
      · exact ⟨_, rfl⟩
      · exact hiv ctx

theorem dispatchClient_forwarded {t : Conn} (h : takesMessages t.client = false)
    (payload : Bytes) : Forwarded t (dispatchClient E t payload).1 := by
  simp only [takesMessages, Bool.or_eq_false_iff] at h
  obtain ⟨hd, hu⟩ := h
  unfold dispatchClient
  dsimp only
  rw [if_neg (by simp [hd])]
  cases hps : t.client.ps with
  | none => exact ⟨rfl, rfl, .inl rfl, .same rfl rfl⟩
  | some ps =>
    rw [hps] at hu
    dsimp only
    by_cases hs : hasServiceType (some ps) = true
    · rw [if_pos hs]
      exact handleXdpi_forwarded t ps payload
    rw [if_neg hs]
    by_cases h5 : isSocks5Proxy (some ps) = true
    · rw [if_pos h5]
      exact handleSocks5_forwarded t payload
    rw [if_neg h5]
    rw [if_neg (by simpa [hs, h5] using hu)]
    split_ifs
    · obtain ⟨ctx, hdec⟩ := decode_eq (E := E) t.client payload
      refine ⟨rfl, rfl, .inl rfl, ?_⟩
      dsimp only
      rw [hdec]
      exact ⟨rfl, .inl ⟨_, rfl⟩⟩
    · exact ⟨rfl, rfl, .inl rfl, rfl, .inl ⟨payload, rfl⟩⟩

def reachesHandler (t : Conn) (flags : ℕ) (payload : Bytes) : Bool :=
  t.life.alive && decide (payload ≠ []) && decide (payload.length ≤ maxStreamWindowSize) &&
    !flagsRefused flags t.life.stream && !flagsFree flags t.life.stream &&
    decide (payload.length ≤ t.life.stream.recvWindow.toNat) && decide (t.owner = .client) &&
    takesMessages t.client

/-- Every StartWorkConn that an event makes the client handle either comes to
nothing before the local connect, or the local connect does not fail at once. -/
def StartsHold (E : Env) (t : Conn) : Event → Prop
  | .data flags payload _ =>
    reachesHandler t flags payload = true → Kept E (messages E t.life.stream payload) t.tick
  | _ => True

instance (t : Conn) : ∀ e, Decidable (StartsHold E t e)
  | .data _ _ _ => inferInstanceAs (Decidable (_ → _))
  | .windowUpdate _ _ | .connected _ | .readable _ _ | .closed _ _ | .send _ => .isTrue trivial

theorem processData_cases (t : Conn) (flags : ℕ) (payload : Bytes) (replies : List Bytes) :
    (flagsRefused flags t.life.stream = true ∧
      processData E t flags payload replies = (t, false)) ∨
    (flagsRefused flags t.life.stream = false ∧ flagsFree flags t.life.stream = true ∧
      ∃ st, processFlags flags t.life.stream = .freed { t.life.stream with state := st } ∧
        processData E t flags payload replies =
          ({ t with life := t.life.freed flags { t.life.stream with state := st } }, false)) ∨
    (flagsRefused flags t.life.stream = false ∧ flagsFree flags t.life.stream = false ∧
      ∃ st, processFlags flags t.life.stream = .kept { t.life.stream with state := st } ∧
        ((t.life.stream.recvWindow.toNat < payload.length ∧
          processData E t flags payload replies =
            (t.setStream { t.life.stream with state := st }, false)) ∨
        (payload.length ≤ t.life.stream.recvWindow.toNat ∧
          ∃ t₁, t₁ = t.setStream { t.life.stream with
            state := st, recvWindow := t.life.stream.recvWindow - .ofNat payload.length } ∧
          processData E t flags payload replies =
            ((dispatch E t₁ payload replies).1.touch .settle (·.settle payload.length),
              (dispatch E t₁ payload replies).2)))) := by
  unfold processData admitData
  obtain ⟨hr, h⟩ | ⟨hr, hf, st, h⟩ | ⟨hr, hf, st, h⟩ := processFlags_outcome flags t.life.stream
  · refine .inl ⟨hr, ?_⟩
    rw [h]
    rfl
  · refine .inr (.inl ⟨hr, hf, st, h, ?_⟩)
    rw [h]
  · refine .inr (.inr ⟨hr, hf, st, h, ?_⟩)
    rw [h]
    by_cases hl : t.life.stream.recvWindow.toNat < payload.length
    · refine .inl ⟨hl, ?_⟩
      dsimp only
      rw [if_pos hl]
    · refine .inr ⟨Nat.le_of_not_lt hl, _, rfl, ?_⟩
      dsimp only
      rw [if_neg hl]

theorem messages_admitted (s : TmuxStream) (st : TcpMuxState) (w : UInt32) (payload : Bytes) :
    messages E { s with state := st, recvWindow := w } payload = messages E s payload := by
  have hrx : (received { s with state := st, recvWindow := w } payload).v2Rx =
      (received s payload).v2Rx := by
    unfold received
    dsimp only
    split_ifs <;> rfl
  simp only [messages, hrx]

end Xfrpc.Tunnel.StartWork
