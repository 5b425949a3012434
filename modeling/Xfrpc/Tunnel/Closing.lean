import Xfrpc.Tunnel.StartWork

namespace Xfrpc.Tunnel.Closing

open Client Control.Message Foundations.Runs Lifetime Mux.Header Mux.Stream Service StartWork

variable {E : Env}

/-- The events that close a stream whose FIN is already out. -/
def closesAgain (t : Conn) : Event → Bool
  | .windowUpdate flags increment =>
    t.life.alive && !hasFlag flags .syn && !flagsFree flags t.life.stream &&
      decide (increment ≤ maxStreamWindowSize) &&
      decide (addCredit t.life.stream.sendWindow increment ≠ 0) && decide (t.owner = .client) &&
      t.client.pendingClose && decide (t.life.stream.state = .localClose)
  | .closed w _ =>
    t.life.alive && (t.client.bevAt w).isSome && !isUdpProxy t.client.ps && t.client.ps.isSome &&
      decide (t.life.stream.sendWindow ≠ 0) && decide (t.life.stream.state = .localClose)
  | _ => false

def flagsOf : Event → Option ℕ
  | .data flags _ _ | .windowUpdate flags _ => some flags
  | _ => none

theorem quiet_stream (l : Life) {s : TmuxStream} (h : s.state = l.stream.state) :
    Quiet l { l with stream := s } := ⟨rfl, rfl, rfl, h⟩

/-- What `tcp_proxy_c2s_cb` tries to send. -/
def toSend (E : Env) (c : ProxyClient) (input : Bytes) : Bytes :=
  if c.useEncryption || c.useCompression then
    c.encPending ++ (cryptoEncodeEvbuffer E c input).2
  else input

def afterLoop : Life × Bytes × WriteEnd → Life
  | (l, _, .failed) => l.delete
  | (l, _, .done) | (l, _, .blocked) => l

theorem tcpProxyC2sCb_life {t : Conn} (w : Which) {b : LocalBev} (hb : b.input ≠ []) :
    (tcpProxyC2sCb E t w b).life = afterLoop (t.life.writeAll (toSend E t.client b.input)) := by
  unfold tcpProxyC2sCb toSend
  dsimp only
  rw [if_neg hb]
  by_cases hc : (t.client.useEncryption || t.client.useCompression) = true
  · rw [if_pos hc, if_pos hc]
    rcases t.life.writeAll _ with ⟨l, rest, r⟩
    cases r <;> rfl
  · rw [if_neg hc, if_neg hc]
    rcases t.life.writeAll _ with ⟨l, rest, r⟩
    cases r <;> rfl

/-- The client after `tcp_proxy_c2s_cb` on the connection `b`, with `rest` not sent. -/
def parked (E : Env) (c : ProxyClient) (w : Which) (b : LocalBev) (rest : Bytes)
    (evRead : Bool) : ProxyClient :=
  if c.useEncryption || c.useCompression then
    { (cryptoEncodeEvbuffer E c b.input).1.setBev { b with input := [], evRead } w with
      encPending := rest }
  else c.setBev { b with input := rest, evRead } w

theorem tcpProxyC2sCb_spec {t : Conn} (h : t.life.stream.state ≠ .init) (w : Which) {b : LocalBev}
    (hb : b.input ≠ []) {src : Bytes} (hsrc : src = toSend E t.client b.input) :
    ∃ l, Wrote t.life l (src.take (sendable t.life.stream src.length)) ∧
      tcpProxyC2sCb E t w b =
        match writeEnd t.life.stream src with
        | .done => { t with life := l, client := parked E t.client w b [] b.evRead }
        | .blocked =>
          { t with
            life := l
            client := parked E t.client w b (src.drop (sendable t.life.stream src.length)) false }
        | .failed => { t with life := l.delete } := by
  obtain ⟨l, hw, hl⟩ := writeAll_spec h src
  refine ⟨l, hw, ?_⟩
  unfold tcpProxyC2sCb parked
  unfold toSend at hsrc
  dsimp only
  rw [if_neg hb]
  by_cases hc : (t.client.useEncryption || t.client.useCompression) = true
  · rw [if_pos hc] at hsrc
    rw [if_pos hc, ← hsrc, hl]
    cases writeEnd t.life.stream src <;> simp [hc]
  · rw [if_neg hc] at hsrc
    rw [if_neg hc, ← hsrc, hl]
    cases writeEnd t.life.stream src <;> simp [hc, hsrc]

theorem encode_eq (c : ProxyClient) (data : Bytes) :
    ∃ ctx, (cryptoEncodeEvbuffer E c data).1 = { c with encryptCtx := ctx } := by
  obtain ⟨ps, bev, ws, pc, ue, uc, enc, dec⟩ := c
  cases ue with
  | false => exact ⟨enc, rfl⟩
  | true => cases enc <;> exact ⟨_, rfl⟩

theorem parked_eq (c : ProxyClient) (w : Which) (b : LocalBev) (rest : Bytes) (ev : Bool) :
    ∃ bev orphans encryptCtx encPending, parked E c w b rest ev =
      { c with localProxyBev := bev, orphans, encryptCtx, encPending } := by
  unfold parked
  obtain ⟨ctx, henc⟩ := encode_eq (E := E) c b.input
  split_ifs
  · rw [henc]
    cases w <;> exact ⟨_, _, _, _, rfl⟩
  · cases w <;> exact ⟨_, _, _, _, rfl⟩

theorem sendClientDataTail_eq (c : ProxyClient) :
    ∃ bev decryptCtx dataTail, sendClientDataTail E c =
      { c with localProxyBev := bev, decryptCtx, dataTail } := by
  unfold sendClientDataTail
  obtain ⟨ctx, hdec⟩ := decode_eq (E := E) c c.dataTail
  split_ifs
  · exact ⟨_, _, _, rfl⟩
  · dsimp only
    rw [hdec]
    exact ⟨_, _, _, rfl⟩
  · exact ⟨_, _, _, rfl⟩

theorem socks5Established_eq (c : ProxyClient) :
    ∃ bev socks5Buf, socks5Established c =
      { c with localProxyBev := bev, socks5Buf, state := .established } := by
  unfold socks5Established
  dsimp only
  split_ifs <;> exact ⟨_, _, rfl⟩

section

variable {I : Life → Prop} (hI : Robust I)

include hI

theorem handleFrpsMsg_robust {t : Conn} {payload : Bytes} (ha : t.life.alive = true)
    (h : I t.life)
    (hdel : Kept E (messages E t.life.stream payload) t.tick ∨ ∀ l, I l → I l.delete) :
    I (handleFrpsMsg E t payload).life := by
  by_cases hne : payload = []
  · rw [handleFrpsMsg, if_pos hne]
    exact h
  by_cases hk : Kept E (messages E t.life.stream payload) t.tick
  · obtain ⟨seen, rx, hmsg⟩ := handleFrpsMsg_kept ha hne hk
    rw [hmsg]
    exact hI.quiet (quiet_stream t.life rfl) h
  · obtain ⟨⟨seen, rx, hlife⟩, -⟩ := handleFrpsMsg_removed ha hne hk
    rcases hdel with hk' | hdel
    · exact absurd hk' hk
    · rw [hlife]
      exact hdel { t.life with stream := { t.life.stream with v2MagicSeen := seen, v2Rx := rx } }
        (hI.quiet (quiet_stream t.life rfl) h)

theorem Forwarded.robust {t t' : Conn} (hf : Forwarded t t') (h : I t.life) : I t'.life := by
  rcases hf.life with hl | hl
  · rw [hl]
    exact h
  · rw [hl]
    exact hI.write noAuthResp h

theorem touch_robust {t : Conn} (n : ℕ) (h : I t.life) :
    I (t.touch .settle (·.settle n)).life := by
  unfold Conn.touch
  split_ifs
  · exact hI.settle n h
  · exact h

theorem processData_robust {t : Conn} {flags : ℕ} {payload : Bytes} {replies : List Bytes}
    (ha : t.life.alive = true) (h : I t.life)
    (hfreed : ∀ st, processFlags flags t.life.stream = .freed { t.life.stream with state := st } →
      I (t.life.freed flags { t.life.stream with state := st }))
    (hdel : (payload ≠ [] ∧ payload.length ≤ maxStreamWindowSize ∧
      StartsHold E t (.data flags payload replies)) ∨ ∀ l, I l → I l.delete) :
    I (processData E t flags payload replies).1.life := by
  obtain ⟨-, hp⟩ | ⟨-, -, st, hpf, hp⟩ | ⟨hr, hf, st, hpf, ⟨-, hp⟩ | ⟨hw, t₁, ht₁, hp⟩⟩ :=
    processData_cases (E := E) t flags payload replies
  · rw [hp]
    exact h
  · rw [hp]
    exact hfreed st hpf
  · rw [hp]
    exact hI.kept hpf h
  · rw [hp]
    have h₁ : I t₁.life := by
      rw [ht₁]
      exact hI.quiet (quiet_stream { t.life with stream := { t.life.stream with state := st } } rfl)
        (hI.kept hpf h)
    have ha₁ : t₁.life.alive = true := by rw [ht₁]; exact ha
    have howner : t₁.owner = t.owner := by rw [ht₁]; rfl
    have hclient : t₁.client = t.client := by rw [ht₁]; rfl
    have hmsgs : messages E t₁.life.stream payload = messages E t.life.stream payload := by
      rw [ht₁]
      exact messages_admitted _ _ _ _
    have htick : t₁.tick = t.tick := by rw [ht₁]; rfl
    refine touch_robust hI _ ?_
    unfold dispatch
    cases ho : t.owner with
    | control =>
      rw [howner, ho]
      dsimp only
      rw [foldl_write]
      exact hI.foldl_write replies h₁
    | client =>
      rw [howner, ho]
      dsimp only
      cases hm : takesMessages t.client with
      | false => exact Forwarded.robust hI (dispatchClient_forwarded (hclient ▸ hm) payload) h₁
      | true =>
        rw [dispatchClient_messages (t := t₁) (hclient ▸ hm)]
        refine handleFrpsMsg_robust hI ha₁ h₁ ?_
        rcases hdel with ⟨hne, hmax, hs⟩ | hdel
        · refine .inl ?_
          rw [hmsgs, htick]
          exact hs (by simp [reachesHandler, ha, hne, hmax, hr, hf, hw, ho, hm])
        · exact .inr hdel

theorem incrSendWindow_robust {t : Conn} {flags increment : ℕ} (ha : t.life.alive = true)
    (hsyn : hasFlag flags .syn = false) (h : I t.life)
    (hfreed : ∀ st, processFlags flags t.life.stream = .freed { t.life.stream with state := st } →
      I (t.life.freed flags { t.life.stream with state := st }))
    (hcls : ∀ l, I l → (closesAgain t (.windowUpdate flags increment) = false →
      l.stream.state ≠ .localClose) → I l.close) :
    I (incrSendWindow t flags increment).life := by
  unfold incrSendWindow creditSendWindow
  obtain ⟨-, hpf⟩ | ⟨-, hfree, st, hpf⟩ | ⟨hr, hfree, st, hpf⟩ :=
    processFlags_outcome flags t.life.stream
  · rw [hpf]
    exact h
  · rw [hpf]
    exact hfreed st hpf
  · rw [hpf]
    have hk : I { t.life with stream := { t.life.stream with state := st } } := hI.kept hpf h
    by_cases hinc : maxStreamWindowSize < increment
    · simp only [gt_iff_lt, if_pos hinc]
      exact hk
    · simp only [gt_iff_lt, if_neg hinc]
      have hq : I { t.life with stream := { t.life.stream with
          state := st, sendWindow := addCredit t.life.stream.sendWindow increment } } :=
        hI.quiet (quiet_stream { t.life with stream := { t.life.stream with state := st } } rfl) hk
      split_ifs with hz hpend hold
      · exact hq
      · refine hcls _ hq fun hagain hst ↦ ?_
        have hst' : st = .localClose := hst
        obtain ⟨-, hwc, hsame, -⟩ := processFlags_kept_state hpf
        have hback : t.life.stream.state = .localClose := by
          rw [hst'] at hwc hsame
          exact (hsame hwc.symm).symm
        obtain ⟨hz, ho⟩ := not_or.mp hz
        have ho' : t.owner = .client := by
          cases htow : t.owner with
          | control => exact absurd htow ho
          | client => rfl
        simp [closesAgain, ha, hsyn, hfree, Nat.le_of_not_lt hinc, ho', hpend, hback] at hagain
        exact hz hagain
      · exact hq
      · exact hq

theorem tcpProxyC2sCb_robust {t : Conn} (w : Which) {b : LocalBev} (hb : b.input ≠ [])
    (h : I t.life) (hfail : ∀ l, I l → l.stream.state.writeClosed = true → I l.delete) :
    I (tcpProxyC2sCb E t w b).life := by
  rw [tcpProxyC2sCb_life w hb]
  have hl := hI.writeAll (toSend E t.client b.input) h
  rcases hw : t.life.writeAll (toSend E t.client b.input) with ⟨l, rest, r⟩
  rw [hw] at hl
  cases r with
  | done => exact hl
  | blocked => exact hl
  | failed => exact hfail l hl (writeAll_failed (hI.opened h) hw)

theorem handleProxyDisconnect_robust {t : Conn} {w : Which} {b : LocalBev} (h : I t.life)
    (hcls : ∀ l, I l → l.stream.sendWindow ≠ 0 → t.client.ps.isSome = true →
      (l.stream.state = .localClose → t.life.stream.state = .localClose ∧
        t.life.stream.sendWindow ≠ 0) → I l.close) :
    I (handleProxyDisconnect t w b).life := by
  unfold handleProxyDisconnect
  by_cases hps : t.client.ps.isNone = true
  · rw [if_pos hps]
    exact h
  · rw [if_neg hps]
    obtain ⟨l, hw, hl⟩ := writeAll_spec (hI.opened h) b.input
    rw [hl]
    dsimp only
    have hIl : I l := hI.wrote hw h
    by_cases hz : l.stream.sendWindow = 0
    · rw [if_pos hz]
      exact hIl
    · rw [if_neg hz]
      refine hcls l hIl hz (Option.isSome_iff_ne_none.mpr (by simpa using hps)) fun hst ↦ ?_
      have hwc : t.life.stream.state.writeClosed = true := by
        rw [← hw.writeClosed, hst]
        rfl
      obtain ⟨st, hs, -, hwc', hkeep⟩ := hw.stream
      have hst' : st = .localClose := by rw [hs] at hst; exact hst
      have hsame := closed_before (hwc'.trans hwc) hwc' hkeep
      refine ⟨hsame ▸ hst', fun hz' ↦ hz ?_⟩
      have hwin := hw.window
      rw [hz'] at hwin
      have hle : l.stream.sendWindow.toNat + _ = 0 := hwin
      exact UInt32.toNat_inj.mp (show l.stream.sendWindow.toNat = 0 by omega)

theorem step_robust {t : Conn} {e : Event} (h : I t.life)
    (hfreed : ∀ flags st, flagsOf e = some flags →
      processFlags flags t.life.stream = .freed { t.life.stream with state := st } →
      I (t.life.freed flags { t.life.stream with state := st }))
    (hfail : ∀ l, I l → l.stream.state.writeClosed = true → I l.delete)
    (hdel : StartsHold E t e ∨ ∀ l, I l → I l.delete)
    (hcls : ∀ l, I l → (closesAgain t e = false → l.stream.state ≠ .localClose) → I l.close) :
    I (step E t e).life := by
  cases e with
  | data flags payload replies =>
    simp only [step]
    split_ifs with hd
    · exact processData_robust hI hd.1 h (fun st ↦ hfreed flags st rfl)
        (hdel.imp (fun hs ↦ ⟨hd.2.1, hd.2.2, hs⟩) id)
    · exact h
  | windowUpdate flags increment =>
    simp only [step]
    split_ifs with hd
    · exact incrSendWindow_robust hI hd.1 hd.2 h (fun st ↦ hfreed flags st rfl) hcls
    · exact h
  | send src =>
    simp only [step]
    split_ifs
    · exact hI.write src h
    · exact h
  | connected w =>
    refine withBev_ind (P := fun t' ↦ I t'.life) h fun b _ _ ↦ ?_
    unfold onConnected handlePostConnectionData
    dsimp only
    split_ifs
    all_goals first | exact h | exact hI.write successReply h
  | readable w d =>
    refine withBev_ind (P := fun t' ↦ I t'.life) h fun b _ _ ↦ ?_
    unfold onReadable readCb
    split_ifs with hd
    · exact h
    · exact tcpProxyC2sCb_robust hI w (List.append_ne_nil_of_right_ne_nil _ hd.2.2) h hfail
    · exact h
  | closed w d =>
    refine withBev_ind (P := fun t' ↦ I t'.life) h fun b ha hb ↦ ?_
    unfold onClosed
    by_cases hu : isUdpProxy t.client.ps = true
    · rw [if_pos hu]
      exact h
    · rw [if_neg hu]
      refine handleProxyDisconnect_robust hI h fun l hl _ hps hst ↦ hcls l hl fun hagain hloc ↦ ?_
      obtain ⟨hstate, hwin⟩ := hst hloc
      simp [closesAgain, ha, hb, hu, hps, hstate] at hagain
      exact hwin hagain

end

theorem flush_window {l l' : Life} {src : Bytes}
    (hw : Wrote l l' (src.take (sendable l.stream src.length))) :
    l'.stream.sendWindow = 0 ↔
      if l.stream.state.writeClosed then l.stream.sendWindow = 0
      else l.stream.sendWindow.toNat ≤ src.length := by
  have hwin := hw.window
  have hz : ∀ w : UInt32, w = 0 ↔ w.toNat = 0 := by
    intro w
    refine ⟨fun h ↦ by rw [h]; rfl, fun h ↦ UInt32.toNat_inj.mp h⟩
  rw [List.length_take] at hwin
  rw [hz, hz]
  unfold sendable at hwin
  split_ifs at hwin ⊢
  · omega
  · omega

theorem dispatch_steady {t : Conn} (ha : t.life.alive = true) (h : t.life.stream.state ≠ .init)
    (payload : Bytes) (replies : List Bytes)
    (halive : (dispatch E t payload replies).1.life.alive = true) :
    Steady t.life (dispatch E t payload replies).1.life := by
  obtain hd | hf | ⟨seen, rx, hd⟩ := dispatch_cases ha payload replies halive
  · rw [hd]
    exact foldl_write_steady h replies
  · rcases hf.life with hl | hl
    · rw [hl]
      exact .refl h
    · rw [hl]
      exact write_steady h noAuthResp
  · rw [hd]
    exact ⟨rfl, h, rfl, fun _ ↦ rfl, id, Nat.le_refl _⟩

theorem start_life (owner : Owner) (id : ℕ) (msg : Bytes) :
    ∃ l : Life, (Conn.start owner id msg).life = l.write msg ∧ l =
      { stream := initTmuxStream id .synSend, alive := true
        out := [tcpMuxSendWinUpdate TcpMuxFlag.syn.mask id 0], peerReset := false } :=
  ⟨_, rfl, rfl⟩

theorem opened_robust : Robust fun l ↦ l.stream.state ≠ .init where
  opened h := h
  quiet q h := q.state ▸ h
  wrote w _ := w.state_ne
  kept hp h := (processFlags_kept_state hp).1 h
  settle n h := by
    obtain ⟨st, w, frames, hl, hne, -⟩ := settle_cases h n
    rw [hl]
    exact hne

theorem close_opened {l : Life} (h : l.stream.state ≠ .init) : l.close.stream.state ≠ .init := by
  obtain ⟨-, hl⟩ | ⟨st, hwc, -, -, hl⟩ := close_cases l
  · rw [hl]
    exact h
  · rw [hl]
    exact ne_init_of_writeClosed hwc

theorem processData_opened {t : Conn} (ha : t.life.alive = true)
    (h : t.life.stream.state ≠ .init) (flags : ℕ) (payload : Bytes) (replies : List Bytes) :
    (processData E t flags payload replies).1.life.stream.state ≠ .init :=
  processData_robust opened_robust ha h
    (fun _ hp ↦ ne_init_of_writeClosed (processFlags_freed_state hp h).1) (.inr fun _ hl ↦ hl)

theorem step_opened {t : Conn} (h : t.life.stream.state ≠ .init) (e : Event) :
    (step E t e).life.stream.state ≠ .init :=
  step_robust opened_robust h
    (fun _ _ _ hp ↦ ne_init_of_writeClosed (processFlags_freed_state hp h).1) (fun _ hl _ ↦ hl)
    (.inr fun _ hl ↦ hl) fun _ hl _ ↦ close_opened hl

theorem start_disciplined (owner : Owner) (id : ℕ) (msg : Bytes) :
    Disciplined (Conn.start owner id msg).life := by
  obtain ⟨l, hl, hopen⟩ := start_life owner id msg
  have hsyn : hasFlag TcpMuxFlag.syn.mask .syn = true := by decide
  have hquiet : hasFlag TcpMuxFlag.syn.mask .fin = false ∧
      hasFlag TcpMuxFlag.syn.mask .rst = false := by decide
  have hd : Disciplined l := by
    rw [hopen]
    have hopen : TcpMuxState.synSend ≠ .init := by decide
    refine ⟨hopen, List.cons_ne_nil _ _, ⟨?_, List.pairwise_singleton _ _⟩, ?_, nofun⟩
    · intro f rest hout
      obtain ⟨rfl, rfl⟩ := List.cons.inj hout
      exact ⟨hsyn, nofun⟩
    · intro f hf hc
      obtain rfl := List.mem_singleton.mp hf
      have hno : (hasFlag TcpMuxFlag.syn.mask .fin || hasFlag TcpMuxFlag.syn.mask .rst) = true := hc
      rw [hquiet.1, hquiet.2] at hno
      cases hno
  rw [hl]
  exact disciplined_robust.write msg hd

structure ResetQuiet (l : Life) : Prop where
  opened : l.stream.state ≠ .init
  quiet : l.peerReset = true → l.alive = false ∧ l.stream.state.writeClosed = true

theorem resetQuiet_robust : Robust ResetQuiet where
  opened h := h.opened
  quiet q h := ⟨q.state ▸ h.opened, by rw [q.peerReset, q.alive, q.state]; exact h.quiet⟩
  wrote w h := ⟨w.state_ne, by rw [w.peerReset, w.alive, w.writeClosed]; exact h.quiet⟩
  kept hp h := by
    obtain ⟨hne, hwc, -⟩ := processFlags_kept_state hp
    exact ⟨hne h.opened, fun hr ↦ ⟨(h.quiet hr).1, hwc.trans (h.quiet hr).2⟩⟩
  settle n h := by
    obtain ⟨st, w, frames, hl, hne, hwc, -⟩ := settle_cases h.opened n
    rw [hl]
    exact ⟨hne, fun hr ↦ ⟨(h.quiet hr).1, hwc.trans (h.quiet hr).2⟩⟩

theorem ResetQuiet.freed {l : Life} {flags : ℕ} {st : TcpMuxState} (h : ResetQuiet l)
    (hp : processFlags flags l.stream = .freed { l.stream with state := st }) :
    ResetQuiet (l.freed flags { l.stream with state := st }) := by
  obtain ⟨hwc, -⟩ := processFlags_freed_state hp h.opened
  exact ⟨ne_init_of_writeClosed hwc, fun _ ↦ ⟨rfl, hwc⟩⟩

theorem ResetQuiet.delete {l : Life} (h : ResetQuiet l) : ResetQuiet l.delete :=
  ⟨h.opened, fun hr ↦ ⟨rfl, (h.quiet hr).2⟩⟩

theorem ResetQuiet.close {l : Life} (h : ResetQuiet l) : ResetQuiet l.close := by
  obtain ⟨-, hl⟩ | ⟨st, hwc, -, -, hl⟩ := close_cases l
  · rw [hl]
    exact h
  · rw [hl]
    refine ⟨ne_init_of_writeClosed hwc, fun hr ↦ ⟨?_, hwc⟩⟩
    have hr' : l.peerReset = true := hr
    show (l.alive && _) = false
    rw [(h.quiet hr').1]
    rfl

theorem step_resetQuiet {t : Conn} (h : ResetQuiet t.life) (e : Event) :
    ResetQuiet (step E t e).life :=
  step_robust resetQuiet_robust h (fun _ _ _ hp ↦ h.freed hp) (fun _ hl _ ↦ hl.delete)
    (.inr fun _ hl ↦ hl.delete) fun _ hl _ ↦ hl.close

theorem start_resetQuiet (owner : Owner) (id : ℕ) (msg : Bytes) :
    ResetQuiet (Conn.start owner id msg).life := by
  obtain ⟨l, hl, hopen⟩ := start_life owner id msg
  rw [hl]
  refine resetQuiet_robust.write msg ?_
  rw [hopen]
  exact ⟨(show TcpMuxState.synSend ≠ .init by decide), nofun⟩

structure Unreset (l : Life) : Prop where
  opened : l.stream.state ≠ .init
  unreset : l.peerReset = false

theorem Unreset.close {l : Life} (h : Unreset l) : Unreset l.close := by
  obtain ⟨-, hl⟩ | ⟨st, hwc, -, -, hl⟩ := close_cases l
  · rw [hl]
    exact h
  · rw [hl]
    exact ⟨ne_init_of_writeClosed hwc, h.unreset⟩

end Xfrpc.Tunnel.Closing
