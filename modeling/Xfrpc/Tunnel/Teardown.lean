import Xfrpc.Tunnel.Closing
import Xfrpc.Tunnel.Direct

namespace Xfrpc.Tunnel.Teardown

open Client Closing Control.Message Foundations.Runs Lifetime Mux.Header Mux.Stream Service
  StartWork

variable {E : Env}

def serverEnded (s : TmuxStream) : Bool :=
  s.state == .remoteClose || s.state == .closed || s.state == .reset

/-- The client of a tunnel both ends of which are gone is still there. -/
def Zombie (t : Conn) : Prop :=
  t.life.alive = true ∧ t.client.localEnded = true ∧ serverEnded t.life.stream = true

/-- The events that close the second end of a stream without removing it: a FIN
while the own FIN is put off and the frame brings no credit, and a local close on
a half-closed stream that the last bytes leave without a window. -/
def strands (t : Conn) : Event → Bool
  | .data flags payload _ =>
    t.life.alive && decide (payload ≠ [] ∧ payload.length ≤ maxStreamWindowSize) &&
      hasFlag flags .fin && !hasFlag flags .rst && t.client.localEnded &&
      !t.life.stream.state.writeClosed
  | .windowUpdate flags increment =>
    t.life.alive && !hasFlag flags .syn && hasFlag flags .fin && !hasFlag flags .rst &&
      t.client.localEnded && !t.life.stream.state.writeClosed &&
      decide (maxStreamWindowSize < increment ∨ addCredit t.life.stream.sendWindow increment = 0)
  | .closed w d =>
    t.life.alive && decide (t.life.stream.state = .remoteClose) && !isUdpProxy t.client.ps &&
      t.client.ps.isSome && (t.client.bevAt w).any fun b ↦
        decide (t.life.stream.sendWindow.toNat ≤ (b.lastRead d).input.length)
  | _ => false

structure Tame (t t' : Conn) : Prop where
  owner : t'.owner = t.owner
  life : Steady t.life t'.life
  pendingClose : t'.client.pendingClose = t.client.pendingClose
  ended : t'.client.localEnded = true → t.client.localEnded = true

theorem Tame.trans {t₁ t₂ t₃ : Conn} (h₁ : Tame t₁ t₂) (h₂ : Tame t₂ t₃) : Tame t₁ t₃ :=
  ⟨h₂.owner.trans h₁.owner, h₁.life.trans h₂.life, h₂.pendingClose.trans h₁.pendingClose,
    fun h ↦ h₁.ended (h₂.ended h)⟩

theorem Calm.ended {c c' : ProxyClient} (h : Calm c c') (he : c'.localEnded = true) :
    c.localEnded = true := by
  obtain ⟨out, hl⟩ | ⟨out, hl⟩ | hl := h.locals
  · rwa [locals_ended hl] at he
  · rw [locals_ended hl] at he
    simp [ProxyClient.openLocal] at he
  · rw [locals_ended hl] at he
    simpa [ProxyClient.openLocal] using he

theorem msgClient_tame (bufs : List Bytes) (n : ℕ) (c : ProxyClient) :
    (msgClient E bufs n c).pendingClose = c.pendingClose ∧
      ((msgClient E bufs n c).localEnded = true → c.localEnded = true) := by
  induction bufs generalizing n c with
  | nil => exact ⟨rfl, id⟩
  | cons buf bufs ih =>
    have hs := (verdict E buf n).client_started (E := E) c (tailOf buf) n
    obtain ⟨hp, he⟩ := ih (nextTick buf n) ((verdict E buf n).client E c (tailOf buf) n)
    exact ⟨hp.trans hs.pendingClose, fun h ↦ Started.ended hs (he h)⟩

theorem dispatch_tame {t : Conn} (ha : t.life.alive = true) (h : t.life.stream.state ≠ .init)
    (payload : Bytes) (replies : List Bytes)
    (halive : (dispatch E t payload replies).1.life.alive = true) :
    Tame t (dispatch E t payload replies).1 := by
  have hlife := dispatch_steady ha h payload replies halive
  obtain hd | hf | ⟨seen, rx, hd⟩ := dispatch_cases ha payload replies halive
  · rw [hd] at hlife ⊢
    exact ⟨rfl, hlife, rfl, id⟩
  · exact ⟨hf.owner, hlife, congrArg (fun p ↦ p.2.1) hf.client.upstream, Calm.ended hf.client⟩
  · obtain ⟨hp, he⟩ := msgClient_tame (E := E) (messages E t.life.stream payload) t.tick t.client
    rw [hd] at hlife ⊢
    exact ⟨rfl, hlife, hp, he⟩

/-- Where the ends of a stream stand while its client is there: once the local
connection has closed, the own FIN is out, or it is put off and the peer has not
sent its own. -/
structure Joined (t : Conn) : Prop where
  owner : t.owner = .client
  opened : t.life.stream.state ≠ .init
  closed : t.life.stream.state.writeClosed = true → t.life.stream.state = .localClose
  ended : t.client.localEnded = true → t.life.stream.state.writeClosed = false →
    t.life.stream.state ≠ .remoteClose ∧ t.client.pendingClose = true

theorem Joined.tame {t t' : Conn} (h : Joined t) (ht : Tame t t') : Joined t' := by
  refine ⟨ht.owner.trans h.owner, ht.life.opened, fun hc ↦ ?_, fun he hw ↦ ?_⟩
  · rw [ht.life.closed hc]
    exact h.closed (ht.life.writeClosed.symm.trans hc)
  · obtain ⟨hst, hp⟩ := h.ended (ht.ended he) (ht.life.writeClosed.symm.trans hw)
    exact ⟨fun hr ↦ hst (ht.life.remote hr), ht.pendingClose.trans hp⟩

theorem Joined.kept {t : Conn} (h : Joined t) {flags : ℕ} {st : TcpMuxState} {w : UInt32}
    {v : UInt32} (hp : processFlags flags t.life.stream = .kept { t.life.stream with state := st })
    (hno : t.client.localEnded = true → t.life.stream.state.writeClosed = false →
      hasFlag flags .fin = false) :
    Joined (t.setStream { t.life.stream with state := st, recvWindow := w, sendWindow := v }) := by
  obtain ⟨hne, hwc, hsame, hrem⟩ := processFlags_kept_state hp
  refine ⟨h.owner, hne h.opened, fun hc ↦ ?_, fun he hw ↦ ?_⟩
  · have hc' : t.life.stream.state.writeClosed = true := hwc.symm.trans hc
    exact (hsame hc').trans (h.closed hc')
  · have hw' : t.life.stream.state.writeClosed = false := hwc.symm.trans hw
    obtain ⟨hst, hpend⟩ := h.ended he hw'
    refine ⟨fun hr ↦ ?_, hpend⟩
    rcases hrem.mp hr with hr | ⟨hf, -⟩
    · exact hst hr
    · rw [hno he hw'] at hf
      cases hf

theorem kept_rst {flags : ℕ} {s : TmuxStream} (h : flagsFree flags s = false)
    (hw : s.state.writeClosed = false) (hr : s.state ≠ .remoteClose) (hi : s.state ≠ .init) :
    hasFlag flags .rst = false := by
  unfold flagsFree at h
  cases hs : s.state with
  | synSend => rwa [hs] at h
  | synReceived => rwa [hs] at h
  | established => rwa [hs] at h
  | remoteClose => exact absurd hs hr
  | init => exact absurd hs hi
  | localClose => rw [hs] at hw; cases hw
  | closed => rw [hs] at hw; cases hw
  | reset => rw [hs] at hw; cases hw

theorem close_alive {l : Life} (h : l.stream.state ≠ .init)
    (hc : l.stream.state.writeClosed = true → l.stream.state = .localClose)
    (ha : l.close.alive = true) : l.close.stream.state = .localClose := by
  obtain ⟨hst, -⟩ | ⟨st, -, -, -, hl⟩ := close_cases l
  · rcases hst with hst | hst | hst
    · have := hc (by rw [hst]; rfl)
      rw [hst] at this
      cases this
    · have := hc (by rw [hst]; rfl)
      rw [hst] at this
      cases this
    · exact absurd hst h
  · rw [hl] at ha ⊢
    simp only [Bool.and_eq_true, decide_eq_true_eq] at ha
    exact ha.2

theorem Joined.close {t : Conn} (h : Joined t) {l : Life} {c : ProxyClient}
    (hl : Steady t.life l) (ha : l.close.alive = true) :
    Joined { t with life := l.close, client := c } := by
  have hst : l.close.stream.state = .localClose := by
    refine close_alive hl.opened (fun hc ↦ ?_) ha
    rw [hl.closed hc]
    exact h.closed (hl.writeClosed.symm.trans hc)
  refine ⟨h.owner, ?_, fun _ ↦ hst, fun _ hw ↦ ?_⟩
  · show l.close.stream.state ≠ .init
    rw [hst]
    decide
  · have hw' : l.close.stream.state.writeClosed = false := hw
    rw [hst] at hw'
    cases hw'

theorem processData_joined {t : Conn} {flags : ℕ} {payload : Bytes} {replies : List Bytes}
    (ha : t.life.alive = true) (h : Joined t)
    (hno : t.client.localEnded = true → t.life.stream.state.writeClosed = false →
      hasFlag flags .rst = false → hasFlag flags .fin = false)
    (halive : (processData E t flags payload replies).1.life.alive = true) :
    Joined (processData E t flags payload replies).1 := by
  have hfin : flagsFree flags t.life.stream = false → t.client.localEnded = true →
      t.life.stream.state.writeClosed = false → hasFlag flags .fin = false := by
    intro hf he hw
    exact hno he hw (kept_rst hf hw (h.ended he hw).1 h.opened)
  obtain ⟨-, hp⟩ | ⟨-, -, st, -, hp⟩ | ⟨-, hf, st, hpf, ⟨-, hp⟩ | ⟨-, t₁, ht₁, hp⟩⟩ :=
    processData_cases (E := E) t flags payload replies
  · rw [hp]
    exact h
  · rw [hp] at halive
    cases halive
  · rw [hp]
    exact h.kept (w := t.life.stream.recvWindow) (v := t.life.stream.sendWindow) hpf (hfin hf)
  · have h₁ : Joined t₁ := by
      rw [ht₁]
      exact h.kept (v := t.life.stream.sendWindow) hpf (hfin hf)
    have ha₁ : t₁.life.alive = true := by rw [ht₁]; exact ha
    rw [hp] at halive ⊢
    unfold Conn.touch at halive ⊢
    dsimp only at halive ⊢
    by_cases hd : (dispatch E t₁ payload replies).1.life.alive = true
    · rw [if_pos hd]
      have ht := dispatch_tame ha₁ h₁.opened payload replies hd
      refine h₁.tame (ht.trans ⟨rfl, ?_, rfl, id⟩)
      exact settle_steady ht.life.opened payload.length
    · rw [if_neg hd] at halive
      exact absurd halive hd

theorem incrSendWindow_joined {t : Conn} {flags increment : ℕ} (h : Joined t)
    (hno : t.client.localEnded = true → t.life.stream.state.writeClosed = false →
      hasFlag flags .rst = false → hasFlag flags .fin = true →
        increment ≤ maxStreamWindowSize ∧ addCredit t.life.stream.sendWindow increment ≠ 0)
    (halive : (incrSendWindow t flags increment).life.alive = true) :
    Joined (incrSendWindow t flags increment) := by
  have hkept : ∀ {st} {v : UInt32}, flagsFree flags t.life.stream = false →
      processFlags flags t.life.stream = .kept { t.life.stream with state := st } →
      ¬ (increment ≤ maxStreamWindowSize ∧ addCredit t.life.stream.sendWindow increment ≠ 0) →
      Joined (t.setStream { t.life.stream with state := st, sendWindow := v }) := by
    intro st v hf hpf hcredit
    refine h.kept (w := t.life.stream.recvWindow) hpf fun he hw ↦ ?_
    by_contra hfin
    exact hcredit (hno he hw (kept_rst hf hw (h.ended he hw).1 h.opened) (by simpa using hfin))
  revert halive
  unfold incrSendWindow creditSendWindow
  obtain ⟨-, hpf⟩ | ⟨-, -, st, hpf⟩ | ⟨-, hf, st, hpf⟩ := processFlags_outcome flags t.life.stream
  · rw [hpf]
    exact fun _ ↦ h
  · rw [hpf]
    intro halive
    cases halive
  · rw [hpf]
    by_cases hinc : maxStreamWindowSize < increment
    · simp only [gt_iff_lt, if_pos hinc]
      exact fun _ ↦ hkept (v := t.life.stream.sendWindow) hf hpf fun hcr ↦ by omega
    simp only [gt_iff_lt, if_neg hinc]
    by_cases hz : addCredit t.life.stream.sendWindow increment = 0
    · rw [if_pos (.inl hz)]
      exact fun _ ↦ hkept hf hpf fun hcr ↦ hcr.2 hz
    rw [if_neg (not_or.mpr ⟨hz, by rw [h.owner]; decide⟩)]
    obtain ⟨hne, hwc, hsame, hrem⟩ := processFlags_kept_state hpf
    by_cases hpend : t.client.pendingClose = true
    · rw [if_pos hpend]
      intro halive
      have hst := close_alive (hne h.opened)
        (fun hcl ↦ (hsame (hwc.symm.trans hcl)).trans (h.closed (hwc.symm.trans hcl))) halive
      refine ⟨h.owner, fun hi ↦ ?_, fun _ ↦ hst, fun _ hw ↦ ?_⟩
      · exact absurd (hst.symm.trans hi) (by decide)
      · have hw' : (TcpMuxState.localClose).writeClosed = false := hst ▸ hw
        cases hw'
    · rw [if_neg hpend]
      have hj : Joined (t.setStream { t.life.stream with
          state := st, sendWindow := addCredit t.life.stream.sendWindow increment }) := by
        refine h.kept (w := t.life.stream.recvWindow) hpf fun he hw ↦ ?_
        exact absurd (h.ended he hw).2 hpend
      intro _
      split_ifs
      · exact ⟨hj.owner, hj.opened, hj.closed, hj.ended⟩
      · exact hj

theorem parked_same (c : ProxyClient) (w : Which) (b : LocalBev) (rest : Bytes) (ev : Bool) :
    (parked E c w b rest ev).pendingClose = c.pendingClose ∧
      (parked E c w b rest ev).localEnded = c.localEnded := by
  obtain ⟨bev, orphans, ctx, pending, heq⟩ := parked_eq (E := E) c w b rest ev
  rw [heq]
  exact ⟨rfl, rfl⟩

theorem tcpProxyC2sCb_tame {t : Conn} (w : Which) {b : LocalBev} (hb : b.input ≠ [])
    (h : t.life.stream.state ≠ .init) (halive : (tcpProxyC2sCb E t w b).life.alive = true) :
    Tame t (tcpProxyC2sCb E t w b) := by
  obtain ⟨l, hw, hcb⟩ := tcpProxyC2sCb_spec (E := E) h w hb rfl
  have hl := hw.steady
  rw [hcb] at halive ⊢
  cases hend : writeEnd t.life.stream (toSend E t.client b.input) with
  | done =>
    obtain ⟨hp, he⟩ := parked_same (E := E) t.client w b [] b.evRead
    exact ⟨rfl, hl, hp, fun h ↦ he ▸ h⟩
  | blocked =>
    obtain ⟨hp, he⟩ := parked_same (E := E) t.client w b _ false
    exact ⟨rfl, hl, hp, fun h ↦ he ▸ h⟩
  | failed =>
    rw [hend] at halive
    cases halive

theorem sendClientDataTail_same (c : ProxyClient) :
    (sendClientDataTail E c).pendingClose = c.pendingClose ∧
      (sendClientDataTail E c).localEnded = c.localEnded := by
  obtain ⟨bev, ctx, tail, heq⟩ := sendClientDataTail_eq (E := E) c
  rw [heq]
  exact ⟨rfl, rfl⟩

theorem onConnected_tame {t : Conn} (h : t.life.stream.state ≠ .init) (w : Which) (b : LocalBev) :
    Tame t (onConnected E t w b) := by
  unfold onConnected handlePostConnectionData
  have hp := t.client.setBev_pendingClose { b with connecting := false } w
  have he := t.client.setBev_localEnded { b with connecting := false } w
  dsimp only
  by_cases hc : b.connecting = true
  · rw [if_pos hc]
    split_ifs
    · obtain ⟨bev, buf, heq⟩ := socks5Established_eq
        (t.client.setBev { b with connecting := false } w)
      rw [heq]
      exact ⟨rfl, write_steady h successReply, hp, fun hend ↦ he ▸ hend⟩
    · obtain ⟨hp', he'⟩ := sendClientDataTail_same (E := E)
        (t.client.setBev { b with connecting := false } w)
      exact ⟨rfl, .refl h, hp'.trans hp, fun hend ↦ he ▸ he' ▸ hend⟩
  · rw [if_neg hc]
    exact ⟨rfl, .refl h, rfl, id⟩

theorem handleProxyDisconnect_joined {t : Conn} (h : Joined t) (w : Which) (b : LocalBev)
    (hno : t.client.ps.isSome = true → t.life.stream.state = .remoteClose →
      b.input.length < t.life.stream.sendWindow.toNat)
    (halive : (handleProxyDisconnect t w b).life.alive = true) :
    Joined (handleProxyDisconnect t w b) := by
  revert halive
  unfold handleProxyDisconnect
  by_cases hps : t.client.ps.isNone = true
  · rw [if_pos hps]
    exact fun _ ↦ h
  · rw [if_neg hps]
    obtain ⟨l, hw, hl⟩ := writeAll_spec h.opened b.input
    have hwin := flush_window hw
    have hst := hw.steady
    rw [hl]
    dsimp only
    by_cases hz : l.stream.sendWindow = 0
    · rw [if_pos hz]
      intro _
      refine ⟨h.owner, hst.opened, fun hc ↦ ?_, fun _ hopen ↦ ⟨fun hr ↦ ?_, rfl⟩⟩
      · exact (hst.closed hc).trans (h.closed (hst.writeClosed.symm.trans hc))
      · have hrem := hst.remote hr
        have hlt := hno (by simpa [Option.isNone_iff_eq_none, Option.isSome_iff_ne_none] using hps) hrem
        rw [hwin, hrem, if_neg (by decide)] at hz
        omega
    · rw [if_neg hz]
      exact fun ha ↦ h.close hst ha

theorem step_joined {t : Conn} {e : Event} (h : t.life.alive = true → Joined t)
    (hno : strands t e = false) (halive : (step E t e).life.alive = true) :
    Joined (step E t e) := by
  revert halive
  cases e with
  | data flags payload replies =>
    simp only [step]
    by_cases hd : t.life.alive = true ∧ payload ≠ [] ∧ payload.length ≤ maxStreamWindowSize
    · rw [if_pos hd]
      refine processData_joined hd.1 (h hd.1) fun he hw hrst ↦ ?_
      simpa [strands, hd.1, hd.2, he, hw, hrst] using hno
    · rw [if_neg hd]
      exact h
  | windowUpdate flags increment =>
    simp only [step]
    by_cases hd : t.life.alive = true ∧ hasFlag flags .syn = false
    · rw [if_pos hd]
      refine incrSendWindow_joined (h hd.1) fun he hw hrst hfin ↦ ?_
      simpa [strands, hd.1, hd.2, he, hw, hrst, hfin, not_or] using hno
    · rw [if_neg hd]
      exact h
  | send src =>
    simp only [step]
    split_ifs
    · intro ha
      have hj := h ha
      exact hj.tame ⟨rfl, write_steady hj.opened src, rfl, id⟩
    · exact h
  | connected w =>
    refine withBev_ind (P := fun t' ↦ t'.life.alive = true → Joined t') h fun b ha _ _ ↦ ?_
    exact (h ha).tame (onConnected_tame (h ha).opened w b)
  | readable w d =>
    refine withBev_ind (P := fun t' ↦ t'.life.alive = true → Joined t') h fun b ha _ ↦ ?_
    have hj := h ha
    unfold onReadable readCb
    split_ifs with hd hstub
    · have hp := t.client.setBev_pendingClose { b with input := b.input ++ d } w
      have he := t.client.setBev_localEnded { b with input := b.input ++ d } w
      exact fun _ ↦ hj.tame ⟨rfl, .refl hj.opened, hp, fun hend ↦ he ▸ hend⟩
    · intro halive
      exact hj.tame
        (tcpProxyC2sCb_tame w (List.append_ne_nil_of_right_ne_nil _ hd.2.2) hj.opened halive)
    · exact h
  | closed w d =>
    refine withBev_ind (P := fun t' ↦ t'.life.alive = true → Joined t') h fun b ha hb ↦ ?_
    have hj := h ha
    unfold onClosed
    by_cases hu : isUdpProxy t.client.ps = true
    · rw [if_pos hu]
      have hp := t.client.setBev_pendingClose (b.lastRead d) w
      have he := t.client.setBev_localEnded (b.lastRead d) w
      exact fun _ ↦ hj.tame ⟨rfl, .refl hj.opened, hp, fun hend ↦ he ▸ hend⟩
    · rw [if_neg hu]
      refine handleProxyDisconnect_joined hj w (b.lastRead d) fun hps hrem ↦ ?_
      simpa [strands, ha, hb, hu, hps, hrem] using hno

theorem start_joined (id : ℕ) (msg : Bytes) : Joined (.start .client id msg) := by
  obtain ⟨l, hl, hopen⟩ := start_life .client id msg
  have hne : l.stream.state ≠ .init := by
    rw [hopen]
    exact (show TcpMuxState.synSend ≠ .init by decide)
  have hs := write_steady hne msg
  refine ⟨rfl, (start_resetQuiet .client id msg).opened, fun hc ↦ ?_, fun he ↦ ?_⟩
  · rw [hl, hs.writeClosed, hopen] at hc
    cases hc
  · cases he

theorem Joined.not_zombie {t : Conn} (h : t.life.alive = true → Joined t) : ¬ Zombie t := by
  rintro ⟨ha, he, hs⟩
  have hj := h ha
  unfold serverEnded at hs
  cases hst : t.life.stream.state with
  | remoteClose => exact (hj.ended he (by rw [hst]; rfl)).1 hst
  | closed =>
    have hloc := hj.closed (by rw [hst]; rfl)
    rw [hst] at hloc
    cases hloc
  | reset =>
    have hloc := hj.closed (by rw [hst]; rfl)
    rw [hst] at hloc
    cases hloc
  | _ =>
    rw [hst] at hs
    cases hs

/-- The callbacks of `start_xfrp_tunnel` are on the work connection of every
client that has or had a local connection. -/
def Wired (c : ProxyClient) : Prop := c.workCb = .start → locals c = (none, [], false)

theorem startClient_wired {c : ProxyClient} (h : Wired c) (ps : ProxyService) (n : ℕ) :
    Wired (startClient (Direct.direct E) c ps n) := by
  obtain ⟨enc, dec, hinit⟩ := initCrypto_eq (E := Direct.direct E) c ps n
  unfold startClient
  split_ifs
  · exact h
  · rcases localConnection (Direct.direct E) ps n with _ | _ | b
    · dsimp only
      rw [hinit]
      exact h
    · dsimp only
      rw [hinit]
      intro hcb
      have hl := h hcb
      simp only [locals, Prod.mk.injEq] at hl
      simp [locals, ProxyClient.openLocal, hl]
    · intro hcb
      simp only [setupProxyCallbacks, Direct.direct, Bool.false_eq_true, if_false] at hcb
      split_ifs at hcb

theorem acceptClient_wired {c : ProxyClient} (h : Wired c) (ps : ProxyService) (rest : Bytes)
    (n : ℕ) : Wired (acceptClient (Direct.direct E) c ps rest n) := by
  have h₁ : Wired { c with ps := some ps, dataTail := if rest = [] then c.dataTail else rest } := h
  unfold acceptClient
  dsimp only
  by_cases hx : ps.proxyType = .xtcp
  · rw [if_pos hx]
    exact h₁
  rw [if_neg hx]
  by_cases hm : amiss (Direct.direct E) ps n = some .localConnect
  · rw [if_pos hm]
    exact startClient_wired h₁ ps n
  · rw [if_neg hm]
    exact startClient_wired h₁ ps n

theorem msgClient_wired (bufs : List Bytes) {n : ℕ} {c : ProxyClient} (h : Wired c) :
    Wired (msgClient (Direct.direct E) bufs n c) := by
  induction bufs generalizing n c with
  | nil => exact h
  | cons buf bufs ih =>
    refine ih ?_
    cases verdict (Direct.direct E) buf n with
    | other => exact h
    | refused why => exact h
    | accepted ps why => exact acceptClient_wired h ps (tailOf buf) n

/-- What holds of a client with a work connection of its own: it is never removed
once its local connection has closed. -/
structure Own (t : Direct.Work) : Prop where
  stream : t.conn.life.alive = true → t.conn.life.stream.state = .init
  wired : t.conn.life.alive = true → Wired t.client
  kept : t.client.localEnded = true → t.conn.life.alive = true

theorem handleNonMux_own {t : Direct.Work} (h : Own t) (ha : t.conn.life.alive = true)
    (hcb : t.client.workCb = .start) : Own (Direct.handleNonMux E t) := by
  unfold Direct.handleNonMux
  by_cases hne : t.input = []
  · rw [handleFrpsMsg, if_pos hne]
    exact ⟨h.stream, h.wired, h.kept⟩
  by_cases hk : Kept (Direct.direct E) (messages (Direct.direct E) t.conn.life.stream t.input)
      t.conn.tick
  · obtain ⟨seen, rx, hmsg⟩ := handleFrpsMsg_kept ha hne hk
    rw [hmsg]
    exact ⟨fun _ ↦ h.stream ha, fun _ ↦ msgClient_wired _ (h.wired ha), fun _ ↦ ha⟩
  · obtain ⟨⟨seen, rx, hlife⟩, hended, -⟩ := handleFrpsMsg_removed ha hne hk
    have hdead : (handleFrpsMsg (Direct.direct E) t.conn t.input).life.alive = false := by
      rw [hlife]
    refine ⟨fun halive ↦ ?_, fun halive ↦ ?_, fun he ↦ ?_⟩
    · rw [hdead] at halive
      cases halive
    · rw [hdead] at halive
      cases halive
    · have hnone : t.conn.client.localEnded = false := locals_ended (c := .new) (h.wired ha hcb)
      rw [hended he] at hnone
      cases hnone

theorem tcpProxyS2cCb_own {t : Direct.Work} (h : Own t) (hcb : t.client.workCb ≠ .start) :
    Own (Direct.tcpProxyS2cCb E t) := by
  obtain ⟨ctx, hdec⟩ := decode_eq (E := E) t.client t.input
  unfold Direct.tcpProxyS2cCb
  dsimp only
  split_ifs
  · exact h
  · rw [hdec]
    exact ⟨h.stream, fun _ hs ↦ absurd hs hcb, h.kept⟩
  · exact ⟨h.stream, fun _ hs ↦ absurd hs hcb, h.kept⟩

theorem Own.started {t : Direct.Work} (h : Own t) (ha : t.conn.life.alive = true) {w : Which}
    {b : LocalBev} (hb : t.client.bevAt w = some b) : t.client.workCb ≠ .start := by
  intro hcb
  have hl := h.wired ha hcb
  simp only [locals, Prod.mk.injEq] at hl
  cases w with
  | current =>
    rw [ProxyClient.bevAt, hl.1] at hb
    cases hb
  | orphan i =>
    rw [ProxyClient.bevAt, hl.2.1] at hb
    cases hb

theorem Own.local {t t' : Direct.Work} (h : Own t) (ha : t.conn.life.alive = true) {w : Which}
    {b : LocalBev} (hb : t.client.bevAt w = some b) (hcb : t'.client.workCb = t.client.workCb)
    (hl : t'.conn.life = t.conn.life) : Own t' := by
  have hstarted := h.started ha hb
  refine ⟨fun _ ↦ ?_, fun _ hs ↦ absurd (hcb.symm.trans hs) hstarted, fun _ ↦ ?_⟩
  · rw [hl]
    exact h.stream ha
  · rw [hl]
    exact ha

theorem sendClientDataTail_workCb (c : ProxyClient) :
    (sendClientDataTail E c).workCb = c.workCb := by
  obtain ⟨bev, ctx, tail, heq⟩ := sendClientDataTail_eq (E := E) c
  rw [heq]

theorem socks5Established_workCb (c : ProxyClient) : (socks5Established c).workCb = c.workCb := by
  obtain ⟨bev, buf, heq⟩ := socks5Established_eq c
  rw [heq]

theorem workReadCb_own {t : Direct.Work} (h : Own t) (ha : t.conn.life.alive = true) :
    Own (Direct.workReadCb E t) := by
  unfold Direct.workReadCb
  split
  · next hcb => exact handleNonMux_own h ha hcb
  · next hcb => exact tcpProxyS2cCb_own h (by rw [hcb]; decide)
  · exact h

theorem workEventCb_own {t : Direct.Work} (h : Own t) (ha : t.conn.life.alive = true) :
    Own (Direct.workEventCb t) := by
  unfold Direct.workEventCb
  split
  · next hcb =>
    refine ⟨fun hal ↦ ?_, fun hal ↦ ?_, fun he ↦ ?_⟩
    · cases hal
    · cases hal
    · have hnone : t.client.localEnded = false := locals_ended (c := .new) (h.wired ha hcb)
      have he' : t.client.localEnded = true := he
      rw [hnone] at he'
      cases he'
  · exact ⟨h.stream, h.wired, h.kept⟩
  · exact ⟨h.stream, h.wired, h.kept⟩

section LocalEvents

variable {t : Direct.Work} (h : Own t) (ha : t.conn.life.alive = true) {w : Which} {b : LocalBev}
  (hb : t.client.bevAt w = some b)

include h ha hb

theorem onConnected_own : Own (Direct.onConnected E t w b) := by
  unfold Direct.onConnected Direct.handlePostConnectionData
  split_ifs
  · refine h.local ha hb ?_ rfl
    exact (socks5Established_workCb _).trans (ProxyClient.setBev_workCb _ _ w)
  · refine h.local ha hb ?_ rfl
    exact (sendClientDataTail_workCb _).trans (ProxyClient.setBev_workCb _ _ w)
  · exact h

theorem onReadable_own (d : Bytes) : Own (Direct.onReadable E t w d b) := by
  unfold Direct.onReadable Direct.tcpProxyC2sCb
  obtain ⟨ctx, henc⟩ := encode_eq (E := E) t.client (b.input ++ d)
  dsimp only
  split_ifs
  · exact h.local ha hb (ProxyClient.setBev_workCb _ _ w) rfl
  · exact h.local ha hb (ProxyClient.setBev_workCb _ _ w) rfl
  · refine h.local ha hb ?_ rfl
    rw [henc]
    exact ProxyClient.setBev_workCb { t.client with encryptCtx := ctx } _ w
  · exact h.local ha hb (ProxyClient.setBev_workCb _ _ w) rfl
  · exact h

theorem onClosed_own (d : Bytes) : Own (Direct.onClosed t w d b) := by
  have hfree : (t.client.freeBev w).workCb = t.client.workCb := by cases w <;> rfl
  have hclose : t.conn.life.close = t.conn.life := by
    unfold Life.close tmuxStreamClose
    rw [h.stream ha]
    simp
  unfold Direct.onClosed Direct.handleProxyDisconnect
  dsimp only
  split_ifs
  · exact h.local ha hb (ProxyClient.setBev_workCb _ _ w) rfl
  · exact h
  · exact h.local ha hb hfree rfl
  · exact h.local ha hb hfree hclose

end LocalEvents

theorem direct_step_own {t : Direct.Work} (h : Own t) (e : Direct.Event) :
    Own (Direct.step E t e) := by
  unfold Direct.step
  by_cases hdead : t.conn.life.alive = false
  · rw [if_pos hdead]
    exact h
  rw [if_neg hdead]
  have ha : t.conn.life.alive = true := by simpa using hdead
  have hin : ∀ d : Bytes, Own { t with input := t.input ++ d } :=
    fun _ ↦ ⟨h.stream, h.wired, h.kept⟩
  cases e with
  | work d =>
    dsimp only
    split_ifs
    · exact workReadCb_own (hin d) ha
    · exact h
  | workClosed d =>
    dsimp only
    split_ifs
    · exact workEventCb_own (hin d) ha
    · exact h
  | connected w => exact Direct.withBev_ind h fun _ hb ↦ onConnected_own h ha hb
  | readable w d => exact Direct.withBev_ind h fun _ hb ↦ onReadable_own h ha hb d
  | closed w d => exact Direct.withBev_ind h fun _ hb ↦ onClosed_own h ha hb d

theorem start_own (id : ℕ) (msg : Bytes) : Own (.start id msg) :=
  ⟨fun _ ↦ rfl, fun _ _ ↦ rfl, fun _ ↦ rfl⟩

/-- The local connection and the work connection of a client have both ended. -/
def bothEnded (t : Direct.Work) : Bool := t.client.localEnded && !t.ctlBev

/-- With `tcp_mux` no client outlives both ends of its tunnel, in the runs where no
event strands it; without it, every client does. -/
theorem no_zombies_unless_stranded (id : ℕ) (msg : Bytes) :
    (∀ events, Along (step E) (fun t e ↦ strands t e = false) (.start .client id msg) events →
      Always (step E) (fun t ↦ ¬ Zombie t) (.start .client id msg) events) ∧
    ∀ events, Always (Direct.step E) (fun t ↦ bothEnded t = true → t.conn.life.alive = true)
      (.start id msg) events := by
  constructor
  · intro events hall
    have hjoined := always_of_along (P := fun t ↦ t.life.alive = true → Joined t)
      (fun _ _ h hno ↦ step_joined h hno) (fun _ ↦ start_joined id msg) hall
    exact hjoined.mono fun _ h ↦ Joined.not_zombie h
  · intro events
    have hown := always_of_step (P := Own) (fun _ e h ↦ direct_step_own (E := E) h e)
      (start_own id msg) events
    refine hown.mono fun t h hboth ↦ h.kept ?_
    simp only [bothEnded, Bool.and_eq_true] at hboth
    exact hboth.1

/-- The server half-closes a connected tunnel, and then the local service closes. -/
def finThenClose : List Event :=
  [startFrame, .connected .current, .windowUpdate TcpMuxFlag.fin.mask 0, .closed .current []]

theorem no_zombies_finThenClose :
    Always (step (sampleEnv samplePs true)) (fun t ↦ ¬ Zombie t) (.start .client 3 [])
      finThenClose :=
  (no_zombies_unless_stranded 3 []).1 finThenClose (by decide)

/-- The same on a work connection: the local service closes, then the server. -/
def closeThenEof : List Direct.Event :=
  [.work (frameMsg MsgType.startWorkConn.code [0x7b, 0x7d]), .connected .current,
   .closed .current [], .workClosed []]

theorem zombie_without_tcpMux :
    ¬ Always (Direct.step (sampleEnv samplePs true))
      (fun t ↦ bothEnded t = true → t.conn.life.alive = false) (.start 3 []) closeThenEof := by
  intro h
  exact absurd (h.last (by decide)) (by decide)

end Xfrpc.Tunnel.Teardown
