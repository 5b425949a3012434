import Xfrpc.Tunnel.Closing

namespace Xfrpc.Tunnel.Backlog

open Client Closing Foundations.Runs Lifetime Mux.Header Mux.Stream Service StartWork

variable {E : Env}

def LocalBev.holds (b : LocalBev) : Bool := decide (b.input ≠ [])

def waiting (c : ProxyClient) : Bool :=
  decide (c.encPending ≠ []) || c.localProxyBev.any LocalBev.holds || c.orphans.any LocalBev.holds

/-- They are waiting although the stream is open and may send. -/
def Stranded (t : Conn) : Prop :=
  t.life.alive = true ∧ t.life.stream.state.writeClosed = false ∧
    t.life.stream.sendWindow ≠ 0 ∧ waiting t.client = true

/-- The events that leave bytes waiting on a stream that may send: a WINDOW_UPDATE
on a stream with bytes waiting, and what a UDP socket receives. -/
def stalls (t : Conn) : Event → Bool
  | .windowUpdate flags increment =>
    t.life.alive && !hasFlag flags .syn && !flagsRefused flags t.life.stream &&
      !flagsFree flags t.life.stream && decide (increment ≤ maxStreamWindowSize) &&
      decide (addCredit t.life.stream.sendWindow increment ≠ 0) &&
      !(t.client.pendingClose && decide (t.owner = .client)) &&
      !t.life.stream.state.writeClosed && waiting t.client
  | .readable w d =>
    t.life.alive && !t.life.stream.state.writeClosed && decide (t.life.stream.sendWindow ≠ 0) &&
      (t.client.bevAt w).any fun b ↦
        !b.connecting && b.evRead && decide (d ≠ []) && b.stub
  | .closed w d =>
    t.life.alive && !t.life.stream.state.writeClosed && decide (t.life.stream.sendWindow ≠ 0) &&
      isUdpProxy t.client.ps && (t.client.bevAt w).any fun b ↦ decide ((b.lastRead d).input ≠ [])
  | _ => false

theorem waiting_eq_false {c : ProxyClient} :
    waiting c = false ↔ c.encPending = [] ∧ ∀ w b, c.bevAt w = some b → b.input = [] := by
  unfold waiting LocalBev.holds
  simp only [Bool.or_eq_false_iff, decide_eq_false_iff_not, not_not, Option.any_eq_false,
    List.any_eq_false, decide_eq_true_eq]
  constructor
  · rintro ⟨⟨he, hc⟩, ho⟩
    refine ⟨he, fun w b hb ↦ ?_⟩
    cases w with
    | current => simpa using hc b hb
    | orphan i => simpa using ho b (List.mem_of_getElem? hb)
  · rintro ⟨he, hall⟩
    refine ⟨⟨he, fun b hb ↦ ?_⟩, fun b hb ↦ ?_⟩
    · simpa using hall .current b hb
    · obtain ⟨i, hi⟩ := List.mem_iff_getElem?.mp hb
      simpa using hall (.orphan i) b hi

theorem bevAt_setBev {c : ProxyClient} {w : Which} {b : LocalBev} (hb : c.bevAt w = some b)
    (b' : LocalBev) (w' : Which) :
    (c.setBev b' w).bevAt w' = if w' = w then some b' else c.bevAt w' := by
  cases w with
  | current => cases w' <;> simp [ProxyClient.setBev, ProxyClient.bevAt]
  | orphan i =>
    have hi : i < c.orphans.length := by
      by_contra hle
      rw [ProxyClient.bevAt, List.getElem?_eq_none (Nat.le_of_not_lt hle)] at hb
      cases hb
    cases w' with
    | current => simp [ProxyClient.setBev, ProxyClient.bevAt]
    | orphan j =>
      by_cases hij : j = i
      · subst hij
        simp [ProxyClient.setBev, ProxyClient.bevAt, hi]
      · simp [ProxyClient.setBev, ProxyClient.bevAt, hij, List.getElem?_set_ne (Ne.symm hij)]

theorem waiting_setBev_nil {c : ProxyClient} {w : Which} {b b' : LocalBev}
    (hb : c.bevAt w = some b) (hin : b'.input = []) (h : waiting c = false) :
    waiting (c.setBev b' w) = false := by
  obtain ⟨he, hall⟩ := waiting_eq_false.mp h
  refine waiting_eq_false.mpr ⟨(c.setBev_encPending b' w).trans he, fun w' b'' hb'' ↦ ?_⟩
  rw [bevAt_setBev hb] at hb''
  split_ifs at hb''
  · cases hb''
    exact hin
  · exact hall w' b'' hb''

theorem waiting_setBev_ne {c : ProxyClient} {w : Which} {b b' : LocalBev}
    (hb : c.bevAt w = some b) (hin : b'.input ≠ []) : waiting (c.setBev b' w) = true := by
  by_contra h
  obtain ⟨-, hall⟩ := waiting_eq_false.mp (by simpa using h)
  exact hin (hall w b' (by rw [bevAt_setBev hb, if_pos rfl]))

theorem waiting_setBev_same {c : ProxyClient} {w : Which} {b b' : LocalBev}
    (hb : c.bevAt w = some b) (hin : b'.input = b.input) :
    waiting (c.setBev b' w) = waiting c := by
  cases h : waiting c with
  | false =>
    refine waiting_setBev_nil hb ?_ h
    rw [hin]
    exact (waiting_eq_false.mp h).2 w b hb
  | true =>
    by_contra hno
    obtain ⟨he, hall⟩ := waiting_eq_false.mp (by simpa using hno)
    have hidle : waiting c = false := by
      refine waiting_eq_false.mpr ⟨(c.setBev_encPending b' w).symm.trans he, fun w' b'' hb'' ↦ ?_⟩
      by_cases hw : w' = w
      · subst hw
        obtain rfl : b = b'' := Option.some.inj (hb.symm.trans hb'')
        exact hin.symm.trans (hall w' b' (by rw [bevAt_setBev hb, if_pos rfl]))
      · exact hall w' b'' (by rw [bevAt_setBev hb, if_neg hw]; exact hb'')
    rw [hidle] at h
    cases h

theorem waiting_locals {c c' : ProxyClient} (he : c'.encPending = c.encPending)
    (hl : locals c' = locals c) : waiting c' = waiting c := by
  simp only [locals, Prod.mk.injEq] at hl
  simp [waiting, he, hl.1, hl.2.1]

theorem waiting_queue (c : ProxyClient) (out : Bytes) : waiting (c.queue out) = waiting c := by
  unfold waiting ProxyClient.queue
  cases c.localProxyBev <;> rfl

theorem waiting_openLocal (c : ProxyClient) {bev : Option LocalBev}
    (h : ∀ b ∈ bev, b.input = []) : waiting (c.openLocal bev) = waiting c := by
  have hbev : bev.any LocalBev.holds = false := by
    rw [Option.any_eq_false]
    intro b hb
    simp [LocalBev.holds, h b hb]
  cases hc : c.localProxyBev <;>
    simp [waiting, ProxyClient.openLocal, hbev, hc, Bool.or_comm, Bool.or_left_comm]

theorem Calm.waiting {c c' : ProxyClient} (h : Calm c c') : waiting c' = waiting c := by
  have he : c'.encPending = c.encPending := congrArg (fun p ↦ p.2.2.2.2.2) h.upstream
  obtain ⟨out, hl⟩ | ⟨out, hl⟩ | hl := h.locals
  · exact (waiting_locals (c := c.queue out) he hl).trans (waiting_queue c out)
  · refine (waiting_locals (c := c.openLocal (some (.tcp out))) he hl).trans (waiting_openLocal c ?_)
    rintro b ⟨rfl⟩
    rfl
  · refine (waiting_locals (c := c.openLocal none) he hl).trans (waiting_openLocal c ?_)
    rintro b ⟨⟩

theorem Started.waiting {c c' : ProxyClient} (h : Started c c') : waiting c' = waiting c := by
  obtain hl | hl | ⟨b, hb, hl⟩ := h.locals
  · exact waiting_locals h.encPending hl
  · refine (waiting_locals (c := c.openLocal none) h.encPending hl).trans (waiting_openLocal c ?_)
    rintro b ⟨⟩
  · refine (waiting_locals (c := c.openLocal (some b)) h.encPending hl).trans
      (waiting_openLocal c ?_)
    rintro b' ⟨rfl⟩
    rcases hb with rfl | rfl <;> rfl

theorem msgClient_waiting (bufs : List Bytes) (n : ℕ) (c : ProxyClient) :
    waiting (msgClient E bufs n c) = waiting c := by
  induction bufs generalizing n c with
  | nil => rfl
  | cons buf bufs ih =>
    exact (ih _ _).trans (Started.waiting ((verdict E buf n).client_started c (tailOf buf) n))

theorem dispatch_waiting {t : Conn} (ha : t.life.alive = true) (payload : Bytes)
    (replies : List Bytes) (halive : (dispatch E t payload replies).1.life.alive = true) :
    waiting (dispatch E t payload replies).1.client = waiting t.client := by
  obtain hd | hf | ⟨seen, rx, hd⟩ := dispatch_cases ha payload replies halive
  · rw [hd]
  · exact Calm.waiting hf.client
  · rw [hd]
    exact msgClient_waiting _ _ _

theorem stranded_before {t t' : Conn} (h : Stranded t') (hl : Steady t.life t'.life)
    (hw : waiting t'.client = waiting t.client) : Stranded t := by
  obtain ⟨ha, hopen, hwin, hwait⟩ := h
  refine ⟨hl.alive.symm.trans ha, hl.writeClosed.symm.trans hopen, fun hz ↦ hwin ?_,
    hw.symm.trans hwait⟩
  have hle := hl.window
  rw [hz] at hle
  exact UInt32.toNat_inj.mp (Nat.le_zero.mp hle)

theorem processData_stranded {t : Conn} {flags : ℕ} {payload : Bytes} {replies : List Bytes}
    (ha : t.life.alive = true) (h : t.life.stream.state ≠ .init) (hno : ¬ Stranded t) :
    ¬ Stranded (processData E t flags payload replies).1 := by
  obtain ⟨-, hp⟩ | ⟨-, -, st, -, hp⟩ | ⟨-, -, st, hpf, ⟨-, hp⟩ | ⟨-, t₁, ht₁, hp⟩⟩ :=
    processData_cases (E := E) t flags payload replies
  · rw [hp]
    exact hno
  · rw [hp]
    rintro ⟨halive, -⟩
    cases halive
  · obtain ⟨-, hwc, -⟩ := processFlags_kept_state hpf
    rw [hp]
    rintro ⟨halive, hopen, hwin, hwait⟩
    exact hno ⟨halive, hwc.symm.trans hopen, hwin, hwait⟩
  · obtain ⟨hne, hwc, -⟩ := processFlags_kept_state hpf
    have h₁ : t₁.life.stream.state ≠ .init := by
      rw [ht₁]
      exact hne h
    have ha₁ : t₁.life.alive = true := by rw [ht₁]; exact ha
    rw [hp]
    intro hs
    have halive : (dispatch E t₁ payload replies).1.life.alive = true := by
      have hal := hs.1
      unfold Conn.touch at hal
      dsimp only at hal
      split_ifs at hal with hd
      · exact hd
      · exact absurd hal hd
    rw [Conn.touch, if_pos halive] at hs
    have hwait := dispatch_waiting ha₁ payload replies halive
    have hlife := dispatch_steady ha₁ h₁ payload replies halive
    obtain ⟨ha', hopen, hwin, hw⟩ := stranded_before (t := t₁) hs
      (hlife.trans (settle_steady hlife.opened payload.length)) hwait
    rw [ht₁] at ha' hopen hwin hw
    exact hno ⟨ha', hwc.symm.trans hopen, hwin, hw⟩

theorem close_not_open {l : Life} (h : l.stream.state ≠ .init) :
    l.close.stream.state.writeClosed = true := by
  obtain ⟨hst, hl⟩ | ⟨st, hwc, -, -, hl⟩ := close_cases l
  · rw [hl]
    rcases hst with hst | hst | hst
    · rw [hst]
      rfl
    · rw [hst]
      rfl
    · exact absurd hst h
  · rw [hl]
    exact hwc

theorem incrSendWindow_stranded {t : Conn} {flags increment : ℕ} (ha : t.life.alive = true)
    (hsyn : hasFlag flags .syn = false) (h : t.life.stream.state ≠ .init) (hno : ¬ Stranded t) :
    ¬ Stranded (incrSendWindow t flags increment) ↔
      stalls t (.windowUpdate flags increment) = false := by
  unfold incrSendWindow creditSendWindow
  obtain ⟨hr, hpf⟩ | ⟨-, hf, st, hpf⟩ | ⟨hr, hf, st, hpf⟩ :=
    processFlags_outcome flags t.life.stream
  · rw [hpf]
    exact ⟨fun _ ↦ by simp [stalls, hr], fun _ ↦ hno⟩
  · rw [hpf]
    refine ⟨fun _ ↦ by simp [stalls, hf], fun _ ↦ ?_⟩
    rintro ⟨halive, -⟩
    cases halive
  · obtain ⟨hne, hwc, -⟩ := processFlags_kept_state hpf
    rw [hpf]
    by_cases hinc : maxStreamWindowSize < increment
    · simp only [gt_iff_lt, if_pos hinc]
      refine ⟨fun _ ↦ by simp [stalls, Nat.not_le.mpr hinc], fun _ ↦ ?_⟩
      rintro ⟨halive, hopen, hwin, hwait⟩
      exact hno ⟨halive, hwc.symm.trans hopen, hwin, hwait⟩
    simp only [gt_iff_lt, if_neg hinc]
    by_cases hz : addCredit t.life.stream.sendWindow increment = 0
    · rw [if_pos (.inl hz)]
      refine ⟨fun _ ↦ by simp [stalls, hz], fun _ ↦ ?_⟩
      rintro ⟨-, -, hwin, -⟩
      exact hwin hz
    by_cases hclose : t.client.pendingClose = true ∧ t.owner = .client
    · rw [if_neg (not_or.mpr ⟨hz, by rw [hclose.2]; decide⟩), if_pos hclose.1]
      refine ⟨fun _ ↦ by simp [stalls, hclose.1, hclose.2], fun _ ↦ ?_⟩
      rintro ⟨-, hopen, -⟩
      have hshut : _ = true := close_not_open (l := { t.life with stream := { t.life.stream with
        state := st, sendWindow := addCredit t.life.stream.sendWindow increment } }) (hne h)
      exact absurd (hshut.symm.trans hopen) (by decide)
    · have hiff : stalls t (.windowUpdate flags increment) =
          (!t.life.stream.state.writeClosed && waiting t.client) := by
        have hcl : (t.client.pendingClose && decide (t.owner = .client)) = false := by
          simpa using hclose
        simp [stalls, ha, hsyn, hr, hf, Nat.le_of_not_lt hinc, hz, hcl]
      have hres : ∀ t' : Conn, t'.life = { t.life with stream := { t.life.stream with
          state := st, sendWindow := addCredit t.life.stream.sendWindow increment } } →
          waiting t'.client = waiting t.client →
          (¬ Stranded t' ↔ stalls t (.windowUpdate flags increment) = false) := by
        intro t' hl hw
        unfold Stranded
        rw [hiff, hl, hw]
        simp [ha, hwc, hz]
      split_ifs with hctl hpend hold
      · exact hres _ rfl rfl
      · refine absurd ⟨hpend, ?_⟩ hclose
        cases howner : t.owner with
        | control => exact absurd (.inr howner) hctl
        | client => rfl
      · refine hres _ rfl ?_
        unfold waiting
        cases t.client.localProxyBev <;> rfl
      · exact hres _ rfl rfl

theorem waiting_clear {c : ProxyClient} (h : waiting c = false) :
    waiting { c with encPending := [] } = false := by
  obtain ⟨-, hall⟩ := waiting_eq_false.mp h
  refine waiting_eq_false.mpr ⟨rfl, fun w b hb ↦ hall w b ?_⟩
  cases w <;> exact hb

theorem parked_idle {c : ProxyClient} {w : Which} {b₀ b : LocalBev} (hb : c.bevAt w = some b₀)
    (h : waiting c = false) (ev : Bool) : waiting (parked E c w b [] ev) = false := by
  unfold parked
  obtain ⟨ctx, henc⟩ := encode_eq (E := E) c b.input
  split_ifs
  · rw [henc]
    have hidle : waiting { c with encryptCtx := ctx } = false := h
    have hb' : ({ c with encryptCtx := ctx } : ProxyClient).bevAt w = some b₀ := by
      cases w <;> exact hb
    exact waiting_clear (waiting_setBev_nil hb' rfl hidle)
  · exact waiting_setBev_nil hb rfl h

theorem tcpProxyC2sCb_stranded {t : Conn} {w : Which} {b₀ b : LocalBev}
    (h : t.life.stream.state ≠ .init) (hb₀ : t.client.bevAt w = some b₀) (hb : b.input ≠ [])
    (hno : ¬ Stranded t) : ¬ Stranded (tcpProxyC2sCb E t w b) := by
  obtain ⟨l, hw, hcb⟩ := tcpProxyC2sCb_spec (E := E) h w hb rfl
  have hl := hw.steady
  rw [hcb]
  cases hend : writeEnd t.life.stream (toSend E t.client b.input) with
  | done =>
    dsimp only
    intro hs
    have hwait : waiting t.client = true := by
      by_contra hidle
      have hidle' := parked_idle (E := E) (b := b) hb₀ (by simpa using hidle) b.evRead
      exact absurd (hidle'.symm.trans hs.2.2.2) (by decide)
    exact hno (stranded_before (t := t) hs hl (hs.2.2.2.trans hwait.symm))
  | blocked =>
    dsimp only
    rintro ⟨-, hopen, hwin, -⟩
    refine hwin ?_
    have hopen' : t.life.stream.state.writeClosed = false := hw.writeClosed.symm.trans hopen
    have hrem := hw.window
    rw [writeEnd_open hopen'] at hend
    split_ifs at hend with hle
    rw [List.length_take, sendable, if_neg (by simp [hopen'])] at hrem
    refine UInt32.toNat_inj.mp (show l.stream.sendWindow.toNat = 0 from ?_)
    omega
  | failed =>
    rintro ⟨halive, -⟩
    cases halive

theorem handleProxyDisconnect_stranded {t : Conn} (h : t.life.stream.state ≠ .init) (w : Which)
    (b : LocalBev) (hno : ¬ Stranded t) : ¬ Stranded (handleProxyDisconnect t w b) := by
  unfold handleProxyDisconnect
  obtain ⟨l, hw, hl⟩ := writeAll_spec h b.input
  rw [hl]
  dsimp only
  split_ifs with hps hz
  · exact hno
  · rintro ⟨-, -, hwin, -⟩
    exact hwin hz
  · rintro ⟨-, hopen, -⟩
    exact absurd ((close_not_open hw.state_ne).symm.trans hopen) (by decide)

theorem sendClientDataTail_waiting (c : ProxyClient) :
    waiting (sendClientDataTail E c) = waiting c := by
  unfold sendClientDataTail
  obtain ⟨ctx, hdec⟩ := decode_eq (E := E) c c.dataTail
  split_ifs
  · rfl
  · dsimp only
    rw [hdec]
    exact waiting_queue { c with decryptCtx := ctx } _
  · exact waiting_queue c _

theorem socks5Established_waiting (c : ProxyClient) : waiting (socks5Established c) = waiting c := by
  unfold socks5Established
  dsimp only
  split_ifs
  · exact waiting_queue c _
  · rfl

theorem lastRead_nil {b : LocalBev} {d : Bytes} (h : (b.lastRead d).input = []) :
    b.input = [] := by
  unfold LocalBev.lastRead at h
  split_ifs at h
  · exact (List.append_eq_nil_iff.mp h).1
  · exact h

theorem not_stranded_iff {t t' : Conn} (hl : t'.life = t.life) (hw : waiting t'.client = true) :
    ¬ Stranded t' ↔ (t.life.alive && !t.life.stream.state.writeClosed &&
      decide (t.life.stream.sendWindow ≠ 0)) = false := by
  unfold Stranded
  rw [hl, hw]
  simp

section LocalEvents

variable {t : Conn} (h : t.life.stream.state ≠ .init) (hno : ¬ Stranded t) {w : Which} {b : LocalBev}
  (hb : t.client.bevAt w = some b)

include h hno hb

theorem onConnected_stranded : ¬ Stranded (onConnected E t w b) := by
  have hset : waiting (t.client.setBev { b with connecting := false } w) = waiting t.client :=
    waiting_setBev_same hb rfl
  unfold onConnected handlePostConnectionData
  split_ifs
  · exact fun hs ↦ hno (stranded_before hs (write_steady h successReply)
      ((socks5Established_waiting _).trans hset))
  · exact fun hs ↦ hno (stranded_before hs (.refl h)
      ((sendClientDataTail_waiting _).trans hset))
  · exact hno

theorem onReadable_stranded (ha : t.life.alive = true) (d : Bytes) :
    ¬ Stranded (onReadable E t w d b) ↔ stalls t (.readable w d) = false := by
  simp only [stalls, ha, hb, Option.any_some]
  unfold onReadable readCb
  by_cases hd : b.connecting = false ∧ b.evRead = true ∧ d ≠ []
  · rw [if_pos hd]
    have hin : b.input ++ d ≠ [] := List.append_ne_nil_of_right_ne_nil _ hd.2.2
    by_cases hstub : b.stub = true
    · rw [if_pos hstub]
      have hwait : waiting (t.client.setBev { b with input := b.input ++ d } w) = true :=
        waiting_setBev_ne hb hin
      rw [not_stranded_iff rfl hwait]
      simp [ha, hd.1, hd.2.1, hd.2.2, hstub]
    · rw [if_neg hstub]
      have hcb := tcpProxyC2sCb_stranded (E := E) (b := { b with input := b.input ++ d })
        h hb hin hno
      exact ⟨fun _ ↦ by simp [hstub], fun _ ↦ hcb⟩
  · rw [if_neg hd]
    have hidle : (!b.connecting && b.evRead && decide (d ≠ [])) = false := by
      by_contra hyes
      refine hd ?_
      simpa [and_assoc] using hyes
    exact ⟨fun _ ↦ by rw [hidle]; simp, fun _ ↦ hno⟩

theorem onClosed_stranded (ha : t.life.alive = true) (d : Bytes) :
    ¬ Stranded (onClosed t w d b) ↔ stalls t (.closed w d) = false := by
  simp only [stalls, ha, hb, Option.any_some]
  unfold onClosed
  by_cases hu : isUdpProxy t.client.ps = true
  · rw [if_pos hu]
    by_cases hin : (b.lastRead d).input = []
    · refine ⟨fun _ ↦ by simp [hin], fun _ hs ↦ hno (stranded_before hs (.refl h) ?_)⟩
      exact waiting_setBev_same hb (hin.trans (lastRead_nil hin).symm)
    · rw [not_stranded_iff rfl (waiting_setBev_ne hb hin)]
      simp [ha, hu, hin]
  · rw [if_neg hu]
    have hcl := handleProxyDisconnect_stranded h w (b.lastRead d) hno
    simp [hcl, hu]

end LocalEvents

theorem step_stranded {t : Conn} (h : t.life.stream.state ≠ .init) (hno : ¬ Stranded t)
    (e : Event) : ¬ Stranded (step E t e) ↔ stalls t e = false := by
  cases e with
  | data flags payload replies =>
    refine ⟨fun _ ↦ rfl, fun _ ↦ ?_⟩
    simp only [step]
    split_ifs with hd
    · exact processData_stranded hd.1 h hno
    · exact hno
  | windowUpdate flags increment =>
    simp only [step]
    split_ifs with hd
    · exact incrSendWindow_stranded hd.1 hd.2 h hno
    · refine ⟨fun _ ↦ ?_, fun _ ↦ hno⟩
      by_cases ha : t.life.alive = true
      · have hsyn : hasFlag flags .syn = true := by simpa [ha] using hd
        simp [stalls, hsyn]
      · simp [stalls, ha]
  | send src =>
    refine ⟨fun _ ↦ rfl, fun _ ↦ ?_⟩
    simp only [step]
    split_ifs
    · exact fun hs ↦ hno (stranded_before hs (write_steady h src) rfl)
    · exact hno
  | connected w =>
    refine ⟨fun _ ↦ rfl, fun _ ↦ ?_⟩
    exact withBev_ind (P := fun t' ↦ ¬ Stranded t') hno fun b _ hb ↦ onConnected_stranded h hno hb
  | readable w d =>
    show ¬ Stranded (t.withBev w (onReadable E t w d)) ↔ _
    unfold Conn.withBev
    by_cases ha : t.life.alive = true
    · rw [if_pos ha]
      cases hb : t.client.bevAt w with
      | none => simp [stalls, hb, hno]
      | some b => exact onReadable_stranded h hno hb ha d
    · rw [if_neg ha]
      simp [stalls, hno, ha]
  | closed w d =>
    show ¬ Stranded (t.withBev w (onClosed t w d)) ↔ _
    unfold Conn.withBev
    by_cases ha : t.life.alive = true
    · rw [if_pos ha]
      cases hb : t.client.bevAt w with
      | none => simp [stalls, hb, hno]
      | some b => exact onClosed_stranded h hno hb ha d
    · rw [if_neg ha]
      simp [stalls, hno, ha]

/-- No byte read from the local service waits on an open stream that may send,
exactly in the runs without a WINDOW_UPDATE on a stream with bytes waiting and
without anything received on a UDP socket. -/
theorem no_stranded_bytes_iff (owner : Owner) (id : ℕ) (msg : Bytes) (events : List Event) :
    Always (step E) (fun t ↦ ¬ Stranded t) (.start owner id msg) events ↔
      Along (step E) (fun t e ↦ stalls t e = false) (.start owner id msg) events := by
  have hstart : ¬ Stranded (.start owner id msg) := by
    rintro ⟨-, -, -, hwait⟩
    cases hwait
  exact always_iff_along_of (P := fun t ↦ ¬ Stranded t)
    (Q := fun t ↦ t.life.stream.state ≠ .init) (fun t e _ _ ht ↦ step_opened ht e)
    (fun t e hno ht ↦ step_stranded ht hno e) hstart (start_resetQuiet owner id msg).opened

theorem readable_blocked {t : Conn} {b : LocalBev} {d : Bytes} (ha : t.life.alive = true)
    (h : t.life.stream.state ≠ .init) (hopen : t.life.stream.state.writeClosed = false)
    (hb : t.client.bevAt .current = some b) (hready : b.connecting = false ∧ b.evRead = true)
    (hstub : b.stub = false) (hin : b.input = [])
    (hplain : (t.client.useEncryption || t.client.useCompression) = false)
    (hlong : t.life.stream.sendWindow.toNat < d.length) :
    let t' := step E t (.readable .current d)
    t'.life.alive = true ∧ t'.life.stream.state.writeClosed = false ∧
      t'.life.stream.sendWindow = 0 ∧ waiting t'.client = true ∧
      t'.client.pendingClose = t.client.pendingClose ∧ t'.owner = t.owner := by
  have hd : d ≠ [] := List.ne_nil_of_length_pos (by omega)
  have hsrc : toSend E t.client (b.input ++ d) = d := by
    rw [toSend, if_neg (by simp [hplain]), hin, List.nil_append]
  obtain ⟨l, hw, hcb⟩ := tcpProxyC2sCb_spec (E := E) (b := { b with input := b.input ++ d }) h
    .current (List.append_ne_nil_of_right_ne_nil _ hd) hsrc.symm
  have hstep : step E t (.readable .current d) =
      tcpProxyC2sCb E t .current { b with input := b.input ++ d } := by
    show t.withBev .current (onReadable E t .current d) = _
    rw [Conn.withBev, if_pos ha, hb]
    dsimp only
    rw [onReadable, if_pos ⟨hready.1, hready.2, hd⟩, readCb, if_neg (by simp [hstub])]
  rw [writeEnd_open hopen, if_neg (by omega)] at hcb
  dsimp only at hcb ⊢
  have hsend : sendable t.life.stream d.length = t.life.stream.sendWindow.toNat := by
    rw [sendable, if_neg (by simp [hopen])]
    omega
  have hwin := hw.window
  rw [hsend, List.length_take] at hwin
  rw [hstep, hcb, parked, if_neg (by simp [hplain])]
  refine ⟨hw.alive.trans ha, hw.writeClosed.trans hopen, UInt32.toNat_inj.mp ?_, ?_, rfl, rfl⟩
  · show l.stream.sendWindow.toNat = 0
    omega
  · refine waiting_setBev_ne hb ?_
    refine List.ne_nil_of_length_pos ?_
    rw [List.length_drop]
    omega

def longRead : Bytes := List.replicate 262145 0

/-- The local service sends them at once, and the server gives credit. -/
def creditAfterLongRead : List Event :=
  [startFrame, .connected .current, .readable .current longRead, .windowUpdate 0 100]

def connectedTunnel : Conn :=
  [startFrame, .connected .current].foldl (step (sampleEnv samplePs true)) (.start .client 3 [])

theorem plainFrame_passes (s : TmuxStream) : flagsRefused 0 s = false ∧ flagsFree 0 s = false := by
  constructor
  · simp [flagsRefused, hasFlag]
  · unfold flagsFree
    cases s.state <;> simp [hasFlag]

theorem stranded_after_credit :
    ¬ Always (step (sampleEnv samplePs true)) (fun t ↦ ¬ Stranded t) (.start .client 3 [])
      creditAfterLongRead := by
  intro h
  have hbev : connectedTunnel.client.bevAt .current =
      some { LocalBev.tcp [] with connecting := false } := by decide
  have hne : connectedTunnel.life.stream.state ≠ .init := by decide
  obtain ⟨ha, hopen, hwin, hwait, hpend, -⟩ := readable_blocked (E := sampleEnv samplePs true)
    (t := connectedTunnel) (d := longRead) (by decide) hne (by decide) hbev ⟨rfl, rfl⟩ rfl rfl
    (by decide) (by rw [longRead, List.length_replicate]; decide)
  obtain ⟨hno, hfinal⟩ := h.2.2.2
  have hstalls := (step_stranded (step_opened hne _) hno (.windowUpdate 0 100)).mp hfinal
  have hpend' : connectedTunnel.client.pendingClose = false := by decide
  have hmax : (100 : ℕ) ≤ maxStreamWindowSize := by decide
  have hcredit : addCredit 0 100 ≠ 0 := by decide
  have hsyn : hasFlag 0 .syn = false := by decide
  obtain ⟨hr, hf⟩ := plainFrame_passes
    (step (sampleEnv samplePs true) connectedTunnel (.readable .current longRead)).life.stream
  have hyes : stalls (step (sampleEnv samplePs true) connectedTunnel (.readable .current longRead))
      (.windowUpdate 0 100) = true := by
    simp only [stalls, ha, hopen, hwin, hwait, hpend, hpend', hr, hf, hsyn]
    simp [hmax, hcredit]
  exact absurd (hyes.symm.trans hstalls) (by decide)

end Xfrpc.Tunnel.Backlog
