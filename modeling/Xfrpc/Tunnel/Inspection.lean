import Xfrpc.Tunnel.StartWork

namespace Xfrpc.Tunnel.Inspection

open Client Service

/-- The calls of `handle_xdpi` for the pieces of a stream. -/
def deliver (E : Env) (ps : ProxyService) (t : Conn) (pieces : List Bytes) : Conn :=
  pieces.foldl (fun t piece ↦ handleXdpi E t ps piece) t

/-- A client that has not seen a byte of its stream. -/
structure Fresh (t : Conn) : Prop where
  xdpiState : t.client.xdpiState = .init
  xdpiBuf : t.client.xdpiBuf = []
  localProxyBev : t.client.localProxyBev = none

/-- What has been queued to the local service. -/
def forwarded (t : Conn) : Bytes := (t.client.localProxyBev.map (·.output)).getD []

/-- A stream in pieces, none of them empty. -/
structure Cut (s : Bytes) (pieces : List Bytes) : Prop where
  flatten : pieces.flatten = s
  nonempty : ∀ piece ∈ pieces, piece ≠ []

/-- The verdict of `xdpi_engine` on the first piece. -/
def admits (ps : ProxyService) (pieces : List Bytes) : Bool :=
  xdpiMatches ps.serviceType (pieces.headD [])

/-- There is a local address to connect to, and one of the next `n` connects comes
about. -/
def Connects (E : Env) (ps : ProxyService) (t : Conn) (n : ℕ) : Prop :=
  (ps.localIp = true ∧ ps.localPort ≠ 0) ∧ ∃ i < n, E.connectServer (t.tick + i) = true

/-- Two ways of cutting a stream do not disagree: where the whole stream is verified
and forwarded the other is too, and where one is blocked the other forwards nothing. -/
structure Agree (E : Env) (ps : ProxyService) (t : Conn) (s : Bytes) (pieces pieces' : List Bytes) :
    Prop where
  whole : pieces = [s] → (deliver E ps t pieces).client.xdpiState = .verified →
    forwarded (deliver E ps t pieces) = s →
    (deliver E ps t pieces').client.xdpiState = .verified ∧ forwarded (deliver E ps t pieces') = s
  blocked : (deliver E ps t pieces).client.xdpiState = .blocked →
    forwarded (deliver E ps t pieces') = []
  blocked' : (deliver E ps t pieces').client.xdpiState = .blocked →
    forwarded (deliver E ps t pieces) = []

variable {E : Env} {ps : ProxyService}

theorem handleXdpi_blocked (E : Env) (ps : ProxyService) {t : Conn}
    (h : t.client.xdpiState = .blocked) (piece : Bytes) :
    (handleXdpi E t ps piece).client.xdpiState = .blocked ∧
      (handleXdpi E t ps piece).client.localProxyBev = t.client.localProxyBev := by
  unfold handleXdpi
  simp only [h, xdpiEngine, reduceCtorEq, false_and, if_false, if_true, and_self]

theorem deliver_blocked {t : Conn} (h : t.client.xdpiState = .blocked)
    (hb : t.client.localProxyBev = none) (pieces : List Bytes) :
    (deliver E ps t pieces).client.xdpiState = .blocked ∧ forwarded (deliver E ps t pieces) = [] := by
  induction pieces generalizing t with
  | nil => exact ⟨h, by simp [forwarded, deliver, hb]⟩
  | cons piece pieces ih =>
    obtain ⟨hs, hbev⟩ := handleXdpi_blocked E ps h piece
    exact ih hs (hbev.trans hb)

/-- A client that is verified and open, with `s` queued. -/
structure Open (s : Bytes) (t : Conn) : Prop where
  verified : t.client.xdpiState = .verified
  bev : ∃ b, t.client.localProxyBev = some b ∧ b.output = s

theorem Open.forwarded_eq {s : Bytes} {t : Conn} (h : Open s t) : forwarded t = s := by
  obtain ⟨b, hb, hs⟩ := h.bev
  simp [forwarded, hb, hs]

theorem Open.deliver (E : Env) (ps : ProxyService) {s : Bytes} {t : Conn} (h : Open s t)
    (pieces : List Bytes) :
    Open (s ++ pieces.flatten) (deliver E ps t pieces) := by
  induction pieces generalizing s t with
  | nil =>
    rw [List.flatten_nil, List.append_nil]
    exact h
  | cons piece pieces ih =>
    rw [List.flatten_cons, ← List.append_assoc]
    apply ih
    obtain ⟨b, hb, hs⟩ := h.bev
    have hq : handleXdpi E t ps piece = { t with client := t.client.queue piece } := by
      rw [handleXdpi, if_pos ⟨h.verified, by rw [hb]; rfl⟩]
    dsimp only
    rw [hq]
    refine ⟨h.verified, { b with output := b.output ++ piece }, ?_, by rw [← hs]⟩
    simp [ProxyClient.queue, hb]

/-- The engine lets the bytes pass with the next piece. -/
def Passes (ps : ProxyService) (t : Conn) (piece : Bytes) : Prop :=
  xdpiEngine ps.serviceType t.client.xdpiState (t.client.xdpiBuf ++ piece) = (.verified, true)

theorem passes_of_verified {t : Conn} (h : t.client.xdpiState = .verified) (piece : Bytes) :
    Passes ps t piece := by
  rw [Passes, h]
  rfl

/-- A delivery to a client that is not connected and whose bytes pass. -/
theorem handleXdpi_passes {t : Conn} {piece : Bytes} (hb : t.client.localProxyBev = none)
    (hp : Passes ps t piece) :
    (Connects E ps t 1 ∧ Open (t.client.xdpiBuf ++ piece) (handleXdpi E t ps piece)) ∨
    (¬ (ps.localIp = true ∧ ps.localPort ≠ 0) ∧
      (handleXdpi E t ps piece).client.xdpiState = .verified ∧
      (handleXdpi E t ps piece).client.localProxyBev = none) ∨
    (E.connectServer t.tick = false ∧ (handleXdpi E t ps piece).client.xdpiState = .verified ∧
      (handleXdpi E t ps piece).client.localProxyBev = none ∧
      (handleXdpi E t ps piece).client.xdpiBuf = t.client.xdpiBuf ++ piece ∧
      (handleXdpi E t ps piece).tick = t.tick + 1) := by
  have hnot : ¬ (t.client.xdpiState = .verified ∧ t.client.localProxyBev.isSome = true) := by
    rw [hb]
    simp
  have hnone : ¬ t.client.localProxyBev.isSome = true := by
    rw [hb]
    exact Bool.false_ne_true
  have hx : xdpiEngine ps.serviceType t.client.xdpiState (t.client.xdpiBuf ++ piece) =
      (.verified, true) := hp
  unfold handleXdpi
  dsimp only
  rw [if_neg hnot, hx]
  dsimp only
  rw [if_neg (fun h ↦ absurd h.symm Bool.false_ne_true), if_neg hnone]
  by_cases hu : ps.localIp = false ∨ ps.localPort = 0
  · rw [if_pos hu]
    refine .inr (.inl ⟨fun hu' ↦ ?_, rfl, hb⟩)
    obtain hip | hport := hu
    · rw [hip] at hu'
      exact absurd hu'.1 Bool.false_ne_true
    · exact hu'.2 hport
  rw [if_neg hu]
  cases hc : E.connectServer t.tick with
  | true =>
    have husable : ps.localIp = true ∧ ps.localPort ≠ 0 := by simpa [not_or] using hu
    refine .inl ⟨⟨husable, 0, Nat.one_pos, hc⟩, ?_⟩
    rw [if_pos rfl]
    exact ⟨rfl, _, rfl, rfl⟩
  | false =>
    rw [if_neg Bool.false_ne_true]
    exact .inr (.inr ⟨rfl, rfl, hb, rfl, rfl⟩)

/-- What comes of a client that is not connected and whose bytes pass: they reach the
local service if one of the connects comes about. -/
def Delivered (E : Env) (ps : ProxyService) (t : Conn) (pieces : List Bytes) : Prop :=
  (deliver E ps t pieces).client.xdpiState = .verified ∧
    (Connects E ps t pieces.length →
      forwarded (deliver E ps t pieces) = t.client.xdpiBuf ++ pieces.flatten) ∧
    (¬ Connects E ps t pieces.length → forwarded (deliver E ps t pieces) = [])

theorem connects_succ_iff {t t' : Conn} {n : ℕ} (hc : E.connectServer t.tick = false)
    (ht : t'.tick = t.tick + 1) : Connects E ps t (n + 1) ↔ Connects E ps t' n := by
  unfold Connects
  refine and_congr_right fun _ ↦ ?_
  constructor
  · rintro ⟨i, hi, hconn⟩
    cases i with
    | zero =>
      rw [Nat.add_zero, hc] at hconn
      exact absurd hconn Bool.false_ne_true
    | succ i =>
      refine ⟨i, by omega, ?_⟩
      rw [ht, Nat.add_assoc, Nat.add_comm 1 i]
      exact hconn
  · rintro ⟨i, hi, hconn⟩
    refine ⟨i + 1, by omega, ?_⟩
    rw [ht, Nat.add_assoc, Nat.add_comm 1 i] at hconn
    exact hconn

theorem delivered_cons {t : Conn} {piece : Bytes} {pieces : List Bytes}
    (hb : t.client.localProxyBev = none) (hp : Passes ps t piece)
    (hrest : ∀ t', t'.client.xdpiState = .verified → t'.client.localProxyBev = none →
      Delivered E ps t' pieces) : Delivered E ps t (piece :: pieces) := by
  have hcons : deliver E ps t (piece :: pieces) = deliver E ps (handleXdpi E t ps piece) pieces := rfl
  unfold Delivered
  rw [hcons, List.flatten_cons, ← List.append_assoc, List.length_cons]
  obtain ⟨⟨hu, hc⟩, hopen⟩ | ⟨hu, hv, hbev⟩ | ⟨hc, hv, hbev, hbuf, htick⟩ :=
    handleXdpi_passes (E := E) hb hp
  · have hall := hopen.deliver E ps pieces
    refine ⟨hall.verified, fun _ ↦ hall.forwarded_eq, fun hnot ↦ ?_⟩
    obtain ⟨i, hi, hconn⟩ := hc
    exact absurd ⟨hu, i, by omega, hconn⟩ hnot
  · obtain ⟨hv', -, hnone⟩ := hrest _ hv hbev
    exact ⟨hv', fun hc ↦ absurd hc.1 hu, fun _ ↦ hnone (fun hc ↦ hu hc.1)⟩
  · obtain ⟨hv', hsome, hnone⟩ := hrest _ hv hbev
    rw [hbuf] at hsome
    rw [connects_succ_iff hc htick]
    exact ⟨hv', hsome, hnone⟩

theorem delivered_verified {t : Conn} (h : t.client.xdpiState = .verified)
    (hb : t.client.localProxyBev = none) (pieces : List Bytes) : Delivered E ps t pieces := by
  induction pieces generalizing t with
  | nil =>
    have hf : forwarded t = [] := by simp [forwarded, hb]
    refine ⟨h, fun hc ↦ ?_, fun _ ↦ hf⟩
    obtain ⟨-, i, hi, -⟩ := hc
    exact absurd hi (Nat.not_lt_zero i)
  | cons piece pieces ih =>
    apply delivered_cons hb (passes_of_verified h piece)
    intro t' hv hb'
    exact ih hv hb'

theorem Connects.mono {t : Conn} {m n : ℕ} (h : Connects E ps t m) (hmn : m ≤ n) :
    Connects E ps t n := by
  obtain ⟨hu, i, hi, hconn⟩ := h
  exact ⟨hu, i, by omega, hconn⟩

theorem Cut.length_pos {s : Bytes} {pieces : List Bytes} (h : Cut s pieces) (hs : s ≠ []) :
    0 < pieces.length := by
  cases pieces with
  | nil => exact absurd h.flatten.symm hs
  | cons piece rest => exact Nat.succ_pos _

/-- What the pieces of a stream come to, by the verdict on the first. -/
theorem deliver_cases (E : Env) (ps : ProxyService) {t : Conn} (h : Fresh t) {s : Bytes}
    {pieces : List Bytes} (hcut : Cut s pieces) (hs : s ≠ []) :
    (admits ps pieces = false ∧ (deliver E ps t pieces).client.xdpiState = .blocked ∧
      forwarded (deliver E ps t pieces) = []) ∨
    (admits ps pieces = true ∧ (deliver E ps t pieces).client.xdpiState = .verified ∧
      (Connects E ps t pieces.length → forwarded (deliver E ps t pieces) = s) ∧
      (¬ Connects E ps t pieces.length → forwarded (deliver E ps t pieces) = [])) := by
  cases pieces with
  | nil => exact absurd hcut.flatten.symm hs
  | cons piece pieces =>
    cases ha : admits ps (piece :: pieces) with
    | true =>
      have hpass : Passes ps t piece := by
        have hm : xdpiMatches ps.serviceType piece = true := ha
        rw [Passes, h.xdpiState, h.xdpiBuf, List.nil_append, xdpiEngine, if_pos hm]
      have hd : Delivered E ps t (piece :: pieces) :=
        delivered_cons h.localProxyBev hpass fun t' hv hb ↦ delivered_verified hv hb pieces
      obtain ⟨hv, hsome, hnone⟩ := hd
      rw [h.xdpiBuf, List.nil_append, hcut.flatten] at hsome
      exact .inr ⟨rfl, hv, hsome, hnone⟩
    | false =>
      have hm : ¬ xdpiMatches ps.serviceType piece = true := by
        intro hm
        have ha' : xdpiMatches ps.serviceType piece = false := ha
        rw [ha'] at hm
        exact Bool.false_ne_true hm
      have hfirst : (handleXdpi E t ps piece).client.xdpiState = .blocked ∧
          (handleXdpi E t ps piece).client.localProxyBev = none := by
        unfold handleXdpi
        simp [h.xdpiState, h.xdpiBuf, xdpiEngine, hm, h.localProxyBev]
      exact .inl ⟨rfl, deliver_blocked hfirst.1 hfirst.2 pieces⟩

/-- Two ways of cutting a stream agree just when the engine judges their first pieces
alike, or the one it lets pass never gets its connection. -/
theorem segmentation_agrees_iff {t : Conn} (h : Fresh t) {s : Bytes} (hs : s ≠ [])
    {pieces pieces' : List Bytes} (hc : Cut s pieces) (hc' : Cut s pieces') :
    Agree E ps t s pieces pieces' ↔ (admits ps pieces = admits ps pieces' ∨
      ¬ Connects E ps t (if admits ps pieces then pieces.length else pieces'.length)) := by
  obtain ⟨ha, hst, hf⟩ | ⟨ha, hst, hsome, hnone⟩ := deliver_cases E ps h hc hs
  · obtain ⟨ha', hst', hf'⟩ | ⟨ha', hst', hsome', hnone'⟩ :=
      deliver_cases E ps h hc' hs
    · rw [ha, ha']
      refine iff_of_true ⟨fun _ hv ↦ ?_, fun _ ↦ hf', fun _ ↦ hf⟩ (.inl rfl)
      rw [hst] at hv
      cases hv
    · rw [ha, ha', if_neg Bool.false_ne_true]
      constructor
      · intro hagree
        refine .inr fun hconn ↦ hs ?_
        rw [← hsome' hconn]
        exact hagree.blocked hst
      · intro hor
        have hno := hor.resolve_left Bool.false_ne_true
        refine ⟨fun _ hv ↦ ?_, fun _ ↦ hnone' hno, fun _ ↦ hf⟩
        rw [hst] at hv
        cases hv
  · obtain ⟨ha', hst', hf'⟩ | ⟨ha', hst', hsome', hnone'⟩ :=
      deliver_cases E ps h hc' hs
    · rw [ha, ha', if_pos rfl]
      constructor
      · intro hagree
        refine .inr fun hconn ↦ hs ?_
        rw [← hsome hconn]
        exact hagree.blocked' hst'
      · intro hor
        have hno := hor.resolve_left (Ne.symm Bool.false_ne_true)
        refine ⟨fun _ _ hfs ↦ ?_, fun _ ↦ hf', fun _ ↦ hnone hno⟩
        rw [hnone hno] at hfs
        exact absurd hfs.symm hs
    · rw [ha, ha']
      refine iff_of_true ⟨fun hw _ hfs ↦ ⟨hst', ?_⟩, fun hb ↦ ?_, fun hb ↦ ?_⟩ (.inl rfl)
      · apply hsome'
        by_contra hno
        have hfirst : ¬ Connects E ps t pieces.length := by
          rw [hw, List.length_singleton]
          exact fun hconn ↦ hno (hconn.mono (hc'.length_pos hs))
        rw [hnone hfirst] at hfs
        exact hs hfs.symm
      · rw [hst] at hb
        cases hb
      · rw [hst'] at hb
        cases hb

/-- The greeting `SSH-2.0-x` of an SSH client. -/
def sshGreeting : Bytes := [83, 83, 72, 45, 50, 46, 48, 45, 120]

def sshPs : ProxyService := { StartWork.samplePs with serviceType := .ssh }

def newConn : Conn := Conn.start .client 3 []

theorem newConn_fresh : Fresh newConn := ⟨rfl, rfl, rfl⟩

theorem segmentation_agrees_iff_sshGreeting :
    Cut sshGreeting [sshGreeting] ∧ Cut sshGreeting [sshGreeting.take 8, sshGreeting.drop 8] ∧
    Agree (StartWork.sampleEnv sshPs true) sshPs newConn sshGreeting [sshGreeting]
      [sshGreeting.take 8, sshGreeting.drop 8] :=
  have hwhole : Cut sshGreeting [sshGreeting] := ⟨by decide, by decide⟩
  have hcut : Cut sshGreeting [sshGreeting.take 8, sshGreeting.drop 8] := ⟨by decide, by decide⟩
  ⟨hwhole, hcut, (segmentation_agrees_iff newConn_fresh (by decide) hwhole hcut).mpr
    (.inl (by decide))⟩

/-- Its first three bytes alone are judged, and the connection is blocked for good. -/
theorem sshGreeting_cut_blocked :
    Cut sshGreeting [sshGreeting] ∧ Cut sshGreeting [sshGreeting.take 3, sshGreeting.drop 3] ∧
    ¬ Agree (StartWork.sampleEnv sshPs true) sshPs newConn sshGreeting [sshGreeting]
      [sshGreeting.take 3, sshGreeting.drop 3] := by
  refine ⟨⟨by decide, by decide⟩, ⟨by decide, by decide⟩, ?_⟩
  intro h
  obtain ⟨hv, -⟩ := h.whole rfl (by decide) (by decide)
  revert hv
  decide

end Xfrpc.Tunnel.Inspection
