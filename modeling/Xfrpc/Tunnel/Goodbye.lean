import Xfrpc.Tunnel.Closing

namespace Xfrpc.Tunnel.Goodbye

open Client Closing Control.Message Foundations.Runs Lifetime Mux.Header Mux.Stream Service StartWork

variable {E : Env}

def refusalOf : Verdict → Option Refusal
  | .other => none
  | .refused why => some why
  | .accepted _ why => why

def Signed (l : Life) : Prop := ∃ f ∈ l.out, closes f = true

instance (l : Life) : Decidable (Signed l) := inferInstanceAs (Decidable (∃ f ∈ l.out, _))

/-- The server knows of every stream that is gone or not going to be served. -/
structure Agreed (t : Conn) : Prop where
  gone : t.life.alive = false → t.life.peerReset = true ∨ Signed t.life
  refused : ∀ why, .refused why ∈ t.log → Signed t.life

/-- Every StartWorkConn that an event makes the client handle is served, or FIN
or RST is out already. -/
def Answered (E : Env) (t : Conn) : Event → Prop
  | .data flags payload _ => reachesHandler t flags payload = true →
    (∀ v ∈ verdicts E (messages E t.life.stream payload) t.tick, refusalOf v = none) ∨
      Signed t.life
  | _ => True

instance (t : Conn) : ∀ e, Decidable (Answered E t e)
  | .data _ _ _ => inferInstanceAs (Decidable (_ → _))
  | .windowUpdate _ _ | .connected _ | .readable _ _ | .closed _ _ | .send _ => .isTrue trivial

theorem refused_mem_notes {v : Verdict} {why : Refusal} :
    .refused why ∈ v.notes ↔ refusalOf v = some why := by
  cases v with
  | other => simp [Verdict.notes, refusalOf]
  | refused why' => simp [Verdict.notes, refusalOf, eq_comm]
  | accepted ps amiss =>
    rcases amiss with _ | amiss
    · simp [Verdict.notes, refusalOf]
    · cases amiss <;> simp [Verdict.notes, refusalOf, eq_comm]

theorem refused_mem_msgNotes {bufs : List Bytes} {n : ℕ} {why : Refusal} :
    .refused why ∈ msgNotes E bufs n ↔ ∃ v ∈ verdicts E bufs n, refusalOf v = some why := by
  induction bufs generalizing n with
  | nil => simp [msgNotes, verdicts]
  | cons buf bufs ih => simp [msgNotes, verdicts, refused_mem_notes, ih]

theorem kept_of_served {bufs : List Bytes} {n : ℕ}
    (h : ∀ v ∈ verdicts E bufs n, refusalOf v = none) : Kept E bufs n := by
  intro v hv
  have hr := h v hv
  cases v with
  | other => rfl
  | refused why => rfl
  | accepted ps amiss =>
    obtain rfl : amiss = none := hr
    rfl

structure Extends (l₀ l : Life) : Prop where
  opened : l.stream.state ≠ .init
  out : l₀.out <+: l.out

theorem extends_robust (l₀ : Life) : Robust (Extends l₀) where
  opened h := h.opened
  quiet q h := ⟨q.state ▸ h.opened, q.out ▸ h.out⟩
  wrote w h := by
    obtain ⟨frames, hout, -⟩ := w.out
    exact ⟨w.state_ne, hout ▸ h.out.trans (List.prefix_append _ _)⟩
  kept hp h := ⟨(processFlags_kept_state hp).1 h.opened, h.out⟩
  settle n h := by
    obtain ⟨st, w, frames, hl, hne, -⟩ := settle_cases h.opened n
    rw [hl]
    exact ⟨hne, h.out.trans (List.prefix_append _ _)⟩

theorem Extends.close {l₀ l : Life} (h : Extends l₀ l) : Extends l₀ l.close := by
  obtain ⟨-, hl⟩ | ⟨st, hwc, -, -, hl⟩ := close_cases l
  · rw [hl]
    exact h
  · rw [hl]
    exact ⟨ne_init_of_writeClosed hwc, h.out.trans (List.prefix_append _ _)⟩

theorem step_extends {t : Conn} (h : t.life.stream.state ≠ .init) (e : Event) :
    t.life.out <+: (step E t e).life.out := by
  have hext : Extends t.life t.life := ⟨h, List.prefix_refl _⟩
  refine (step_robust (E := E) (extends_robust t.life) hext ?_ (fun _ hl _ ↦ ⟨hl.opened, hl.out⟩)
    (.inr fun _ hl ↦ ⟨hl.opened, hl.out⟩) fun _ hl _ ↦ hl.close).out
  intro flags st _ hp
  exact ⟨ne_init_of_writeClosed (processFlags_freed_state hp h).1, List.prefix_refl _⟩

theorem Signed.step {t : Conn} (h : Signed t.life) (hs : t.life.stream.state ≠ .init) (e : Event) :
    Signed (step E t e).life := by
  obtain ⟨f, hf, hc⟩ := h
  exact ⟨f, (step_extends hs e).subset hf, hc⟩

structure Inv (t : Conn) : Prop where
  accounted : Accounted t.life
  resetQuiet : ResetQuiet t.life
  refused : ∀ why, .refused why ∈ t.log → Signed t.life

theorem Inv.agreed {t : Conn} (h : Inv t) : Agreed t := ⟨h.accounted.gone, h.refused⟩

theorem step_accounted_signed {t : Conn} (h : Accounted t.life) (hs : Signed t.life) (e : Event) :
    Accounted (step E t e).life := by
  have hrob : Robust fun l ↦ Accounted l ∧ Signed l := by
    refine ⟨fun hl ↦ hl.1.opened, fun q hl ↦ ⟨accounted_robust.quiet q hl.1, ?_⟩,
      fun w hl ↦ ⟨accounted_robust.wrote w hl.1, ?_⟩,
      fun hp hl ↦ ⟨accounted_robust.kept hp hl.1, hl.2⟩,
      fun n hl ↦ ⟨accounted_robust.settle n hl.1, ?_⟩⟩
    · unfold Signed
      rw [q.out]
      exact hl.2
    · obtain ⟨frames, hout, -⟩ := w.out
      obtain ⟨f, hf, hc⟩ := hl.2
      exact ⟨f, by rw [hout]; exact List.mem_append_left _ hf, hc⟩
    · obtain ⟨st, w, frames, heq, -⟩ := settle_cases hl.1.opened n
      obtain ⟨f, hf, hc⟩ := hl.2
      exact ⟨f, by rw [heq]; exact List.mem_append_left _ hf, hc⟩
  have hdel : ∀ l, Accounted l ∧ Signed l → Accounted l.delete ∧ Signed l.delete :=
    fun l hl ↦ ⟨⟨hl.1.opened, hl.1.shut, fun _ ↦ .inr hl.2⟩, hl.2⟩
  refine (step_robust (E := E) hrob ⟨h, hs⟩ (fun _ _ _ hp ↦ ⟨h.freed hp, hs⟩)
    (fun l hl _ ↦ hdel l hl) (.inr hdel) fun l hl _ ↦ ⟨hl.1.close, ?_⟩).1
  obtain ⟨f, hf, hc⟩ := hl.2
  obtain ⟨-, heq⟩ | ⟨st, -, -, -, heq⟩ := close_cases l
  · rw [heq]
    exact ⟨f, hf, hc⟩
  · rw [heq]
    exact ⟨f, List.mem_append_left _ hf, hc⟩

theorem step_accounted {t : Conn} (h : Inv t) {e : Event} (ha : Answered E t e) :
    Accounted (step E t e).life := by
  by_cases hs : Signed t.life
  · exact step_accounted_signed h.accounted hs e
  · refine step_robust accounted_robust h.accounted (fun _ _ _ hp ↦ h.accounted.freed hp)
      (fun _ hl hw ↦ hl.delete hw) (.inl ?_) fun _ hl _ ↦ hl.close
    cases e with
    | data flags payload replies =>
      intro hreach
      rcases ha hreach with hall | hsig
      · exact kept_of_served hall
      · exact absurd hsig hs
    | _ => trivial

theorem step_refused {t : Conn} (h : Inv t) {e : Event} (ha : Answered E t e) :
    ∀ why, .refused why ∈ (step E t e).log → Signed (step E t e).life := by
  intro why hmem
  by_cases hs : Signed t.life
  · exact hs.step h.accounted.opened e
  · refine (h.refused why ?_).step h.accounted.opened e
    cases e with
    | data flags payload replies =>
      cases hreach : reachesHandler t flags payload with
      | false =>
        rw [step_data_log hreach] at hmem
        exact hmem
      | true =>
        rcases ha hreach with hall | hsig
        · obtain ⟨halive, hne, st, -, hstep⟩ := step_data_messages (E := E) hreach replies
          have hk := kept_of_served hall
          rw [← messages_of_admitted t.life.stream st payload.length] at hk hall
          obtain ⟨seen, rx, hmsg⟩ := handleFrpsMsg_kept
            (t := t.setStream (admitted t.life.stream st payload.length)) halive hne hk
          rw [hstep, touch_settle_log _ _ (by rw [hmsg]; exact halive), hmsg] at hmem
          rcases List.mem_append.mp hmem with hmem | hmem
          · exact hmem
          · rcases List.mem_cons.mp hmem with heq | hmem
            · cases heq
            · obtain ⟨v, hv, hr⟩ := refused_mem_msgNotes.mp hmem
              have hnone := hall v hv
              rw [hr] at hnone
              cases hnone
        · exact absurd hsig hs
    | _ =>
      rw [step_log (by intro _ _ _ h; cases h)] at hmem
      exact hmem

theorem step_inv {t : Conn} (h : Inv t) {e : Event} (ha : Answered E t e) : Inv (step E t e) :=
  ⟨step_accounted h ha, step_resetQuiet h.resetQuiet e, step_refused h ha⟩

theorem not_signed_settle {l : Life} (h : l.stream.state ≠ .init) (hs : ¬ Signed l) (n : ℕ) :
    ¬ Signed (l.settle n) := by
  rintro ⟨f, hf, hc⟩
  obtain ⟨st, w, frames, hl, -, -, -, -, hupd⟩ := settle_cases h n
  rw [hl] at hf
  rcases List.mem_append.mp hf with hf | hf
  · exact hs ⟨f, hf, hc⟩
  · rw [(hupd f hf).not_closes] at hc
    cases hc

theorem step_not_agreed {t : Conn} (h : Inv t) {e : Event} (ha : ¬ Answered E t e) :
    ¬ Agreed (step E t e) := by
  cases e with
  | data flags payload replies =>
    simp only [Answered, not_forall, not_or] at ha
    obtain ⟨hreach, hall, hs⟩ := ha
    obtain ⟨halive, hne, st, hpf, hstep⟩ := step_data_messages (E := E) hreach replies
    intro hag
    rw [hstep] at hag
    have hinit : (admitted t.life.stream st payload.length).state ≠ .init :=
      (processFlags_kept_state hpf).1 h.accounted.opened
    by_cases hk : Kept E (messages E t.life.stream payload) t.tick
    · obtain ⟨v, hv, hr⟩ := hall
      obtain ⟨why, hwhy⟩ := Option.ne_none_iff_exists'.mp hr
      rw [← messages_of_admitted t.life.stream st payload.length] at hk hv
      obtain ⟨seen, rx, hmsg⟩ := handleFrpsMsg_kept
        (t := t.setStream (admitted t.life.stream st payload.length)) halive hne hk
      rw [hmsg, Conn.touch, if_pos (by exact halive)] at hag
      refine not_signed_settle (l := { t.life with stream := { admitted t.life.stream st
        payload.length with v2MagicSeen := seen, v2Rx := rx } }) hinit hs payload.length
        (hag.refused why ?_)
      exact List.mem_append_right _ (List.mem_cons_of_mem _ (refused_mem_msgNotes.mpr ⟨v, hv, hwhy⟩))
    · rw [← messages_of_admitted t.life.stream st payload.length] at hk
      obtain ⟨⟨seen, rx, hdead⟩, -⟩ := handleFrpsMsg_removed
        (t := t.setStream (admitted t.life.stream st payload.length)) halive hne hk
      rw [Conn.touch, if_neg (by simp [hdead])] at hag
      have hgone := hag.gone (by rw [note_life, hdead])
      rw [note_life, hdead] at hgone
      rcases hgone with hreset | hsig
      · have hdead' := (h.resetQuiet.quiet hreset).1
        rw [halive] at hdead'
        cases hdead'
      · exact hs hsig
  | _ => exact absurd trivial ha

theorem start_inv (owner : Owner) (id : ℕ) (msg : Bytes) : Inv (.start owner id msg) := by
  obtain ⟨l, hl, hopen⟩ := start_life owner id msg
  refine ⟨?_, start_resetQuiet owner id msg, nofun⟩
  rw [hl]
  refine accounted_robust.write msg ?_
  rw [hopen]
  exact ⟨(show TcpMuxState.synSend ≠ .init by decide), nofun, nofun⟩

/-- The two ends agree throughout a run exactly when every StartWorkConn that is
handled is served, or comes on a stream with FIN or RST out already. -/
theorem ends_agree_iff (owner : Owner) (id : ℕ) (msg : Bytes) (events : List Event) :
    Always (step E) Agreed (.start owner id msg) events ↔
      Along (step E) (Answered E) (.start owner id msg) events := by
  have hrun : ∀ {t : Conn}, Inv t → (Always (step E) Agreed t events ↔
      Along (step E) (Answered E) t events) := by
    intro t h
    constructor
    · intro hall
      induction events generalizing t with
      | nil => trivial
      | cons e es ih =>
        have hans : Answered E t e := by
          by_contra hans
          exact step_not_agreed h hans hall.2.first
        exact ⟨hans, ih (step_inv h hans) hall.2⟩
    · intro hall
      exact (always_of_along (P := Inv) (fun _ _ hi ha ↦ step_inv hi ha) h hall).mono
        fun _ hi ↦ hi.agreed
  exact hrun (start_inv owner id msg)

/-- A StartWorkConn for a proxy nobody knows. -/
theorem not_agreed_unknownProxy :
    ¬ Always (step { sampleEnv samplePs true with getProxyService := fun _ ↦ none }) Agreed
      (.start .client 3 []) [startFrame] := by
  intro h
  exact absurd (h.last.refused .unknownProxy (by decide)) (by decide)

end Xfrpc.Tunnel.Goodbye
