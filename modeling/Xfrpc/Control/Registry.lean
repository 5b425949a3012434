import Xfrpc.Foundations.Runs

namespace Xfrpc.Control.Registry

open Foundations.Runs

/-- The record a stream is embedded in. Records are told apart by the number of
the allocation that made them. -/
inductive Owner
  | client (serial : ℕ)
  | control (serial : ℕ)
  deriving DecidableEq, Repr

/-- `struct control`: its stream has an id once it has been initialised. -/
structure MainControl where
  serial : ℕ
  streamId : Option ℕ
  deriving DecidableEq, Repr

/-- The two hash tables, `main_ctl`, the id counter and the configured
`tcp_mux`. The code does not keep `serial`, the number of allocations, and
`drawn`, the number of ids drawn since the session began. -/
structure Tables where
  gSessionId : ℕ
  allStream : List (ℕ × Owner)
  allPc : List (ℕ × ℕ)
  mainCtl : Option MainControl
  tcpMux : Bool
  serial : ℕ
  drawn : ℕ
  deriving DecidableEq, Repr

def Tables.start (tcpMux : Bool) : Tables :=
  { gSessionId := 1, allStream := [], allPc := [], mainCtl := none, tcpMux
    serial := 0, drawn := 0 }

def idLimit : ℕ := 4294967296

def resetSessionId (s : Tables) : Tables := { s with gSessionId := 1, drawn := 0 }

def getNextSessionId (s : Tables) : ℕ × Tables :=
  (s.gSessionId,
    { s with gSessionId := (s.gSessionId + 2) % idLimit, drawn := s.drawn + 1 })

def addStream (s : Tables) (id : ℕ) (o : Owner) : Tables :=
  if (s.allStream.lookup id).isSome then s else { s with allStream := (id, o) :: s.allStream }

def delStream (s : Tables) (id : ℕ) : Tables :=
  { s with allStream := s.allStream.eraseP (·.1 == id) }

def newProxyClient (s : Tables) : Tables :=
  let (id, s₁) := getNextSessionId s
  let s₂ := addStream { s₁ with serial := s.serial + 1 } id (.client s.serial)
  { s₂ with allPc := (id, s.serial) :: s₂.allPc }

def delProxyClientByStreamId (s : Tables) (sid : ℕ) : Tables :=
  if sid = 0 then s
  else
    let s₁ := delStream s sid
    match s₁.allPc.lookup sid with
    | some _ => { s₁ with allPc := s₁.allPc.eraseP (·.1 == sid) }
    | none => s₁

def clearAllProxyClient (s : Tables) : Tables := { s with allStream := [], allPc := [] }

/-- `init_tmux_stream` on the stream of the control structure. -/
def initControlStream (s : Tables) (c : MainControl) : Tables :=
  let (id, s₁) := getNextSessionId s
  { addStream s₁ id (.control c.serial) with mainCtl := some { c with streamId := some id } }

def clearMainControl (s : Tables) : Tables :=
  match s.mainCtl with
  | none => s
  | some c =>
    let s₁ := clearAllProxyClient s
    if s₁.tcpMux then initControlStream s₁ c else s₁

def closeMainControl (s : Tables) : Tables :=
  match s.mainCtl with
  | none => s
  | some _ => { clearMainControl s with mainCtl := none }

/-- How `init_main_control` ends. -/
inductive InitResult
  | noMemory
  | noEventBase
  | noTls
  | noDns
  | ok
  deriving DecidableEq, Repr

/-- Whether the control structure is given up after its stream is registered. -/
def InitResult.late : InitResult → Bool
  | .noTls | .noDns => true
  | _ => false

def initMainControl (s₀ : Tables) (r : InitResult) : Tables :=
  let s := { closeMainControl s₀ with drawn := 0 }
  match r with
  | .noMemory => s
  | .noEventBase => { s with serial := s.serial + 1 }
  | _ =>
    let c : MainControl := ⟨s.serial, none⟩
    let s₁ := { s with serial := s.serial + 1, mainCtl := some c }
    let s₂ := if s₁.tcpMux then initControlStream s₁ c else s₁
    if r.late then { s₂ with mainCtl := none } else s₂

inductive Op
  | loadConfig (tcpMux : Bool)
  | initMainControl (r : InitResult)
  | newProxyClient
  | delProxyClientByStreamId (sid : ℕ)
  | clearAllProxyClient
  | reconnect
  | closeMainControl
  deriving DecidableEq, Repr

def step (s : Tables) : Op → Tables
  | .loadConfig tcpMux => { s with tcpMux }
  | .initMainControl r => initMainControl s r
  | .newProxyClient => newProxyClient s
  | .delProxyClientByStreamId sid => delProxyClientByStreamId s sid
  | .clearAllProxyClient => clearAllProxyClient s
  | .reconnect => clearMainControl (resetSessionId s)
  | .closeMainControl => closeMainControl s

/-- What the callers see to: a configuration is loaded before the control
structure is made, and `new_client_connect` works on that structure. -/
def Called (s : Tables) : Op → Prop
  | .loadConfig _ => s.mainCtl = none
  | .newProxyClient => s.mainCtl.isSome
  | _ => True

instance (s : Tables) : ∀ op, Decidable (Called s op)
  | .loadConfig _ => inferInstanceAs (Decidable (_ = _))
  | .newProxyClient => inferInstanceAs (Decidable (_ = true))
  | .initMainControl _ | .delProxyClientByStreamId _ | .clearAllProxyClient | .reconnect
  | .closeMainControl => .isTrue trivial

def liveIds (s : Tables) : List ℕ :=
  s.allPc.map Prod.fst ++ (s.mainCtl.bind MainControl.streamId).toList

structure Agree (s : Tables) : Prop where
  ofClient : ∀ id k, (id, .client k) ∈ s.allStream → (id, k) ∈ s.allPc
  ofControl : ∀ id k, (id, .control k) ∈ s.allStream → s.mainCtl = some ⟨k, some id⟩
  registered : ∀ id k, (id, k) ∈ s.allPc → (id, .client k) ∈ s.allStream
  odd : ∀ id ∈ liveIds s, id % 2 = 1
  distinct : (liveIds s).Nodup
  empty : s.mainCtl = none → s.allStream = [] ∧ s.allPc = []

/-- The steps that free a control structure and leave its stream behind. -/
def Strands (s : Tables) : Op → Prop
  | .closeMainControl => s.tcpMux = true ∧ s.mainCtl.isSome
  | .initMainControl r => s.tcpMux = true ∧ (s.mainCtl.isSome ∨ r.late)
  | _ => False

instance (s : Tables) : ∀ op, Decidable (Strands s op)
  | .closeMainControl | .initMainControl _ => inferInstanceAs (Decidable (_ ∧ _))
  | .loadConfig _ | .newProxyClient | .delProxyClientByStreamId _ | .clearAllProxyClient
  | .reconnect => .isFalse id

def idAt (base i : ℕ) : ℕ := (base + 2 * i) % idLimit

theorem idAt_odd {base : ℕ} (h : base % 2 = 1) (i : ℕ) : idAt base i % 2 = 1 := by
  rw [idAt, idLimit]
  omega

theorem idAt_inj {base i j : ℕ} (hi : i < 2147483648) (hj : j < 2147483648)
    (h : idAt base i = idAt base j) : i = j := by
  rw [idAt, idAt, idLimit] at h
  omega

theorem idAt_succ (base i : ℕ) : (idAt base i + 2) % idLimit = idAt base (i + 1) := by
  rw [idAt, idAt, idLimit]
  omega

/-- The ids are drawn one after the other from `base` on, and the tables keep
to them. -/
structure Numbered (base : ℕ) (s : Tables) : Prop where
  odd : base % 2 = 1
  counter : s.gSessionId = idAt base s.drawn
  live : ∀ id ∈ liveIds s, ∃ i < s.drawn, id = idAt base i
  keys : (s.allStream.map Prod.fst).Nodup
  control : ∀ c, s.mainCtl = some c → c.serial < s.serial ∧ c.streamId.isSome = s.tcpMux

def Inv (s : Tables) : Prop := Agree s ∧ ∃ base, Numbered base s

theorem start_inv (tcpMux : Bool) : Inv (.start tcpMux) := by
  refine ⟨⟨nofun, nofun, nofun, nofun, List.nodup_nil, fun _ ↦ ⟨rfl, rfl⟩⟩, 1, rfl, rfl, nofun,
    List.nodup_nil, nofun⟩

theorem Agree.stream_live {s : Tables} (h : Agree s) {id : ℕ} {o : Owner}
    (hm : (id, o) ∈ s.allStream) : id ∈ liveIds s := by
  cases o with
  | client k => exact List.mem_append_left _ (List.mem_map_of_mem (h.ofClient id k hm))
  | control k =>
    refine List.mem_append_right _ ?_
    rw [h.ofControl id k hm]
    exact List.mem_singleton_self id

theorem fresh_id {base : ℕ} {s : Tables} (hn : Numbered base s) (hd : s.drawn < 2147483648) :
    s.gSessionId ∉ liveIds s := by
  intro hm
  obtain ⟨i, hi, heq⟩ := hn.live _ hm
  rw [hn.counter] at heq
  exact absurd (idAt_inj hd (by omega) heq) (by omega)

theorem lookup_eq_none_of_not_mem {β : Type} {l : List (ℕ × β)} {id : ℕ}
    (h : ∀ b, (id, b) ∉ l) : l.lookup id = none := by
  rw [List.lookup_eq_none_iff]
  intro p hp
  have hne : id ≠ p.1 := by
    intro heq
    exact h p.2 (by rw [heq]; exact hp)
  simpa using hne

theorem addStream_fresh {s : Tables} (ha : Agree s) {base : ℕ} (hn : Numbered base s)
    (hd : s.drawn < 2147483648) (t : Tables) (ht : t.allStream = s.allStream) (o : Owner) :
    addStream t s.gSessionId o = { t with allStream := (s.gSessionId, o) :: s.allStream } := by
  have hnone : t.allStream.lookup s.gSessionId = none := by
    rw [ht]
    refine lookup_eq_none_of_not_mem fun b hb ↦ ?_
    exact fresh_id hn hd (ha.stream_live hb)
  rw [addStream, hnone, if_neg (by simp), ht]

theorem addStream_drawn (s : Tables) (id : ℕ) (o : Owner) : (addStream s id o).drawn = s.drawn := by
  unfold addStream
  split_ifs <;> rfl

/-- The tables after a client has drawn an id that no live stream has. -/
theorem newProxyClient_eq {s : Tables} (ha : Agree s) {base : ℕ} (hn : Numbered base s)
    (hd : s.drawn < 2147483648) :
    newProxyClient s = { s with
      gSessionId := (s.gSessionId + 2) % idLimit
      drawn := s.drawn + 1
      serial := s.serial + 1
      allStream := (s.gSessionId, .client s.serial) :: s.allStream
      allPc := (s.gSessionId, s.serial) :: s.allPc } := by
  let t : Tables := { s with
    gSessionId := (s.gSessionId + 2) % idLimit, drawn := s.drawn + 1, serial := s.serial + 1 }
  have hadd : addStream t s.gSessionId (.client s.serial) =
      { t with allStream := (s.gSessionId, .client s.serial) :: s.allStream } :=
    addStream_fresh ha hn hd t rfl _
  show { addStream t s.gSessionId (.client s.serial) with
    allPc := (s.gSessionId, s.serial) :: (addStream t s.gSessionId (.client s.serial)).allPc } = _
  rw [hadd]

theorem liveIds_newProxyClient {s : Tables} (ha : Agree s) {base : ℕ} (hn : Numbered base s)
    (hd : s.drawn < 2147483648) :
    liveIds (newProxyClient s) = s.gSessionId :: liveIds s := by
  rw [newProxyClient_eq ha hn hd]
  rfl

theorem newProxyClient_agree {s : Tables} (ha : Agree s) {base : ℕ} (hn : Numbered base s)
    (hm : s.mainCtl.isSome) (hd : s.drawn < 2147483648) : Agree (newProxyClient s) := by
  have hnew := newProxyClient_eq ha hn hd
  have hlive := liveIds_newProxyClient ha hn hd
  refine ⟨?_, ?_, ?_, ?_, ?_, ?_⟩
  · intro id k hk
    rw [hnew] at hk ⊢
    rcases List.mem_cons.mp hk with heq | hk
    · cases heq
      exact List.mem_cons_self
    · exact List.mem_cons_of_mem _ (ha.ofClient id k hk)
  · intro id k hk
    rw [hnew] at hk ⊢
    rcases List.mem_cons.mp hk with heq | hk
    · cases heq
    · exact ha.ofControl id k hk
  · intro id k hk
    rw [hnew] at hk ⊢
    rcases List.mem_cons.mp hk with heq | hk
    · cases heq
      exact List.mem_cons_self
    · exact List.mem_cons_of_mem _ (ha.registered id k hk)
  · intro id hid
    rw [hlive] at hid
    rcases List.mem_cons.mp hid with rfl | hid
    · rw [hn.counter]
      exact idAt_odd hn.odd _
    · exact ha.odd id hid
  · rw [hlive]
    exact List.nodup_cons.mpr ⟨fresh_id hn hd, ha.distinct⟩
  · intro hnone
    rw [hnew] at hnone
    rw [hnone] at hm
    cases hm

theorem newProxyClient_numbered {s : Tables} (ha : Agree s) {base : ℕ} (hn : Numbered base s)
    (hd : s.drawn < 2147483648) : Numbered base (newProxyClient s) := by
  have hnew := newProxyClient_eq ha hn hd
  have hlive := liveIds_newProxyClient ha hn hd
  refine ⟨hn.odd, ?_, ?_, ?_, ?_⟩
  · rw [hnew]
    dsimp only
    rw [hn.counter, idAt_succ]
  · intro id hid
    rw [hlive] at hid
    rw [hnew]
    rcases List.mem_cons.mp hid with rfl | hid
    · exact ⟨s.drawn, Nat.lt_succ_self _, hn.counter⟩
    · obtain ⟨i, hi, heq⟩ := hn.live id hid
      exact ⟨i, Nat.lt_succ_of_lt hi, heq⟩
  · rw [hnew, List.map_cons]
    refine List.nodup_cons.mpr ⟨fun hmem ↦ ?_, hn.keys⟩
    obtain ⟨⟨id, o⟩, hin, heq⟩ := List.mem_map.mp hmem
    obtain rfl : id = s.gSessionId := heq
    exact fresh_id hn hd (ha.stream_live hin)
  · intro c hc
    rw [hnew] at hc ⊢
    obtain ⟨hser, hmux⟩ := hn.control c hc
    exact ⟨Nat.lt_succ_of_lt hser, hmux⟩

theorem newProxyClient_inv {s : Tables} (h : Inv s) (hm : s.mainCtl.isSome)
    (hd : s.drawn + 1 < 2147483648) : Inv (newProxyClient s) := by
  obtain ⟨ha, base, hn⟩ := h
  have hlt : s.drawn < 2147483648 := by omega
  exact ⟨newProxyClient_agree ha hn hm hlt, base, newProxyClient_numbered ha hn hlt⟩

theorem mem_erase_key {β : Type} {l : List (ℕ × β)} (hl : (l.map Prod.fst).Nodup) {sid id : ℕ}
    {b : β} : (id, b) ∈ l.eraseP (·.1 == sid) ↔ (id, b) ∈ l ∧ id ≠ sid := by
  induction l with
  | nil => simp
  | cons p l ih =>
    obtain ⟨hp, hl⟩ := List.nodup_cons.mp (by simpa using hl : (p.1 :: l.map Prod.fst).Nodup)
    by_cases heq : p.1 = sid
    · rw [List.eraseP_cons_of_pos (by simpa using heq)]
      constructor
      · intro hmem
        refine ⟨List.mem_cons_of_mem _ hmem, fun hid ↦ hp ?_⟩
        rw [heq, ← hid]
        exact List.mem_map_of_mem hmem
      · rintro ⟨hmem, hne⟩
        rcases List.mem_cons.mp hmem with rfl | hmem
        · exact absurd heq hne
        · exact hmem
    · rw [List.eraseP_cons_of_neg (by simpa using heq), List.mem_cons, List.mem_cons, ih hl]
      constructor
      · rintro (rfl | ⟨hmem, hne⟩)
        · exact ⟨.inl rfl, heq⟩
        · exact ⟨.inr hmem, hne⟩
      · rintro ⟨rfl | hmem, hne⟩
        · exact .inl rfl
        · exact .inr ⟨hmem, hne⟩

theorem delProxyClientByStreamId_eq (s : Tables) {sid : ℕ} (h : sid ≠ 0) :
    delProxyClientByStreamId s sid = { s with
      allStream := s.allStream.eraseP (·.1 == sid)
      allPc := s.allPc.eraseP (·.1 == sid) } := by
  rw [delProxyClientByStreamId, if_neg h]
  cases hl : s.allPc.lookup sid with
  | some k => simp [delStream, hl]
  | none =>
    have hsame : s.allPc.eraseP (·.1 == sid) = s.allPc := by
      refine List.eraseP_of_forall_not fun p hp ↦ ?_
      have hne := List.lookup_eq_none_iff.mp hl p hp
      simp only [bne_iff_ne, ne_eq] at hne
      simpa using fun heq : p.1 = sid ↦ hne heq.symm
    simp [delStream, hl, hsame]

theorem delProxyClientByStreamId_inv {s : Tables} (h : Inv s) (sid : ℕ) :
    Inv (delProxyClientByStreamId s sid) := by
  by_cases h0 : sid = 0
  · rw [delProxyClientByStreamId, if_pos h0]
    exact h
  obtain ⟨ha, base, hn⟩ := h
  have hpc : (s.allPc.map Prod.fst).Nodup := (List.nodup_append.mp ha.distinct).1
  have hsub : (liveIds (delProxyClientByStreamId s sid)).Sublist (liveIds s) := by
    rw [delProxyClientByStreamId_eq s h0]
    exact List.Sublist.append (List.eraseP_sublist.map _) (List.Sublist.refl _)
  rw [delProxyClientByStreamId_eq s h0] at hsub ⊢
  refine ⟨⟨?_, ?_, ?_, ?_, ?_, ?_⟩, base, hn.odd, hn.counter, ?_, ?_, hn.control⟩
  · intro id k hk
    obtain ⟨hk, hne⟩ := (mem_erase_key hn.keys).mp hk
    exact (mem_erase_key hpc).mpr ⟨ha.ofClient id k hk, hne⟩
  · intro id k hk
    exact ha.ofControl id k ((mem_erase_key hn.keys).mp hk).1
  · intro id k hk
    obtain ⟨hk, hne⟩ := (mem_erase_key hpc).mp hk
    exact (mem_erase_key hn.keys).mpr ⟨ha.registered id k hk, hne⟩
  · intro id hid
    exact ha.odd id (hsub.subset hid)
  · exact hsub.nodup ha.distinct
  · intro hnone
    obtain ⟨hs, hp⟩ := ha.empty hnone
    dsimp only
    rw [hs, hp]
    exact ⟨rfl, rfl⟩
  · intro id hid
    exact hn.live id (hsub.subset hid)
  · exact (List.eraseP_sublist.map _).nodup hn.keys

theorem clearAllProxyClient_inv {s : Tables} (h : Inv s) : Inv (clearAllProxyClient s) := by
  obtain ⟨ha, base, hn⟩ := h
  have hsub : (liveIds (clearAllProxyClient s)).Sublist (liveIds s) := List.sublist_append_right _ _
  exact ⟨⟨nofun, nofun, nofun, fun id hid ↦ ha.odd id (hsub.subset hid), hsub.nodup ha.distinct,
    fun _ ↦ ⟨rfl, rfl⟩⟩, base, hn.odd, hn.counter, fun id hid ↦ hn.live id (hsub.subset hid),
    List.nodup_nil, hn.control⟩

theorem initControlStream_inv {s : Tables} {c : MainControl} (hs : s.allStream = [])
    (hp : s.allPc = []) (hodd : s.gSessionId % 2 = 1) (hlt : s.gSessionId < idLimit)
    (hd : s.drawn = 0) (hser : c.serial < s.serial) (hmux : s.tcpMux = true) :
    Inv (initControlStream s c) := by
  have hnew : initControlStream s c = { s with
      gSessionId := (s.gSessionId + 2) % idLimit
      drawn := 1
      allStream := [(s.gSessionId, .control c.serial)]
      mainCtl := some ⟨c.serial, some s.gSessionId⟩ } := by
    simp [initControlStream, getNextSessionId, addStream, hs, hd]
  have hlive : liveIds (initControlStream s c) = [s.gSessionId] := by
    rw [hnew]
    simp [liveIds, hp]
  have hat : idAt s.gSessionId 0 = s.gSessionId := Nat.mod_eq_of_lt hlt
  refine ⟨⟨?_, ?_, ?_, ?_, ?_, ?_⟩, s.gSessionId, hodd, ?_, ?_, ?_, ?_⟩
  · intro id k hk
    rw [hnew] at hk
    simp at hk
  · intro id k hk
    rw [hnew] at hk ⊢
    simp only [List.mem_singleton, Prod.mk.injEq, Owner.control.injEq] at hk
    rw [hk.1, hk.2]
  · intro id k hk
    rw [hnew] at hk
    simp [hp] at hk
  · intro id hid
    rw [hlive, List.mem_singleton] at hid
    rw [hid]
    exact hodd
  · rw [hlive]
    exact List.nodup_cons.mpr ⟨List.not_mem_nil, List.nodup_nil⟩
  · intro hnone
    rw [hnew] at hnone
    cases hnone
  · rw [hnew]
    dsimp only
    rw [← idAt_succ, hat]
  · intro id hid
    rw [hlive, List.mem_singleton] at hid
    rw [hnew]
    exact ⟨0, Nat.zero_lt_one, by rw [hid, hat]⟩
  · rw [hnew]
    exact List.nodup_cons.mpr ⟨List.not_mem_nil, List.nodup_nil⟩
  · intro c' hc
    rw [hnew] at hc ⊢
    obtain rfl := Option.some.inj hc
    exact ⟨hser, by simp [hmux]⟩

theorem Numbered.gSessionId_lt {base : ℕ} {s : Tables} (h : Numbered base s) :
    s.gSessionId < idLimit := by
  rw [h.counter]
  exact Nat.mod_lt _ (by decide)

theorem Numbered.gSessionId_odd {base : ℕ} {s : Tables} (h : Numbered base s) :
    s.gSessionId % 2 = 1 := by
  rw [h.counter]
  exact idAt_odd h.odd _

theorem inv_of_empty {s : Tables} (hs : s.allStream = []) (hp : s.allPc = [])
    (hodd : s.gSessionId % 2 = 1) (hlt : s.gSessionId < idLimit) (hd : s.drawn = 0)
    (hc : ∀ c, s.mainCtl = some c → c.serial < s.serial ∧ c.streamId = none ∧ s.tcpMux = false) :
    Inv s := by
  have hstream : s.mainCtl.bind MainControl.streamId = none := by
    cases hm : s.mainCtl with
    | none => rfl
    | some c => exact (hc c hm).2.1
  have hlive : liveIds s = [] := by
    rw [liveIds, hp, hstream]
    rfl
  have hat : idAt s.gSessionId 0 = s.gSessionId := Nat.mod_eq_of_lt hlt
  refine ⟨⟨?_, ?_, ?_, ?_, ?_, fun _ ↦ ⟨hs, hp⟩⟩, s.gSessionId, hodd, ?_, ?_, ?_, ?_⟩
  · simp [hs]
  · simp [hs]
  · simp [hp]
  · simp [hlive]
  · rw [hlive]
    exact List.nodup_nil
  · rw [hd, hat]
  · simp [hlive]
  · simp [hs]
  · intro c hm
    obtain ⟨hser, hid, hmux⟩ := hc c hm
    exact ⟨hser, by rw [hid, hmux]; rfl⟩

theorem clearMainControl_reset_inv {s : Tables} (h : Inv s) :
    Inv (clearMainControl (resetSessionId s)) := by
  obtain ⟨ha, base, hn⟩ := h
  cases hm : s.mainCtl with
  | none =>
    obtain ⟨hs, hp⟩ := ha.empty hm
    have hsame : clearMainControl (resetSessionId s) = resetSessionId s := by
      simp [clearMainControl, resetSessionId, hm]
    rw [hsame]
    refine inv_of_empty hs hp rfl (show 1 < idLimit by decide) rfl fun c hc ↦ ?_
    rw [show (resetSessionId s).mainCtl = s.mainCtl from rfl, hm] at hc
    cases hc
  | some c =>
    obtain ⟨hser, hid⟩ := hn.control c hm
    cases hmux : s.tcpMux with
    | true =>
      have hnew : clearMainControl (resetSessionId s) =
          initControlStream (clearAllProxyClient (resetSessionId s)) c := by
        simp [clearMainControl, resetSessionId, clearAllProxyClient, hm, hmux]
      rw [hnew]
      exact initControlStream_inv rfl rfl rfl (show 1 < idLimit by decide) rfl hser hmux
    | false =>
      have hnew : clearMainControl (resetSessionId s) = clearAllProxyClient (resetSessionId s) := by
        simp [clearMainControl, resetSessionId, clearAllProxyClient, hm, hmux]
      rw [hnew]
      refine inv_of_empty rfl rfl rfl (show 1 < idLimit by decide) rfl fun c' hc ↦ ?_
      have hc' : s.mainCtl = some c' := hc
      rw [hm] at hc'
      obtain rfl := Option.some.inj hc'
      rw [hmux] at hid
      exact ⟨hser, Option.not_isSome_iff_eq_none.mp (by simp [hid]), hmux⟩

theorem closeMainControl_plain {s : Tables} (h : Inv s) (hm : s.mainCtl = none ∨ s.tcpMux = false) :
    (closeMainControl s).allStream = [] ∧ (closeMainControl s).allPc = [] ∧
      (closeMainControl s).mainCtl = none ∧ (closeMainControl s).gSessionId = s.gSessionId ∧
      (closeMainControl s).tcpMux = s.tcpMux ∧ (closeMainControl s).drawn = s.drawn := by
  cases hc : s.mainCtl with
  | none =>
    have hsame : closeMainControl s = s := by simp [closeMainControl, hc]
    obtain ⟨hs, hp⟩ := h.1.empty hc
    rw [hsame]
    exact ⟨hs, hp, hc, rfl, rfl, rfl⟩
  | some c =>
    have hmux : s.tcpMux = false := by
      rcases hm with hm | hm
      · rw [hm] at hc
        cases hc
      · exact hm
    have hnew : closeMainControl s = { clearAllProxyClient s with mainCtl := none } := by
      simp [closeMainControl, clearMainControl, clearAllProxyClient, hc, hmux]
    rw [hnew]
    exact ⟨rfl, rfl, rfl, rfl, rfl, rfl⟩

theorem closeMainControl_inv {s : Tables} (h : Inv s) (hm : s.mainCtl = none ∨ s.tcpMux = false) :
    Inv (closeMainControl s) := by
  obtain ⟨hs, hp, hmain, hg, hmux, hd⟩ := closeMainControl_plain h hm
  obtain ⟨ha, base, hn⟩ := h
  have hlive : liveIds (closeMainControl s) = [] := by
    rw [liveIds, hp, hmain]
    rfl
  refine ⟨⟨?_, ?_, ?_, ?_, ?_, fun _ ↦ ⟨hs, hp⟩⟩, base, hn.odd, ?_, ?_, ?_, ?_⟩
  · simp [hs]
  · simp [hs]
  · simp [hp]
  · simp [hlive]
  · rw [hlive]
    exact List.nodup_nil
  · rw [hg, hd]
    exact hn.counter
  · simp [hlive]
  · simp [hs]
  · simp [hmain]

theorem initMainControl_inv {s : Tables} (h : Inv s) {r : InitResult}
    (hc : ¬ Strands s (.initMainControl r)) : Inv (initMainControl s r) := by
  have hm : s.mainCtl = none ∨ s.tcpMux = false := by
    cases hmux : s.tcpMux with
    | false => exact .inr rfl
    | true =>
      refine .inl (Option.not_isSome_iff_eq_none.mp fun hsome ↦ hc ⟨hmux, .inl hsome⟩)
  obtain ⟨hs, hp, hmain, hg, hmux, -⟩ := closeMainControl_plain h hm
  obtain ⟨-, base, hn⟩ := h
  have hodd := hn.gSessionId_odd
  have hlt := hn.gSessionId_lt
  rw [← hg] at hodd hlt
  let t : Tables := { closeMainControl s with drawn := 0 }
  have hplain : ∀ n, Inv { t with serial := n } := fun n ↦
    inv_of_empty hs hp hodd hlt rfl (by simp [t, hmain])
  have hmade : ∀ r : InitResult, r ≠ .noMemory → r ≠ .noEventBase →
      initMainControl s r =
        let c : MainControl := ⟨t.serial, none⟩
        let s₁ := { t with serial := t.serial + 1, mainCtl := some c }
        let s₂ := if s₁.tcpMux then initControlStream s₁ c else s₁
        if r.late then { s₂ with mainCtl := none } else s₂ := by
    intro r h₁ h₂
    cases r <;> first | rfl | exact absurd rfl h₁ | exact absurd rfl h₂
  cases hmem : decide (r = .noMemory) with
  | true =>
    rw [of_decide_eq_true hmem]
    exact hplain t.serial
  | false =>
    cases hbase : decide (r = .noEventBase) with
    | true =>
      rw [of_decide_eq_true hbase]
      exact hplain (t.serial + 1)
    | false =>
      rw [hmade r (of_decide_eq_false hmem) (of_decide_eq_false hbase)]
      cases hx : s.tcpMux with
      | false =>
        have ht : t.tcpMux = false := by rw [show t.tcpMux = s.tcpMux from hmux, hx]
        cases hl : r.late with
        | true =>
          simp only [ht, Bool.false_eq_true, if_false, if_true]
          exact inv_of_empty hs hp hodd hlt rfl nofun
        | false =>
          simp only [ht, Bool.false_eq_true, if_false]
          refine inv_of_empty hs hp hodd hlt rfl fun c hc ↦ ?_
          obtain rfl := Option.some.inj hc
          exact ⟨Nat.lt_succ_self _, rfl, rfl⟩
      | true =>
        have ht : t.tcpMux = true := by rw [show t.tcpMux = s.tcpMux from hmux, hx]
        have hl : r.late = false := by
          by_contra hl
          exact hc ⟨hx, .inr (by simpa using hl)⟩
        simp only [ht, hl, Bool.false_eq_true, if_false, if_true]
        exact initControlStream_inv hs hp hodd hlt rfl (Nat.lt_succ_self _) rfl

theorem step_inv {s : Tables} (h : Inv s) {op : Op} (hcall : Called s op)
    (hd : (step s op).drawn < 2147483648) (hc : ¬ Strands s op) : Inv (step s op) := by
  cases op with
  | loadConfig tcpMux =>
    obtain ⟨ha, base, hn⟩ := h
    have hnone : s.mainCtl = none := hcall
    refine ⟨⟨ha.ofClient, ha.ofControl, ha.registered, ha.odd, ha.distinct, ha.empty⟩, base, hn.odd,
      hn.counter, hn.live, hn.keys, fun c hsome ↦ ?_⟩
    have hsome' : s.mainCtl = some c := hsome
    rw [hnone] at hsome'
    cases hsome'
  | initMainControl r => exact initMainControl_inv h hc
  | newProxyClient =>
    have hdrawn : s.drawn + 1 < 2147483648 := by
      have heq : (newProxyClient s).drawn = s.drawn + 1 := addStream_drawn _ _ _
      rw [← heq]
      exact hd
    exact newProxyClient_inv h hcall hdrawn
  | delProxyClientByStreamId sid => exact delProxyClientByStreamId_inv h sid
  | clearAllProxyClient => exact clearAllProxyClient_inv h
  | reconnect => exact clearMainControl_reset_inv h
  | closeMainControl =>
    refine closeMainControl_inv h ?_
    cases hmux : s.tcpMux with
    | false => exact .inr rfl
    | true => exact .inl (Option.not_isSome_iff_eq_none.mp fun hsome ↦ hc ⟨hmux, hsome⟩)

theorem mem_initControlStream {s : Tables} {c : MainControl} {p : ℕ × Owner}
    (h : p ∈ s.allStream) : p ∈ (initControlStream s c).allStream := by
  show p ∈ (addStream _ _ _).allStream
  unfold addStream
  split_ifs
  · exact h
  · exact List.mem_cons_of_mem _ h

theorem closeMainControl_mux {s : Tables} {c : MainControl} (hm : s.mainCtl = some c)
    (hmux : s.tcpMux = true) :
    (closeMainControl s).allStream = [(s.gSessionId, .control c.serial)] ∧
      (closeMainControl s).mainCtl = none ∧ (closeMainControl s).serial = s.serial := by
  simp [closeMainControl, clearMainControl, clearAllProxyClient, initControlStream,
    getNextSessionId, addStream, hm, hmux]

theorem not_agree_of_entry {s : Tables} {id k : ℕ} (h : (id, .control k) ∈ s.allStream)
    (hm : ∀ c, s.mainCtl = some c → c.serial ≠ k) : ¬ Agree s := by
  intro ha
  exact hm _ (ha.ofControl id k h) rfl

theorem initMainControl_closed {s : Tables} {c : MainControl} (hn : c.serial < s.serial)
    (hm : s.mainCtl = some c) (hmux : s.tcpMux = true) (r : InitResult) :
    ¬ Agree (initMainControl s r) := by
  obtain ⟨hs, hnone, hser⟩ := closeMainControl_mux hm hmux
  have hentry : (s.gSessionId, .control c.serial) ∈ (closeMainControl s).allStream := by
    rw [hs]
    exact List.mem_cons_self
  have hmade : ∀ c' : MainControl, c'.serial = s.serial → c'.serial ≠ c.serial := by
    intro c' h'
    omega
  let t : Tables := { closeMainControl s with
    drawn := 0, serial := (closeMainControl s).serial + 1
    mainCtl := some ⟨(closeMainControl s).serial, none⟩ }
  have hstream : (s.gSessionId, .control c.serial) ∈
      (if t.tcpMux then initControlStream t ⟨(closeMainControl s).serial, none⟩ else t).allStream := by
    split_ifs
    · exact mem_initControlStream hentry
    · exact hentry
  have hmain : ∀ c', (if t.tcpMux then
      initControlStream t ⟨(closeMainControl s).serial, none⟩ else t).mainCtl = some c' →
        c'.serial = s.serial := by
    intro c' h'
    split_ifs at h'
    · obtain rfl := Option.some.inj h'
      exact hser
    · obtain rfl := Option.some.inj h'
      exact hser
  cases r with
  | noMemory => exact not_agree_of_entry hentry (by simp [initMainControl, hnone])
  | noEventBase => exact not_agree_of_entry hentry (by simp [initMainControl, hnone])
  | noTls => exact not_agree_of_entry hstream nofun
  | noDns => exact not_agree_of_entry hstream nofun
  | ok => exact not_agree_of_entry hstream fun c' h' ↦ hmade c' (hmain c' h')

theorem initMainControl_late {s : Tables} (h : Inv s) (hm : s.mainCtl = none)
    (hmux : s.tcpMux = true) {r : InitResult} (hr : r.late = true) :
    ¬ Agree (initMainControl s r) := by
  have hs := (h.1.empty hm).1
  have hentry : (s.gSessionId, .control s.serial) ∈ (initMainControl s r).allStream ∧
      (initMainControl s r).mainCtl = none := by
    cases r <;> first
      | exact absurd hr Bool.false_ne_true
      | simp [initMainControl, closeMainControl, initControlStream, getNextSessionId, addStream,
          InitResult.late, hm, hmux, hs]
  exact not_agree_of_entry hentry.1 (by simp [hentry.2])

theorem not_agree_of_strands {s : Tables} (h : Inv s) {op : Op} (hc : Strands s op) :
    ¬ Agree (step s op) := by
  obtain ⟨base, hn⟩ := h.2
  cases op with
  | closeMainControl =>
    obtain ⟨hmux, hsome⟩ := hc
    obtain ⟨c, hm⟩ := Option.isSome_iff_exists.mp hsome
    obtain ⟨hs, hnone, -⟩ := closeMainControl_mux hm hmux
    have hentry : (s.gSessionId, .control c.serial) ∈ (closeMainControl s).allStream := by
      rw [hs]
      exact List.mem_cons_self
    refine not_agree_of_entry hentry fun c' h' ↦ ?_
    have hsome' : (closeMainControl s).mainCtl = some c' := h'
    rw [hnone] at hsome'
    cases hsome'
  | initMainControl r =>
    obtain ⟨hmux, hor⟩ := hc
    cases hm : s.mainCtl with
    | some c => exact initMainControl_closed (hn.control c hm).1 hm hmux r
    | none =>
      rw [hm] at hor
      exact initMainControl_late h hm hmux (hor.resolve_left (by simp))
  | loadConfig _ | newProxyClient | delProxyClientByStreamId _ | clearAllProxyClient
  | reconnect => exact hc.elim

theorem always_agree_iff {s : Tables} (h : Inv s) {ops : List Op} (hcall : Along step Called s ops)
    (hd : Always step (fun t ↦ t.drawn < 2147483648) s ops) :
    Always step Agree s ops ↔ Along step (fun t op ↦ ¬ Strands t op) s ops := by
  induction ops generalizing s with
  | nil => exact ⟨fun _ ↦ trivial, fun _ ↦ h.1⟩
  | cons op ops ih =>
    constructor
    · intro hall
      have hc : ¬ Strands s op := fun hc ↦ not_agree_of_strands h hc hall.2.first
      exact ⟨hc, (ih (step_inv h hcall.1 hd.2.first hc) hcall.2 hd.2).mp hall.2⟩
    · intro hall
      exact ⟨h.1, (ih (step_inv h hcall.1 hd.2.first hall.1) hcall.2 hd.2).mpr hall.2⟩

/-- The two tables agree throughout a run exactly when no step frees a control
structure whose stream is still registered. -/
theorem registries_agree_iff (tcpMux : Bool) {ops : List Op}
    (hcall : Along step Called (.start tcpMux) ops)
    (hd : Always step (fun t ↦ t.drawn < 2147483648) (.start tcpMux) ops) :
    Always step Agree (.start tcpMux) ops ↔
      Along step (fun t op ↦ ¬ Strands t op) (.start tcpMux) ops :=
  always_agree_iff (start_inv tcpMux) hcall hd

/-- A session with one client that reconnects and is stopped. -/
def sampleOps : List Op :=
  [.initMainControl .ok, .newProxyClient, .newProxyClient, .delProxyClientByStreamId 3, .reconnect,
   .newProxyClient]

theorem registries_agree_sampleOps : Always step Agree (.start true) sampleOps :=
  (registries_agree_iff true (by decide) (by decide)).mpr (by decide)

/-- Start and stop with `tcp_mux` on: the stream of the freed structure stays. -/
def stoppedOps : List Op := [.initMainControl .ok, .closeMainControl]

theorem not_agree_stoppedOps :
    Along step Called (.start true) stoppedOps ∧
      Always step (fun t ↦ t.drawn < 2147483648) (.start true) stoppedOps ∧
      ¬ Always step Agree (.start true) stoppedOps := by
  refine ⟨by decide, by decide, fun hall ↦ ?_⟩
  have hstream := (hall.last.empty (by decide)).1
  exact absurd hstream (by decide)

end Xfrpc.Control.Registry
