import Xfrpc.Control.Registry
import Xfrpc.Foundations.LittleEndian
import Xfrpc.Uthash.Runs

namespace Xfrpc.Uthash.Streams

open Foundations.LittleEndian Control.Registry Macros Refinement

/-- The bytes of `stream->id`, which is the key. -/
def idKey (id : ℕ) : Bytes := toLe 4 id

section Functions

variable (room : ℕ → Bool)

/-- `add_stream` of a stream with the given id. -/
def addStream (id : ℕ) (stream : Owner) (allStream : Hash Owner) : Except Stop (Hash Owner) := do
  match ← hashFind hashJen (idKey id) allStream with
  | some _ => return allStream
  | none => hashAddKeyptr room hashJen (idKey id) stream allStream

/-- `del_stream`. -/
def delStream (id : ℕ) (allStream : Hash Owner) : Except Stop (Hash Owner) :=
  if allStream.head = none then .ok allStream
  else do
    match ← hashFind hashJen (idKey id) allStream with
    | some stream => hashDelete stream allStream
    | none => return allStream

/-- `clear_stream`. -/
def clearStream (allStream : Hash Owner) : Hash Owner :=
  if allStream.head = none then allStream else hashClear allStream

/-- `get_stream_by_id`. -/
def getStreamById (id : ℕ) (allStream : Hash Owner) : Except Stop (Option Owner) :=
  if allStream.head = none then .ok none else hashFind hashJen (idKey id) allStream

inductive StreamOp
  | add (id : ℕ) (stream : Owner)
  | del (id : ℕ)
  | clear
  deriving DecidableEq, Repr

def StreamOp.step : StreamOp → Hash Owner → Except Stop (Hash Owner)
  | .add id stream, h => addStream room id stream h
  | .del id, h => delStream id h
  | .clear, h => .ok (clearStream h)

def runStreams : List StreamOp → Hash Owner → Except Stop (Hash Owner)
  | [], h => .ok h
  | op :: ops, h => do runStreams ops (← op.step room h)

end Functions

/-- The same on the registry. -/
def StreamOp.register (s : Tables) : StreamOp → Tables
  | .add id stream => Control.Registry.addStream s id stream
  | .del id => Control.Registry.delStream s id
  | .clear => { s with allStream := [] }

/-- An id is a word, and a stream that is added has not been added under another one. -/
def StreamOp.Sane (s : Tables) : StreamOp → Prop
  | .add id stream => id < 2 ^ 32 ∧ ((s.allStream.lookup id).isNone = true →
      stream ∉ s.allStream.map Prod.snd)
  | .del id => id < 2 ^ 32
  | .clear => True

instance (s : Tables) : ∀ op, Decidable (StreamOp.Sane s op)
  | .add id stream => inferInstanceAs (Decidable (id < 2 ^ 32 ∧
      ((s.allStream.lookup id).isNone = true → stream ∉ s.allStream.map Prod.snd)))
  | .del id => inferInstanceAs (Decidable (id < 2 ^ 32))
  | .clear => .isTrue trivial

def SaneRun : List StreamOp → Tables → Prop
  | [], _ => True
  | op :: ops, s => op.Sane s ∧ SaneRun ops (op.register s)

instance decidableSaneRun : ∀ (ops : List StreamOp) (s : Tables), Decidable (SaneRun ops s)
  | [], _ => .isTrue trivial
  | op :: ops, s =>
    have := decidableSaneRun ops (op.register s)
    inferInstanceAs (Decidable (op.Sane s ∧ SaneRun ops (op.register s)))

/-- The registry lists the entries of the table, the last one first. -/
structure Lists (es : Entries Owner) (l : List (ℕ × Owner)) : Prop where
  eq : l = es.reverse.map fun e ↦ (ofLe e.2, e.1)
  word : ∀ e ∈ es, e.2.length = 4
  distinct : (es.map Prod.snd).Nodup

theorem idKey_inj {id : ℕ} (hid : id < 2 ^ 32) {k : Bytes} (hk : k.length = 4) :
    ofLe k = id ↔ k = idKey id := by
  constructor
  · intro h
    refine ofLe_inj (by rw [hk, idKey, toLe_length]) ?_
    rw [h, idKey, ofLe_toLe hid]
  · rintro rfl
    exact ofLe_toLe hid

variable {es : Entries Owner} {l : List (ℕ × Owner)}

theorem Lists.mem_iff (hl : Lists es l) {id : ℕ} (hid : id < 2 ^ 32) {a : Owner} :
    (id, a) ∈ l ↔ (a, idKey id) ∈ es := by
  rw [hl.eq, List.mem_map]
  constructor
  · rintro ⟨⟨b, k⟩, he, heq⟩
    obtain ⟨hk, rfl⟩ := Prod.mk.inj heq
    rw [List.mem_reverse] at he
    rwa [← (idKey_inj hid (hl.word _ he)).mp hk]
  · intro ha
    refine ⟨_, List.mem_reverse.mpr ha, ?_⟩
    rw [(idKey_inj hid (hl.word _ ha)).mpr rfl]

/-- No id is listed twice. -/
theorem Lists.ids (hl : Lists es l) : (l.map Prod.fst).Nodup := by
  rw [hl.eq, List.map_map, List.map_reverse, List.nodup_reverse]
  have hkeys := hl.distinct
  refine List.Nodup.map_on (fun x hx y hy hxy ↦ ?_) (List.Nodup.of_map Prod.snd hkeys)
  have hk := ofLe_inj (by rw [hl.word x hx, hl.word y hy]) hxy
  exact List.inj_on_of_nodup_map hkeys hx hy hk

theorem Lists.lookup_eq_some (hl : Lists es l) {id : ℕ} {a : Owner} (ha : (id, a) ∈ l) :
    l.lookup id = some a := by
  obtain ⟨pre, post, hsplit⟩ := List.append_of_mem ha
  refine List.lookup_eq_some_iff.mpr ⟨pre, post, hsplit, fun p hp ↦ ?_⟩
  have hids := hl.ids
  rw [hsplit, List.map_append, List.map_cons] at hids
  rw [bne_iff_ne]
  intro he
  exact (List.nodup_cons.mp (List.nodup_middle.mp hids)).1
    (List.mem_append_left _ (List.mem_map.mpr ⟨p, hp, he.symm⟩))

variable {h : Hash Owner}

theorem hashFind_lookup (hr : Represents hashJen h es) (hl : Lists es l) {id : ℕ}
    (hid : id < 2 ^ 32) : hashFind hashJen (idKey id) h = .ok (l.lookup id) := by
  obtain ⟨r, hfind, hsome, hnone⟩ := hashFind_spec hr (idKey id)
  rw [hfind]
  cases r with
  | some a => rw [hl.lookup_eq_some ((hl.mem_iff hid).mpr (hsome a rfl))]
  | none =>
    rw [lookup_eq_none_of_not_mem fun a ha ↦ hnone rfl a ((hl.mem_iff hid).mp ha)]

theorem Lists.nil_of_head (hr : Represents hashJen h es) (hl : Lists es l) (hhead : h.head = none) :
    l = [] := by
  rw [hl.eq, hr.head_eq_none.mp hhead]
  rfl

theorem addStream_spec (room : ℕ → Bool) {s : Tables} (hr : Represents hashJen h es)
    (hl : Lists es s.allStream) {id : ℕ} {stream : Owner} (hid : id < 2 ^ 32)
    (hnew : (s.allStream.lookup id).isNone = true → stream ∉ s.allStream.map Prod.snd) :
    (∃ h' es', addStream room id stream h = .ok h' ∧ Represents hashJen h' es' ∧
      Lists es' (Control.Registry.addStream s id stream).allStream) ∨
    (∃ n, room n = false) ∧ addStream room id stream h = .error .fatal := by
  unfold addStream Control.Registry.addStream
  rw [hashFind_lookup hr hl hid]
  cases hlookup : s.allStream.lookup id with
  | some o => exact .inl ⟨h, es, rfl, hr, hl⟩
  | none =>
    rw [hlookup] at hnew
    have hfresh : stream ∉ items es := by
      intro hin
      apply hnew rfl
      obtain ⟨e, he, rfl⟩ := List.mem_map.mp hin
      rw [hl.eq, List.map_map]
      exact List.mem_map.mpr ⟨e, List.mem_reverse.mpr he, rfl⟩
    obtain ⟨h', hadd, hr'⟩ | hfatal := hashAddKeyptr_spec room hr hfresh (idKey id)
    · refine .inl ⟨h', _, hadd, hr', ?_, fun e he ↦ ?_, ?_⟩
      · have hword : ofLe (idKey id) = id := ofLe_toLe hid
        rw [if_neg (by simp), List.reverse_append, List.map_append, ← hl.eq,
          List.reverse_singleton, List.map_singleton, hword]
        rfl
      · obtain he | he := List.mem_append.mp he
        · exact hl.word e he
        · obtain rfl := List.mem_singleton.mp he
          exact toLe_length 4 id
      · rw [List.map_append]
        refine List.nodup_append.mpr ⟨hl.distinct, List.nodup_singleton _, fun x hx y hy hxy ↦ ?_⟩
        obtain ⟨e, he, rfl⟩ := List.mem_map.mp hx
        obtain rfl := List.mem_singleton.mp hy
        have hsame : (e.1, idKey id) ∈ es := by
          rw [← show e.2 = idKey id from hxy]
          exact he
        rw [hl.lookup_eq_some ((hl.mem_iff hid).mpr hsame)] at hlookup
        cases hlookup
    · exact .inr hfatal

theorem delStream_spec {s : Tables} (hr : Represents hashJen h es) (hl : Lists es s.allStream)
    {id : ℕ} (hid : id < 2 ^ 32) :
    ∃ h' es', delStream id h = .ok h' ∧ Represents hashJen h' es' ∧
      Lists es' (Control.Registry.delStream s id).allStream := by
  unfold delStream Control.Registry.delStream
  by_cases hhead : h.head = none
  · rw [if_pos hhead]
    refine ⟨h, es, rfl, hr, ?_⟩
    have hnil := hl.nil_of_head hr hhead
    dsimp only
    rw [hnil, List.eraseP_nil, ← hnil]
    exact hl
  rw [if_neg hhead, hashFind_lookup hr hl hid]
  dsimp only
  cases hlookup : s.allStream.lookup id with
  | none =>
    refine ⟨h, es, rfl, hr, ?_⟩
    rw [List.eraseP_of_forall_not fun p hp ↦ ?_]
    · exact hl
    · have hne := List.lookup_eq_none_iff.mp hlookup p hp
      rw [bne_iff_ne] at hne
      rw [beq_iff_eq]
      exact fun he ↦ hne he.symm
  | some a =>
    obtain ⟨pre₀, post₀, hmem, -⟩ := List.lookup_eq_some_iff.mp hlookup
    have ha : (a, idKey id) ∈ es := (hl.mem_iff hid).mp (by rw [hmem]; simp)
    obtain ⟨pre, post, rfl⟩ := List.append_of_mem ha
    obtain ⟨h', hdel, hr'⟩ := hashDelete_spec hr
    refine ⟨h', pre ++ post, hdel, hr', ?_, fun e he ↦ hl.word e ?_, ?_⟩
    · have hids := hl.ids
      have heq := hl.eq
      have hword : ofLe (idKey id) = id := ofLe_toLe hid
      rw [List.reverse_append, List.reverse_cons, List.append_assoc, List.singleton_append,
        List.map_append, List.map_cons, hword] at heq
      rw [heq, List.map_append, List.map_cons] at hids
      rw [heq, List.eraseP_append_right _ fun p hp ↦ ?_, List.eraseP_cons_of_pos (by simp),
        List.reverse_append, List.map_append]
      rw [beq_iff_eq]
      rintro rfl
      exact (List.nodup_cons.mp (List.nodup_middle.mp hids)).1
        (List.mem_append_left _ (List.mem_map.mpr ⟨p, hp, rfl⟩))
    · exact List.mem_append.mpr ((List.mem_append.mp he).imp_right (List.mem_cons_of_mem _))
    · have hkeys := hl.distinct
      rw [List.map_append, List.map_cons] at hkeys
      rw [List.map_append]
      exact (List.nodup_cons.mp (List.nodup_middle.mp hkeys)).2

theorem clearStream_spec (h : Hash Owner) : Represents hashJen (clearStream h) [] := by
  unfold clearStream
  by_cases hhead : h.head = none
  · rw [if_pos hhead]
    exact represents_nil hhead
  · rw [if_neg hhead]
    exact represents_nil rfl

theorem runStreams_spec (room : ℕ → Bool) {ops : List StreamOp} {s : Tables}
    (hr : Represents hashJen h es) (hl : Lists es s.allStream) (hops : SaneRun ops s) :
    (∃ h' es', runStreams room ops h = .ok h' ∧ Represents hashJen h' es' ∧
      Lists es' (ops.foldl StreamOp.register s).allStream) ∨
    (∃ n, room n = false) ∧ runStreams room ops h = .error .fatal := by
  induction ops generalizing h es s with
  | nil => exact .inl ⟨h, es, rfl, hr, hl⟩
  | cons op ops ih =>
    obtain ⟨hop, hrest⟩ := hops
    have hstep : (∃ h' es', op.step room h = .ok h' ∧ Represents hashJen h' es' ∧
        Lists es' (op.register s).allStream) ∨
        (∃ n, room n = false) ∧ op.step room h = .error .fatal := by
      cases op with
      | add id stream => exact addStream_spec room hr hl hop.1 hop.2
      | del id => exact .inl (delStream_spec hr hl hop)
      | clear =>
        refine .inl ⟨_, [], rfl, clearStream_spec h, rfl, fun e he ↦ ?_, List.nodup_nil⟩
        exact absurd he List.not_mem_nil
    rw [runStreams]
    obtain ⟨h', es', hstep, hr', hl'⟩ | ⟨hroom, hfatal⟩ := hstep
    · rw [hstep]
      exact ih hr' hl' hrest
    · rw [hfatal]
      exact .inr ⟨hroom, rfl⟩

/-- The streams in their hash table: after every run, each id leads to the stream that the
registry has under it, and the table passes its check. -/
theorem streams_refine (room : ℕ → Bool) {h₀ : Hash Owner} (hhead : h₀.head = none)
    (tcpMux : Bool) {ops : List StreamOp} (hops : SaneRun ops (Tables.start tcpMux)) :
    (∃ h, runStreams room ops h₀ = .ok h ∧ hashFsck h = true ∧
      hashCnt h = (ops.foldl StreamOp.register (Tables.start tcpMux)).allStream.length ∧
      ∀ id < 2 ^ 32, getStreamById id h =
        .ok ((ops.foldl StreamOp.register (Tables.start tcpMux)).allStream.lookup id)) ∨
    (∃ n, room n = false) ∧ runStreams room ops h₀ = .error .fatal := by
  have hstart : Lists [] (Tables.start tcpMux).allStream :=
    ⟨rfl, fun e he ↦ absurd he List.not_mem_nil, List.nodup_nil⟩
  obtain ⟨h, es, hrun, hr, hl⟩ | hfatal := runStreams_spec room (represents_nil hhead) hstart hops
  swap
  · exact .inr hfatal
  refine .inl ⟨h, hrun, Runs.hashFsck_eq hr, ?_, fun id hid ↦ ?_⟩
  · rw [hashCnt_spec hr, hl.eq, List.length_map, List.length_reverse]
  · unfold getStreamById
    by_cases hhead : h.head = none
    · rw [if_pos hhead, hl.nil_of_head hr hhead]
      rfl
    · rw [if_neg hhead]
      exact hashFind_lookup hr hl hid

/-- Two streams, one of them added again and the other one deleted. -/
def twoStreams : List StreamOp :=
  [.add 1 (.control 0), .add 3 (.client 1), .add 1 (.control 0), .del 3, .del 5]

/-- A table before its first stream. -/
def noStreams : Hash Owner where
  head := none
  tbl := hashMakeTable (.control 0)
  app := ⟨fun _ ↦ none, fun _ ↦ none⟩
  bkt := ⟨fun _ ↦ none, fun _ ↦ none⟩
  key _ := []
  keylen _ := 0
  hashv _ := 0

theorem streams_refine_twoStreams :
    (∃ h, runStreams (fun _ ↦ true) twoStreams noStreams = .ok h ∧ hashFsck h = true ∧
      hashCnt h = 1 ∧
      ∀ id < 2 ^ 32, getStreamById id h = .ok ([(1, Owner.control 0)].lookup id)) ∨
    (∃ n : ℕ, (fun _ ↦ true) n = false) ∧
      runStreams (fun _ ↦ true) twoStreams noStreams = .error .fatal :=
  streams_refine (fun _ ↦ true) rfl true (by decide)

end Xfrpc.Uthash.Streams
