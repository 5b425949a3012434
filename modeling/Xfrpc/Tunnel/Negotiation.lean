import Xfrpc.Foundations.Runs
import Xfrpc.Tunnel.Client
import Xfrpc.Tunnel.ConnectTarget

namespace Xfrpc.Tunnel.Negotiation

open Client ConnectTarget Foundations.Runs Service

/-- A socks5 client as its two ends see it: what it has written to the server, what it
connects to, and what it has put into the output of that connection. A connect that is
started comes about in the end. -/
structure Nego where
  state : Socks5State
  buf : Bytes
  replies : List Bytes
  target : Option Target
  connecting : Bool
  handed : Bytes
  deriving DecidableEq, Repr

def Nego.new : Nego :=
  { state := .init, buf := [], replies := [], target := none, connecting := false, handed := [] }

/-- The greeting in the loop of `handle_socks5`; true when the loop goes on. The reply
is written before the list of methods is known to be there. -/
def Nego.greet (n : Nego) : Nego × Bool :=
  if n.buf.length < 3 then (n, false)
  else if byteAt n.buf 0 ≠ 0x05 then ({ n with state := .broken }, false)
  else
    let n' := { n with replies := n.replies ++ [noAuthResp] }
    let consumed := 2 + byteAt n.buf 1
    if n.buf.length < consumed then (n', false)
    else ({ n' with buf := n.buf.drop consumed, state := .handshake }, true)

/-- The request in the loop of `handle_socks5`. -/
def Nego.request (n : Nego) : Nego :=
  if n.buf.length < 4 then n
  else if byteAt n.buf 0 ≠ 0x05 ∨ byteAt n.buf 1 ≠ 0x01 ∨ byteAt n.buf 2 ≠ 0x00 then
    { n with state := .broken }
  else
    match parseAddr (n.buf.drop 3) with
    | none => n
    | some (a, k) =>
      { n with
        target := socks5ProxyConnect a
        connecting := true
        handed := n.buf.drop (3 + k)
        buf := []
        state := .connect }

def Nego.loop (n : Nego) : Nego :=
  match n.state with
  | .init =>
    match n.greet with
    | (n', false) => n'
    | (n', true) => if n'.buf = [] then n' else n'.request
  | .handshake => n.request
  | .connect | .established | .broken => n

/-- `handle_socks5` on what one call delivers. -/
def Nego.data (n : Nego) (bs : Bytes) : Nego :=
  if bs = [] then n
  else if n.state = .established then { n with handed := n.handed ++ bs }
  else Nego.loop { n with buf := n.buf ++ bs }

/-- `handle_post_connection_data`, once for a connect that was started. -/
def Nego.connected (n : Nego) : Nego :=
  if n.connecting then
    { n with
      connecting := false
      handed := n.handed ++ n.buf
      buf := []
      replies := n.replies ++ [successReply]
      state := .established }
  else n

inductive Event
  | data (bs : Bytes)
  | connected
  deriving DecidableEq, Repr

def step (n : Nego) : Event → Nego
  | .data bs => n.data bs
  | .connected => n.connected

def Event.bytes : Event → Bytes
  | .data bs => bs
  | .connected => []

/-- All the bytes that the calls deliver. -/
def received (es : List Event) : Bytes := (es.map Event.bytes).flatten

/-- What comes out at both ends, with the connect completed at the latest in the end. -/
structure Outcome where
  replies : List Bytes
  target : Option Target
  handed : Bytes
  deriving DecidableEq, Repr

def outcome (es : List Event) : Outcome :=
  let n := (es.foldl step Nego.new).connected
  ⟨n.replies, n.target, n.handed⟩

/-- What a SOCKS5 client sends: its methods, the address part of its CONNECT request,
and the payload. -/
structure Dialogue where
  methods : Bytes
  addr : Bytes
  payload : Bytes
  few : methods.length ≤ 255

def Dialogue.greeting (d : Dialogue) : Bytes := [0x05, .ofNat d.methods.length] ++ d.methods

def Dialogue.request (d : Dialogue) : Bytes := [0x05, 0x01, 0x00] ++ d.addr

def Dialogue.stream (d : Dialogue) : Bytes := d.greeting ++ (d.request ++ d.payload)

def Dialogue.whole (d : Dialogue) : List Event :=
  [.data d.greeting, .data d.request, .data d.payload]

/-- The bytes of the greeting. -/
def Dialogue.size (d : Dialogue) : ℕ := 2 + d.methods.length

/-- The calls come to what whole messages come to, with one method selection. -/
def Independent (d : Dialogue) (es : List Event) : Prop :=
  outcome es = outcome d.whole ∧ (outcome es).replies.count noAuthResp = 1

/-- The number of bytes delivered after one more call. -/
def seen (len : ℕ) (e : Event) : ℕ := len + e.bytes.length

/-- The call does not end behind the first method and before the last. -/
def EndsWell (size len : ℕ) (e : Event) : Prop := seen len e < 3 ∨ size ≤ seen len e

instance (size len : ℕ) (e : Event) : Decidable (EndsWell size len e) :=
  inferInstanceAs (Decidable (seen len e < 3 ∨ size ≤ seen len e))

def Uncut (d : Dialogue) (es : List Event) : Prop := Along seen (EndsWell d.size) 0 es

instance (d : Dialogue) (es : List Event) : Decidable (Uncut d es) :=
  inferInstanceAs (Decidable (Along seen (EndsWell d.size) 0 es))

/-- The number of method selections a run writes, from the call after `len` bytes on. -/
def selections (size : ℕ) : ℕ → List Event → ℕ
  | _, [] => 0
  | len, e :: es =>
    (if e.bytes ≠ [] ∧ (len < 3 ∨ len < size) ∧ 3 ≤ len + e.bytes.length then 1 else 0) +
      selections size (len + e.bytes.length) es

/-- The request is not there yet, or not one the parser accepts. -/
def Waiting (r : Bytes) : Prop := r.length < 4 ∨ parseAddr (r.drop 3) = none

/-- Where a client stands after the bytes `s` of a dialogue and `k` method selections. -/
inductive Stands (d : Dialogue) (s : Bytes) (k : ℕ) : Nego → Prop
  | greeting (h : s.length < 3 ∨ s.length < d.size) :
      Stands d s k ⟨.init, s, List.replicate k noAuthResp, none, false, []⟩
  | request (h3 : 3 ≤ s.length) (hg : d.size ≤ s.length) (hw : Waiting (s.drop d.size)) :
      Stands d s k
        ⟨.handshake, s.drop d.size, List.replicate k noAuthResp, none, false, []⟩
  | connect {a : Socks5Addr} {j : ℕ} {staged handed : Bytes} (h3 : 3 ≤ s.length)
      (hg : d.size + 4 ≤ s.length)
      (hp : parseAddr ((s.drop d.size).drop 3) = some (a, j))
      (hs : handed ++ staged = (s.drop d.size).drop (3 + j)) :
      Stands d s k ⟨.connect, staged, List.replicate k noAuthResp, socks5ProxyConnect a, true,
        handed⟩
  | established {a : Socks5Addr} {j : ℕ} (h3 : 3 ≤ s.length) (hg : d.size + 4 ≤ s.length)
      (hp : parseAddr ((s.drop d.size).drop 3) = some (a, j)) :
      Stands d s k ⟨.established, [], List.replicate k noAuthResp ++ [successReply],
        socks5ProxyConnect a, false, (s.drop d.size).drop (3 + j)⟩

theorem byteAt_front {s t : Bytes} (h : s <+: t) {i : ℕ} (hi : i < s.length) :
    byteAt s i = byteAt t i := by
  obtain ⟨r, rfl⟩ := h
  unfold byteAt
  rw [List.getD_eq_getElem?_getD, List.getD_eq_getElem?_getD, List.getElem?_append_left hi]

section Stream

variable {d : Dialogue} {s : Bytes}

theorem Dialogue.greeting_length (d : Dialogue) : d.greeting.length = d.size := by
  simp only [Dialogue.greeting, Dialogue.size, List.length_append, List.length_cons,
    List.length_nil]

theorem byteAt_version (hs : s <+: d.stream) (h : 3 ≤ s.length) : byteAt s 0 = 0x05 :=
  byteAt_front hs (by omega)

theorem byteAt_methods (hs : s <+: d.stream) (h : 3 ≤ s.length) :
    byteAt s 1 = d.methods.length := by
  rw [byteAt_front hs (by omega)]
  have hlt : d.methods.length < UInt8.size := Nat.lt_of_le_of_lt d.few (by decide)
  exact UInt8.toNat_ofNat_of_lt' hlt

theorem drop_front (hs : s <+: d.stream) : s.drop d.size <+: d.request ++ d.payload := by
  have hd := List.IsPrefix.drop hs d.size
  rwa [Dialogue.stream, List.drop_left' d.greeting_length] at hd

theorem request_header (hs : s <+: d.stream) (h : 4 ≤ (s.drop d.size).length) :
    byteAt (s.drop d.size) 0 = 0x05 ∧ byteAt (s.drop d.size) 1 = 0x01 ∧
      byteAt (s.drop d.size) 2 = 0x00 := by
  have hp := drop_front hs
  exact ⟨byteAt_front hp (by omega), byteAt_front hp (by omega), byteAt_front hp (by omega)⟩

theorem stands_request (hs : s <+: d.stream) (h3 : 3 ≤ s.length) (hg : d.size ≤ s.length)
    (k : ℕ) :
    Stands d s k (Nego.request
      ⟨.handshake, s.drop d.size, List.replicate k noAuthResp, none, false, []⟩) := by
  unfold Nego.request
  dsimp only
  by_cases h4 : (s.drop d.size).length < 4
  · rw [if_pos h4]
    exact .request h3 hg (.inl h4)
  · obtain ⟨hv, hc, hr⟩ := request_header hs (by omega)
    have hok : ¬ (byteAt (s.drop d.size) 0 ≠ 0x05 ∨ byteAt (s.drop d.size) 1 ≠ 0x01 ∨
        byteAt (s.drop d.size) 2 ≠ 0x00) := by
      rw [hv, hc, hr]
      decide
    rw [if_neg h4, if_neg hok]
    cases hp : parseAddr ((s.drop d.size).drop 3) with
    | none => exact .request h3 hg (.inr hp)
    | some r =>
      obtain ⟨a, j⟩ := r
      have hlen : d.size + 4 ≤ s.length := by
        rw [List.length_drop] at h4
        omega
      exact .connect h3 hlen hp (List.append_nil _)

theorem stands_loop_init (hs : s <+: d.stream) (k : ℕ) :
    Stands d s (k + if 3 ≤ s.length then 1 else 0)
      (Nego.loop ⟨.init, s, List.replicate k noAuthResp, none, false, []⟩) := by
  simp only [Nego.loop, Nego.greet]
  by_cases h3 : s.length < 3
  · rw [if_pos h3, if_neg (by omega)]
    exact .greeting (.inl h3)
  have hv : ¬ byteAt s 0 ≠ 0x05 := fun h ↦ h (byteAt_version hs (by omega))
  have hsize : 2 + byteAt s 1 = d.size := by
    rw [byteAt_methods hs (by omega)]
    rfl
  have hrep : List.replicate k noAuthResp ++ [noAuthResp] = List.replicate (k + 1) noAuthResp :=
    List.replicate_succ'.symm
  rw [if_neg h3, if_neg hv, if_pos (by omega), hsize, hrep]
  by_cases hg : s.length < d.size
  · rw [if_pos hg]
    exact .greeting (.inr hg)
  rw [if_neg hg]
  have hreq := stands_request hs (by omega) (by omega) (k + 1)
  dsimp only
  by_cases hnil : s.drop d.size = []
  · rw [if_pos hnil]
    rw [hnil] at hreq ⊢
    exact hreq
  · rw [if_neg hnil]
    exact hreq

end Stream

theorem stands_connected {d : Dialogue} {s : Bytes} {k : ℕ} {n : Nego} (h : Stands d s k n) :
    Stands d s k n.connected := by
  unfold Nego.connected
  cases h with
  | greeting h => exact .greeting h
  | request h3 hg hw => exact .request h3 hg hw
  | established h3 hg hp => exact .established h3 hg hp
  | @connect a j staged handed h3 hg hp hs =>
    rw [if_pos rfl]
    dsimp only
    rw [hs]
    exact .established h3 hg hp

/-- What a call adds to the number of method selections. -/
def selects (size len : ℕ) (bs : Bytes) : ℕ :=
  if bs ≠ [] ∧ (len < 3 ∨ len < size) ∧ 3 ≤ len + bs.length then 1 else 0

theorem drop_drop_append {s bs : Bytes} {i j : ℕ} (h : i + j ≤ s.length) :
    ((s ++ bs).drop i).drop j = (s.drop i).drop j ++ bs := by
  rw [List.drop_drop, List.drop_drop, List.drop_append_of_le_length h]

theorem parseAddr_length {b : Bytes} {a : Socks5Addr} {n : ℕ} (h : parseAddr b = some (a, n)) :
    n ≤ b.length := by
  obtain ⟨-, -, hle, -⟩ | ⟨-, -, hle, -⟩ | ⟨-, -, -, -, hle, -⟩ := parseAddr_some h
  · exact hle
  · exact hle
  · exact hle

theorem stands_data {d : Dialogue} {s bs : Bytes} {k : ℕ} {n : Nego} (h : Stands d s k n)
    (hs : s ++ bs <+: d.stream) :
    Stands d (s ++ bs) (k + selects d.size s.length bs) (n.data bs) := by
  unfold Nego.data selects
  by_cases hb : bs = []
  · subst hb
    rw [if_pos rfl, if_neg (fun hc ↦ hc.1 rfl), List.append_nil]
    exact h
  rw [if_neg hb]
  cases h with
  | greeting h =>
    have hloop := stands_loop_init hs k
    rw [List.length_append] at hloop
    simp only [ne_eq, hb, not_false_eq_true, h, true_and]
    exact hloop
  | request h3 hg hw =>
    have hdrop : (s ++ bs).drop d.size = s.drop d.size ++ bs := List.drop_append_of_le_length hg
    have hreq := stands_request hs (by rw [List.length_append]; omega)
      (by rw [List.length_append]; omega) k
    rw [hdrop] at hreq
    rw [if_neg (by omega)]
    exact hreq
  | @connect a j staged handed h3 hg hp hst =>
    rw [if_neg (by omega)]
    have hle := parseAddr_length hp
    rw [List.length_drop, List.length_drop] at hle
    refine .connect (j := j) (by rw [List.length_append]; omega)
      (by rw [List.length_append]; omega) ?_ ?_
    · rw [drop_drop_append (by omega)]
      exact parseAddr_append hp bs
    · rw [drop_drop_append (by omega), ← hst, List.append_assoc]
  | @established a j h3 hg hp =>
    rw [if_neg (by omega), if_pos rfl]
    have hle := parseAddr_length hp
    rw [List.length_drop, List.length_drop] at hle
    dsimp only
    rw [← drop_drop_append (by omega)]
    refine .established (by rw [List.length_append]; omega) (by rw [List.length_append]; omega) ?_
    rw [drop_drop_append (by omega)]
    exact parseAddr_append hp bs

theorem stands_step {d : Dialogue} {s : Bytes} {k : ℕ} {n : Nego} (h : Stands d s k n) (e : Event)
    (hs : s ++ e.bytes <+: d.stream) :
    Stands d (s ++ e.bytes) (k + selects d.size s.length e.bytes) (step n e) := by
  cases e with
  | data bs => exact stands_data h hs
  | connected =>
    have hz : selects d.size s.length [] = 0 := if_neg (fun hc ↦ hc.1 rfl)
    rw [Event.bytes, List.append_nil, hz]
    exact stands_connected h

theorem stands_run {d : Dialogue} {s : Bytes} {k : ℕ} {n : Nego} (h : Stands d s k n)
    (es : List Event) (hs : s ++ received es <+: d.stream) :
    Stands d (s ++ received es) (k + selections d.size s.length es) (es.foldl step n) := by
  induction es generalizing s k n with
  | nil =>
    rw [received, List.map_nil, List.flatten_nil, List.append_nil]
    exact h
  | cons e es ih =>
    rw [received, List.map_cons, List.flatten_cons, ← List.append_assoc] at hs ⊢
    have hnext := ih (stands_step h e ((List.prefix_append _ _).trans hs)) hs
    rw [List.length_append, Nat.add_assoc] at hnext
    exact hnext

theorem selections_done {size len : ℕ} (h3 : 3 ≤ len) (hs : size ≤ len) (es : List Event) :
    selections size len es = 0 := by
  induction es generalizing len with
  | nil => rfl
  | cons e es ih =>
    rw [selections, if_neg (by omega), ih (by omega) (by omega)]

theorem along_done {size len : ℕ} (hs : size ≤ len) (es : List Event) :
    Along seen (EndsWell size) len es := by
  induction es generalizing len with
  | nil => trivial
  | cons e es ih =>
    have hnext : size ≤ seen len e := Nat.le_add_right_of_le hs
    exact ⟨.inr hnext, ih hnext⟩

theorem selections_pos {size len : ℕ} (hlen : len < 3 ∨ len < size) (es : List Event)
    (h3 : 3 ≤ len + (received es).length) (hs : size ≤ len + (received es).length) :
    0 < selections size len es := by
  induction es generalizing len with
  | nil =>
    rw [received, List.map_nil, List.flatten_nil, List.length_nil] at h3 hs
    omega
  | cons e es ih =>
    rw [received, List.map_cons, List.flatten_cons, List.length_append, ← Nat.add_assoc] at h3 hs
    rw [selections]
    by_cases hnow : e.bytes ≠ [] ∧ (len < 3 ∨ len < size) ∧ 3 ≤ len + e.bytes.length
    · rw [if_pos hnow]
      omega
    · have hb : e.bytes = [] ∨ len + e.bytes.length < 3 := by
        by_contra hne
        rw [not_or] at hne
        exact hnow ⟨hne.1, hlen, by omega⟩
      have hstill : len + e.bytes.length < 3 ∨ len + e.bytes.length < size := by
        obtain hb | hb := hb
        · rw [hb]
          exact hlen
        · exact .inl hb
      have hrest := ih hstill h3 hs
      omega

/-- One method selection is written just when no call ends within the methods. -/
theorem selections_eq_one_iff {size len : ℕ} (hlen : len < 3 ∨ len < size)
    (hok : len < 3 ∨ size ≤ len) (es : List Event) (h3 : 3 ≤ len + (received es).length)
    (hs : size ≤ len + (received es).length) :
    selections size len es = 1 ↔ Along seen (EndsWell size) len es := by
  induction es generalizing len with
  | nil =>
    rw [received, List.map_nil, List.flatten_nil, List.length_nil] at h3 hs
    omega
  | cons e es ih =>
    rw [received, List.map_cons, List.flatten_cons, List.length_append, ← Nat.add_assoc] at h3 hs
    rw [selections, Along, EndsWell, seen]
    by_cases hnil : e.bytes = []
    · rw [if_neg (fun hc ↦ hc.1 hnil), Nat.zero_add]
      have hz : len + e.bytes.length = len := by rw [hnil]; rfl
      rw [hz] at h3 hs ⊢
      rw [ih hlen hok h3 hs]
      exact (and_iff_right hok).symm
    by_cases hshort : len + e.bytes.length < 3
    · rw [if_neg (by omega), Nat.zero_add, ih (.inl hshort) (.inl hshort) h3 hs]
      exact (and_iff_right (.inl hshort)).symm
    rw [if_pos ⟨hnil, hlen, by omega⟩]
    by_cases hcut : len + e.bytes.length < size
    · have hpos := selections_pos (.inr hcut) es h3 hs
      refine iff_of_false (by omega) (fun hall ↦ ?_)
      obtain ⟨hbad, -⟩ := hall
      omega
    · rw [selections_done (by omega) (by omega)]
      exact iff_of_true rfl ⟨.inr (by omega), along_done (by omega) es⟩

/-- What a dialogue comes to with `k` method selections. -/
def Dialogue.result (d : Dialogue) (k : ℕ) : Outcome :=
  match parseAddr (d.addr ++ d.payload) with
  | none => ⟨List.replicate k noAuthResp, none, []⟩
  | some (a, j) =>
    ⟨List.replicate k noAuthResp ++ [successReply], socks5ProxyConnect a,
      (d.addr ++ d.payload).drop j⟩

theorem stream_drop (d : Dialogue) (j : ℕ) :
    (d.stream.drop d.size).drop (3 + j) = (d.addr ++ d.payload).drop j := by
  rw [Dialogue.stream, List.drop_left' d.greeting_length, ← List.drop_drop]
  rfl

theorem stream_length (d : Dialogue) : d.stream.length = d.size + 3 + (d.addr ++ d.payload).length := by
  rw [Dialogue.stream, List.length_append, d.greeting_length, Dialogue.request,
    List.append_assoc, List.length_append]
  simp only [List.length_cons, List.length_nil]
  omega

theorem stands_result {d : Dialogue} {k : ℕ} {n : Nego} (h : Stands d d.stream k n) :
    (⟨n.connected.replies, n.connected.target, n.connected.handed⟩ : Outcome) = d.result k := by
  have hlen := stream_length d
  have hdrop : (d.stream.drop d.size).drop 3 = d.addr ++ d.payload := stream_drop d 0
  have hsize : 2 ≤ d.size := Nat.le_add_right 2 _
  unfold Dialogue.result
  cases h with
  | greeting h => omega
  | request h3 hg hw =>
    have hnone : parseAddr (d.addr ++ d.payload) = none := by
      obtain h4 | hp := hw
      · rw [List.length_drop] at h4
        have hnil : d.addr ++ d.payload = [] := List.length_eq_zero_iff.mp (by omega)
        rw [hnil]
        rfl
      · rw [← hdrop]
        exact hp
    rw [hnone]
    rfl
  | connect h3 hg hp hs =>
    rw [hdrop] at hp
    rw [stream_drop] at hs
    rw [hp]
    dsimp only
    rw [← hs]
    rfl
  | established h3 hg hp =>
    rw [hdrop] at hp
    rw [stream_drop, hp]
    rfl

theorem outcome_eq_result {d : Dialogue} {es : List Event} (h : received es = d.stream) :
    outcome es = d.result (selections d.size 0 es) := by
  have hinit : Stands d [] 0 Nego.new := .greeting (.inl (by decide))
  have hrun := stands_run hinit es (by rw [h]; exact List.prefix_refl _)
  rw [List.nil_append, h, Nat.zero_add] at hrun
  exact stands_result hrun

theorem received_whole (d : Dialogue) : received d.whole = d.stream := by
  simp [received, Dialogue.whole, Dialogue.stream, Event.bytes]

theorem whole_uncut (d : Dialogue) : Uncut d d.whole := by
  have hg : d.size ≤ seen 0 (.data d.greeting) := by
    rw [seen, Event.bytes, d.greeting_length]
    omega
  exact ⟨.inr hg, along_done hg _⟩

theorem selections_iff {d : Dialogue} {es : List Event} (h : received es = d.stream) :
    selections d.size 0 es = 1 ↔ Uncut d es := by
  have hlen := stream_length d
  have hsize : 2 ≤ d.size := Nat.le_add_right 2 _
  apply selections_eq_one_iff
  · exact .inl (by decide)
  · exact .inl (by decide)
  · rw [h]
    omega
  · rw [h]
    omega

theorem result_count (d : Dialogue) (k : ℕ) : (d.result k).replies.count noAuthResp = k := by
  unfold Dialogue.result
  cases parseAddr (d.addr ++ d.payload) with
  | none => exact List.count_replicate_self
  | some r =>
    have hz : [successReply].count noAuthResp = 0 := by decide
    dsimp only
    rw [List.count_append, List.count_replicate_self, hz]
    rfl

/-- However a dialogue is cut and whenever the connect completes, the outcome is that
of whole messages just when no call ends within the methods of the greeting. -/
theorem negotiation_independent_iff (d : Dialogue) (es : List Event)
    (h : received es = d.stream) : Independent d es ↔ Uncut d es := by
  have hwhole : outcome d.whole = d.result 1 := by
    rw [outcome_eq_result (received_whole d), (selections_iff (received_whole d)).mpr (whole_uncut d)]
  rw [Independent, hwhole, outcome_eq_result h, result_count, ← selections_iff h]
  constructor
  · intro hi
    exact hi.2
  · intro hone
    exact ⟨by rw [hone], hone⟩

/-- Two methods, the address 10.0.0.1 with port 80, and one byte of payload. -/
def twoMethods : Dialogue where
  methods := [0, 2]
  addr := [1, 10, 0, 0, 1, 0, 80]
  payload := [71]
  few := by decide

/-- Cuts that spare the methods, with the connect completed before the payload. -/
def cutElsewhere : List Event :=
  [.data [5, 2], .data [0, 2, 5, 1], .data [0, 1, 10, 0], .data [0, 1, 0, 80], .connected,
    .data [71]]

theorem negotiation_independent_iff_cutElsewhere :
    received cutElsewhere = twoMethods.stream ∧ Independent twoMethods cutElsewhere :=
  ⟨by decide,
    (negotiation_independent_iff twoMethods cutElsewhere (by decide)).mpr (by decide)⟩

/-- The greeting of `twoMethods` cut behind its first method. -/
def cutGreeting : List Event :=
  [.data [5, 2, 0], .data [2], .data [5, 1, 0, 1, 10, 0, 0, 1, 0, 80], .connected, .data [71]]

theorem cutGreeting_not_independent :
    received cutGreeting = twoMethods.stream ∧ ¬ Independent twoMethods cutGreeting := by
  refine ⟨by decide, ?_⟩
  rintro ⟨-, hcount⟩
  revert hcount
  decide

section Refinement

variable {E : Env} {l₀ : Lifetime.Life} {n : Nego} {t : Conn}

/-- The client of a connection stands as the negotiation says; `l₀` is its stream
before the first reply. -/
structure Matches (l₀ : Lifetime.Life) (n : Nego) (t : Conn) : Prop where
  state : t.client.state = n.state
  buf : t.client.socks5Buf = n.buf
  life : t.life = n.replies.foldl Lifetime.Life.write l₀
  bev : t.client.localProxyBev.map (fun b ↦ (b.connecting, b.output)) =
    n.target.map (fun _ ↦ (n.connecting, n.handed))

theorem socks5ProxyConnect_isSome {b : Bytes} {a : Socks5Addr} {k : ℕ}
    (h : parseAddr b = some (a, k)) : ∃ target, socks5ProxyConnect a = some target := by
  obtain ⟨-, -, -, rfl⟩ | ⟨-, -, -, rfl⟩ | ⟨-, -, -, -, -, rfl⟩ := parseAddr_some h
  · exact ⟨_, rfl⟩
  · exact ⟨_, rfl⟩
  · exact ⟨_, rfl⟩

theorem Matches.request (h : Matches l₀ n t) (hc : E.connectServer t.tick = true) :
    Matches l₀ n.request (socks5Request E t) := by
  unfold Nego.request socks5Request
  rw [h.buf]
  dsimp only
  by_cases h4 : n.buf.length < 4
  · rw [if_pos h4, if_pos h4]
    exact h
  rw [if_neg h4, if_neg h4]
  by_cases hbad : byteAt n.buf 0 ≠ 0x05 ∨ byteAt n.buf 1 ≠ 0x01 ∨ byteAt n.buf 2 ≠ 0x00
  · rw [if_pos hbad, if_pos hbad]
    exact ⟨rfl, h.buf, h.life, h.bev⟩
  rw [if_neg hbad, if_neg hbad, ← parseAddr_offset]
  cases hp : parseAddr (n.buf.drop 3) with
  | none => exact h
  | some r =>
    obtain ⟨a, k⟩ := r
    obtain ⟨target, ht⟩ := socks5ProxyConnect_isSome hp
    simp only [Option.map_some, hc, if_true]
    refine ⟨rfl, rfl, h.life, ?_⟩
    rw [ht]
    rfl

theorem Matches.loop (h : Matches l₀ n t) (hc : E.connectServer t.tick = true) :
    Matches l₀ n.loop (socks5Loop E t) := by
  have hlife : t.life.write noAuthResp =
      (n.replies ++ [noAuthResp]).foldl Lifetime.Life.write l₀ := by
    rw [List.foldl_append, ← h.life]
    rfl
  unfold Nego.loop socks5Loop
  rw [h.state]
  cases hs : n.state with
  | handshake => exact h.request hc
  | connect => exact h
  | established => exact h
  | broken => exact h
  | init =>
    dsimp only
    unfold Nego.greet socks5Greeting
    rw [h.buf]
    dsimp only
    by_cases h3 : n.buf.length < 3
    · rw [if_pos h3, if_pos h3]
      exact h
    rw [if_neg h3, if_neg h3]
    by_cases hv : byteAt n.buf 0 ≠ 0x05
    · rw [if_pos hv, if_pos hv]
      exact ⟨rfl, h.buf, h.life, h.bev⟩
    rw [if_neg hv, if_neg hv]
    by_cases hl : n.buf.length < 2 + byteAt n.buf 1
    · rw [if_pos hl, if_pos hl]
      exact ⟨h.state, h.buf, hlife, h.bev⟩
    rw [if_neg hl, if_neg hl]
    dsimp only
    by_cases hnil : n.buf.drop (2 + byteAt n.buf 1) = []
    · rw [if_pos hnil, if_pos hnil]
      exact ⟨rfl, rfl, hlife, h.bev⟩
    · rw [if_neg hnil, if_neg hnil]
      apply Matches.request
      · exact ⟨rfl, rfl, hlife, h.bev⟩
      · exact hc

/-- A delivery to the client of a connection is one to the negotiation. -/
theorem Matches.data (h : Matches l₀ n t) {bs : Bytes} (hb : bs ≠ [])
    (hc : E.connectServer t.tick = true) :
    Matches l₀ (n.data bs) (handleSocks5 E t bs).1 := by
  unfold Nego.data handleSocks5
  rw [if_neg hb, h.state]
  by_cases he : n.state = .established
  · rw [if_pos he, if_pos he]
    refine ⟨h.state, h.buf, h.life, ?_⟩
    have hbev := congrArg (Option.map fun p : Bool × Bytes ↦ (p.1, p.2 ++ bs)) h.bev
    simpa [ProxyClient.queue, Function.comp_def] using hbev
  · rw [if_neg he, if_neg he]
    apply Matches.loop
    · exact ⟨h.state, by rw [h.buf], h.life, h.bev⟩
    · exact hc

/-- The completed connect of the client is that of the negotiation. -/
theorem Matches.connected (h : Matches l₀ n t) {b : LocalBev}
    (hps : isSocks5Proxy t.client.ps = true) (hb : t.client.localProxyBev = some b) :
    Matches l₀ n.connected (onConnected E t .current b) := by
  have hbev := h.bev
  rw [hb] at hbev
  obtain ⟨target, ht⟩ : ∃ target, n.target = some target := by
    cases ht : n.target with
    | none =>
      rw [ht] at hbev
      cases hbev
    | some target => exact ⟨target, rfl⟩
  rw [ht, Option.map_some, Option.map_some, Option.some.injEq, Prod.mk.injEq] at hbev
  obtain ⟨hconn, hout⟩ := hbev
  unfold Nego.connected onConnected
  rw [hconn]
  cases hcn : n.connecting with
  | false =>
    rw [if_neg Bool.false_ne_true, if_neg Bool.false_ne_true]
    exact h
  | true =>
    rw [if_pos rfl, if_pos rfl]
    unfold handlePostConnectionData
    rw [if_pos (by simpa using hps)]
    refine ⟨?_, ?_, ?_, ?_⟩
    · rfl
    · simp [socks5Established, ProxyClient.setBev]
    · dsimp only
      rw [List.foldl_append, ← h.life]
      rfl
    · simp [socks5Established, ProxyClient.setBev, ProxyClient.queue, ht, hout, h.buf]

end Refinement

end Xfrpc.Tunnel.Negotiation
