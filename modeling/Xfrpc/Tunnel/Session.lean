import Xfrpc.Mux.Demux
import Xfrpc.Tunnel.Closing

namespace Xfrpc.Tunnel.Session

open Control.Receive (checkMsg)
open Client Closing Control.Message Foundations.Runs Lifetime Mux.Demux Mux.Header Mux.Stream
  Service StartWork Wire

/-- The streams of a session with their owners, by id. -/
def Streams := ℕ → Option Conn

/-- What the handler of the control stream does: the messages it sends, and the
client streams it opens, each with its id and its first message. -/
structure Control where
  replies : Streams → Bytes → List Bytes
  opens : Streams → Bytes → List (ℕ × Bytes)

def Streams.registered (s : Streams) (id : ℕ) : Bool := (s id).any (·.life.alive)

def Streams.put (s : Streams) (id : ℕ) (t : Conn) : Streams :=
  fun k ↦ if k = id then some t else s k

def Streams.modify (s : Streams) (id : ℕ) (f : Conn → Conn) : Streams :=
  fun k ↦ if k = id then (s id).map f else s k

def Streams.openClients (s : Streams) (clients : List (ℕ × Bytes)) : Streams :=
  clients.foldl (fun s c ↦ s.put c.1 (.start .client c.1 c.2)) s

/-- The streams of a session that begins. -/
def Streams.start (id : ℕ) (msg : Bytes) : Streams :=
  Streams.put (fun _ ↦ none) id (.start .control id msg)

variable (E : Env) (C : Control)

/-- The handlers of `handle_tcp_mux` on the streams of the session. -/
def muxEnv : MuxEnv Streams where
  registered := Streams.registered
  processData s input id length flags :=
    match s id with
    | none => (s, input)
    | some t =>
      let payload := input.take length
      let (t', drained) := processData E t flags payload (C.replies s payload)
      let s' := s.put id t'
      (match t.owner with
        | .control => s'.openClients (C.opens s payload)
        | .client => s',
        if drained then input.drop length else input)
  handleTcpMuxStream s h := s.modify h.streamId (step E · (.windowUpdate h.flags h.length))
  handleTcpMuxPing s _ := s
  handleTcpMuxGoAway s _ := s

inductive LocalEvent
  | connected (w : Which)
  | readable (w : Which) (d : Bytes)
  | closed (w : Which) (d : Bytes)
  deriving DecidableEq, Repr

def LocalEvent.event : LocalEvent → Client.Event
  | .connected w => .connected w
  | .readable w d => .readable w d
  | .closed w d => .closed w d

/-- The callbacks of the event loop: bytes of the server, the local connections,
the heartbeat and other messages on a stream, and the timer that gives the session
up for a new one, whose control stream gets an id and a first message. -/
inductive Callback
  | recv (chunk : Bytes)
  | localEvent (id : ℕ) (e : LocalEvent)
  | send (id : ℕ) (src : Bytes)
  | reconnect (id : ℕ) (msg : Bytes)
  deriving DecidableEq, Repr

def run (s : Reader Streams) : Callback → Reader Streams
  | .recv chunk => recvCb (muxEnv E C) s chunk
  | .localEvent id e => { s with env := s.env.modify id (step E · e.event) }
  | .send id src => { s with env := s.env.modify id (step E · (.send src)) }
  | .reconnect id msg => { s.reset with input := [], env := .start id msg }

variable {E C}

def AllOpened (s : Streams) : Prop := ∀ id t, s id = some t → t.life.stream.state ≠ .init

theorem start_opened (owner : Owner) (id : ℕ) (msg : Bytes) :
    (Conn.start owner id msg).life.stream.state ≠ .init :=
  (start_resetQuiet owner id msg).opened

theorem Streams.modify_self (s : Streams) (id : ℕ) (f : Conn → Conn) :
    s.modify id f id = (s id).map f := if_pos rfl

theorem Streams.modify_of_ne (s : Streams) {id k : ℕ} (h : k ≠ id) (f : Conn → Conn) :
    s.modify id f k = s k := if_neg h

theorem AllOpened.put {s : Streams} (h : AllOpened s) {id : ℕ} {t : Conn}
    (ht : t.life.stream.state ≠ .init) : AllOpened (s.put id t) := by
  intro id' t' h'
  unfold Streams.put at h'
  by_cases heq : id' = id
  · rw [if_pos heq] at h'
    exact Option.some.inj h' ▸ ht
  · rw [if_neg heq] at h'
    exact h id' t' h'

theorem AllOpened.modify {s : Streams} (h : AllOpened s) {id : ℕ} {f : Conn → Conn}
    (hf : ∀ t, t.life.stream.state ≠ .init → (f t).life.stream.state ≠ .init) :
    AllOpened (s.modify id f) := by
  intro id' t' h'
  by_cases heq : id' = id
  · rw [heq, Streams.modify_self] at h'
    obtain ⟨t, ht, rfl⟩ := Option.map_eq_some_iff.mp h'
    exact hf t (h id t ht)
  · rw [Streams.modify_of_ne s heq] at h'
    exact h id' t' h'

theorem AllOpened.openClients {s : Streams} (h : AllOpened s) (clients : List (ℕ × Bytes)) :
    AllOpened (s.openClients clients) := by
  induction clients generalizing s with
  | nil => exact h
  | cons c cs ih => exact ih (h.put (start_opened .client c.1 c.2))

theorem AllOpened.processData {s : Streams} (h : AllOpened s) (input : Bytes) {id : ℕ}
    (length flags : ℕ) (hreg : s.registered id = true) :
    AllOpened ((muxEnv E C).processData s input id length flags).1 := by
  unfold Streams.registered at hreg
  simp only [muxEnv]
  cases ht : s id with
  | none => exact h
  | some t =>
    rw [ht] at hreg
    have ha : t.life.alive = true := hreg
    have hput : AllOpened (s.put id _) := h.put (processData_opened (E := E) ha (h id t ht) flags
      (input.take length) (C.replies s (input.take length)))
    dsimp only
    cases t.owner with
    | control => exact hput.openClients _
    | client => exact hput

/-- A control stream whose every message opens stream 3. -/
def sampleControl : Control := ⟨fun _ _ ↦ [], fun _ _ ↦ [(3, [])]⟩

end Xfrpc.Tunnel.Session
