import Xfrpc.Foundations.BigEndian
import Xfrpc.Foundations.Runs

namespace Xfrpc.Event.ReadInput

open Foundations.Runs

/-- What `recv`, or the read of the TLS transport, returns. No bytes are a
return value of zero. -/
inductive Recv
  | bytes (bs : Bytes)
  | sslEof
  | eintr
  | wouldBlock
  | failed
  deriving DecidableEq, Repr

inductive Outcome
  | chunk (bs : Bytes)
  | retry
  | idle
  | eof
  | error
  deriving DecidableEq, Repr

def outcome (tls : Bool) : Recv → Outcome
  | .bytes [] => if tls then .idle else .eof
  | .bytes bs => .chunk bs
  | .sslEof => if tls then .eof else .error
  | .eintr => if tls then .error else .retry
  | .wouldBlock => if tls then .error else .idle
  | .failed => .error

inductive What
  | eof | error
  deriving DecidableEq, Repr

/-- A callback, with the input buffer the read callback finds. The bytes received
since the last read callback stand with an event; the code does not keep them. -/
inductive Call
  | read (input : Bytes)
  | event (what : What) (late : Bytes)
  deriving DecidableEq, Repr

/-- A bufferevent that is connected. -/
structure Bev where
  tls : Bool
  readcb : Bool
  evRead : Bool
  wmReadLow : ℕ
  input : Bytes
  late : Bytes
  calls : List Call
  deriving DecidableEq, Repr

def recvMaxPerLoop : ℕ := 64 * 1024

/-- The loop of `bev_read_input`: what it adds to the input, and the event it ends
with, if any. -/
def readLoop (tls : Bool) : ℕ → List Recv → Bytes × Option What
  | _, [] => ([], none)
  | got, r :: rs =>
    match outcome tls r with
    | .eof => ([], some .eof)
    | .error => ([], some .error)
    | .idle => ([], none)
    | .retry => readLoop tls got rs
    | .chunk bs =>
      if got + bs.length ≥ recvMaxPerLoop then (bs, none)
      else
        let (more, what) := readLoop tls (got + bs.length) rs
        (bs ++ more, what)

/-- With a read callback, EV_READ enabled and no low watermark. -/
structure Reading (b : Bev) : Prop where
  readcb : b.readcb = true
  evRead : b.evRead = true
  wmReadLow : b.wmReadLow = 0

/-- Every EOF and error was reported when the read callback had seen all bytes. -/
def Delivered (b : Bev) : Prop := ∀ what late, Call.event what late ∈ b.calls → late = []

/-- The bytes of some results. -/
def payload (tls : Bool) (rs : List Recv) : Bytes :=
  (rs.map fun r ↦ match outcome tls r with | .chunk bs => bs | _ => []).flatten

variable {tls : Bool}

variable {consume : Bytes → Bytes}

/-- A plain connection just made. -/
def fresh : Bev :=
  { tls := false, readcb := true, evRead := true, wmReadLow := 0, input := [], late := [], calls := [] }

end Xfrpc.Event.ReadInput
