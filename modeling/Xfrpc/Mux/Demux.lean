import Xfrpc.Foundations.Runs
import Xfrpc.Mux.Header

namespace Xfrpc.Mux.Demux

open Header Foundations.Runs

variable {E : Type}

/-- What `handle_tcp_mux` calls: the stream table, and the handlers, each of
which may change the rest of the client. `processData` is given the whole input
of the control connection and returns what it leaves there. -/
structure MuxEnv (E : Type) where
  registered : E → ℕ → Bool
  processData : E → Bytes → ℕ → ℕ → ℕ → E × Bytes
  handleTcpMuxStream : E → TcpMuxHeader → E
  handleTcpMuxPing : E → TcpMuxHeader → E
  handleTcpMuxGoAway : E → TcpMuxHeader → E

/-- The calls with their arguments; for `process_data` also the bytes it finds
at the head of the input. -/
inductive MuxCall
  | processData (streamId length flags : ℕ) (payload : Bytes)
  | stream (h : TcpMuxHeader)
  | ping (h : TcpMuxHeader)
  | goAway (h : TcpMuxHeader)
  deriving DecidableEq, Repr

inductive CurStream
  | null
  | abandon
  | stream (id : ℕ)
  deriving DecidableEq, Repr

/-- The static variables of `handle_tcp_mux`, `cur_stream`, the input buffer
and the local `len`, with a record of the calls made and the bytes drained. -/
structure Reader (E : Type) where
  tmuxHdr : Bytes
  streamLen : ℕ
  partialHeader : ℕ
  curStream : CurStream
  input : Bytes
  len : ℕ
  env : E
  calls : List MuxCall
  drained : Bytes
  deriving DecidableEq, Repr

def zeroHeader : Bytes := List.replicate headerSize 0

def Reader.start (e : E) : Reader E :=
  { tmuxHdr := zeroHeader
    streamLen := 0
    partialHeader := 0
    curStream := .null
    input := []
    len := 0
    env := e
    calls := []
    drained := [] }

/-- `handle_tcp_mux` on a null bufferevent. -/
def Reader.reset (s : Reader E) : Reader E :=
  { s with tmuxHdr := zeroHeader, streamLen := 0, partialHeader := 0, curStream := .null }

def overwrite (b : Bytes) (at' : ℕ) (data : Bytes) : Bytes :=
  b.take at' ++ data ++ b.drop (at' + data.length)

/-- Whether the loop goes on after an iteration, by `continue` or by reaching
its end, or leaves by `break`. -/
inductive Flow (E : Type)
  | next (s : Reader E)
  | stop (s : Reader E)
  deriving DecidableEq, Repr

def readHeader (s : Reader E) : Flow E :=
  if 0 < s.partialHeader then
    let chunk := s.input.take (headerSize - s.partialHeader)
    let s' := { s with
      tmuxHdr := overwrite s.tmuxHdr s.partialHeader chunk
      partialHeader := s.partialHeader + chunk.length
      input := s.input.drop chunk.length
      len := s.len - chunk.length }
    if s'.partialHeader < headerSize then .stop s' else .next { s' with partialHeader := 0 }
  else if s.len < headerSize then
    let chunk := s.input.take s.len
    .stop { s with
      tmuxHdr := overwrite zeroHeader 0 chunk
      partialHeader := chunk.length
      input := s.input.drop chunk.length
      len := s.len - chunk.length }
  else
    let chunk := s.input.take headerSize
    let s' := { s with
      tmuxHdr := overwrite zeroHeader 0 chunk
      input := s.input.drop chunk.length }
    if chunk.length ≠ headerSize then .stop s' else .next { s' with len := s.len - chunk.length }

variable (M : MuxEnv E)

def dispatchData (s : Reader E) (id : ℕ) (h : TcpMuxHeader) : Reader E :=
  let (env, input) := M.processData s.env s.input id s.streamLen h.flags
  { s with
    env, input
    calls := s.calls ++ [.processData id s.streamLen h.flags (s.input.take s.streamLen)]
    len := s.len - s.streamLen
    streamLen := 0
    curStream := .null }

/-- The second half of an iteration. A data frame never gets here without a
current stream. -/
def consume (s : Reader E) (cur : CurStream) : Flow E :=
  let h := TcpMuxHeader.decode s.tmuxHdr
  if h.type = TcpMuxType.tmuxData.code ∧ 0 < s.streamLen then
    let toRead := min s.len s.streamLen
    match cur with
    | .abandon =>
      let s' := { s with
        input := s.input.drop toRead
        drained := s.drained ++ s.input.take toRead
        len := s.len - toRead
        streamLen := s.streamLen - toRead }
      if s'.streamLen = 0 then .next { s' with curStream := .null } else .next s'
    | .stream id =>
      if toRead < s.streamLen then .stop { s with curStream := .stream id }
      else .next (dispatchData M s id h)
    | .null => .stop s
  else if h.type = TcpMuxType.windowUpdate.code then
    .next { s with
      env := M.handleTcpMuxStream s.env h, calls := s.calls ++ [.stream h], curStream := .null }
  else if h.type = TcpMuxType.ping.code then
    .next { s with
      env := M.handleTcpMuxPing s.env h, calls := s.calls ++ [.ping h], curStream := .null }
  else if h.type = TcpMuxType.goAway.code then
    .next { s with
      env := M.handleTcpMuxGoAway s.env h, calls := s.calls ++ [.goAway h], curStream := .null }
  else .stop s

def afterHeader (s : Reader E) : Flow E :=
  let h := TcpMuxHeader.decode s.tmuxHdr
  if validateTcpMuxProtocol h = false then .stop s
  else if h.type = TcpMuxType.tmuxData.code then
    let s' := { s with streamLen := h.length }
    if h.length > maxStreamWindowSize then .stop s'
    else if M.registered s.env h.streamId = true then
      if s'.len = 0 then .stop { s' with curStream := .stream h.streamId }
      else consume M s' (.stream h.streamId)
    else if 0 < h.length then
      if s'.len = 0 then .stop { s' with curStream := .abandon } else consume M s' .abandon
    else .next s'
  else consume M s .null

def iteration (s : Reader E) : Flow E :=
  match s.curStream with
  | .null =>
    match readHeader s with
    | .stop s' => .stop s'
    | .next s' => afterHeader M s'
  | cur => consume M s cur

/-- The loop, with one unit of fuel for each byte: every iteration that goes on
has read at least one. -/
def loop : ℕ → Reader E → Reader E
  | 0, s => s
  | fuel + 1, s =>
    if s.len = 0 then s
    else
      match iteration M s with
      | .stop s' => s'
      | .next s' => loop fuel s'

def handleTcpMux (s : Reader E) (len : ℕ) : Reader E := loop M len { s with len }

/-- One delivery: the event loop appends what it read and `recv_cb` runs. -/
def recvCb (s : Reader E) (chunk : Bytes) : Reader E :=
  let s' := { s with input := s.input ++ chunk }
  if 0 < s'.input.length then handleTcpMux M s' s'.input.length else s'

/-- The saved stream is none, the sentinel, or registered. -/
def Live (s : Reader E) : Prop := ∀ id, s.curStream = .stream id → M.registered s.env id = true

def Flow.reader : Flow E → Reader E
  | .next s | .stop s => s

/-- The handlers keep `Q`, that of the data frames on registered streams. -/
structure Keeps (Q : E → Prop) : Prop where
  processData : ∀ {e : E} (input : Bytes) {id : ℕ} (length flags : ℕ), M.registered e id = true →
    Q e → Q (M.processData e input id length flags).1
  handleTcpMuxStream : ∀ {e : E} (h : TcpMuxHeader), Q e → Q (M.handleTcpMuxStream e h)
  handleTcpMuxPing : ∀ {e : E} (h : TcpMuxHeader), Q e → Q (M.handleTcpMuxPing e h)
  handleTcpMuxGoAway : ∀ {e : E} (h : TcpMuxHeader), Q e → Q (M.handleTcpMuxGoAway e h)

/-- The reader saves no stream that is gone, and the rest of the client is in order. -/
def Sound (Q : E → Prop) (s : Reader E) : Prop := Live M s ∧ Q s.env

variable {M} {Q : E → Prop}

section

variable (hQ : Keeps M Q)

include hQ

end

end Xfrpc.Mux.Demux
