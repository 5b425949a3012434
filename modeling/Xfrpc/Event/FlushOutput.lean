import Xfrpc.Mux.StreamWrite

namespace Xfrpc.Event.FlushOutput

open Buffer Mux.Header Mux.Stream Mux.StreamWrite

/-- What `send` returns. -/
inductive SendRet
  | wrote (w : ℕ)
  | eintr
  | wouldBlock
  | failed
  deriving DecidableEq, Repr

/-- What `mbedtls_ssl_write` returns. -/
inductive SslRet
  | wrote (n : ℕ)
  | wantRead
  | wantWrite
  | peerCloseNotify
  | connEof
  | receivedNewSessionTicket
  | waitingServerHelloRenego
  | cryptoInProgress
  | other (rc : ℤ)
  deriving DecidableEq, Repr

inductive TlsRet
  | err | ok | want | eof
  deriving DecidableEq, Repr

/-- The answers of the transport, by the number of the call; a plain socket gives the
first, a TLS transport the second. -/
structure Answers where
  send : ℕ → SendRet
  ssl : ℕ → SslRet

/-- The class of a return code and the flags that `tls_classify` sets. -/
structure Classified where
  ret : TlsRet
  wantRead : Bool
  wantWrite : Bool
  deriving DecidableEq, Repr

def tlsClassify : SslRet → Classified
  | .wrote _ => ⟨.ok, false, false⟩
  | .wantRead => ⟨.want, true, false⟩
  | .wantWrite => ⟨.want, false, true⟩
  | .peerCloseNotify | .connEof => ⟨.eof, false, false⟩
  | .receivedNewSessionTicket => ⟨.want, true, false⟩
  | .waitingServerHelloRenego | .cryptoInProgress => ⟨.want, true, false⟩
  | .other _ => ⟨.err, false, false⟩

structure Tls where
  gotEof : Bool
  wantRead : Bool
  wantWrite : Bool
  deriving DecidableEq, Repr

/-- What `tls_op_write` returns and reports, and the transport after it. -/
structure TlsWrite where
  rc : ℤ
  done : ℕ
  tls : Tls
  deriving DecidableEq, Repr

def tlsOpWrite (gotEof : Bool) (ret : SslRet) : TlsWrite :=
  if gotEof then { rc := -1, done := 0, tls := ⟨true, false, false⟩ }
  else
    match ret with
    | .wrote (n + 1) => { rc := 0, done := n + 1, tls := ⟨false, false, false⟩ }
    | ret =>
      let c := tlsClassify ret
      { rc := if c.ret = .err then -1 else 0
        done := 0
        tls := ⟨decide (c.ret = .eof), c.wantRead, c.wantWrite⟩ }

inductive Call
  | error | write
  deriving DecidableEq, Repr

structure Bev where
  tls : Option Tls
  writecb : Bool
  evWrite : Bool
  output : Evbuffer
  deriving DecidableEq

/-- How one round of the loop of `bev_flush_output` goes on. -/
inductive Round
  | took (n : ℕ)
  | retry
  | stop
  | fail
  deriving DecidableEq, Repr

def sendRound : SendRet → Round
  | .wrote w => if 0 < w then .took w else .stop
  | .eintr => .retry
  | .wouldBlock => .stop
  | .failed => .fail

def sslRound (w : TlsWrite) : Round :=
  if w.rc ≠ 0 then (if w.tls.wantRead || w.tls.wantWrite then .stop else .fail)
  else if w.done = 0 then .stop
  else .took w.done

/-- The call number `i` of the transport, with the whole output. -/
def Bev.offer (bev : Bev) (ans : Answers) (i : ℕ) : Round × Bev :=
  match bev.tls with
  | some tls =>
    let w := tlsOpWrite tls.gotEof (ans.ssl i)
    (sslRound w, { bev with tls := some w.tls })
  | none => (sendRound (ans.send i), bev)

/-- A bufferevent, with the bytes queued so far and those of them the transport has
accepted. -/
structure Conn where
  bev : Bev
  queued : Bytes
  accepted : Bytes
  calls : List Call

/-- The transport has accepted `n` bytes and they are drained. -/
def Conn.took (c : Conn) (n : ℕ) : Conn :=
  { c with
    bev := { c.bev with output := evbufferDrain c.bev.output n }
    accepted := c.accepted ++ c.bev.output.data.take n }

inductive Status
  | running | ended | failed
  deriving DecidableEq, Repr

/-- The loop of `bev_flush_output`, from the call number `i` on; it is still running
when the fuel is spent. -/
def flushLoop (ans : Answers) : ℕ → ℕ → Conn → Status × Conn
  | 0, _, c => (.running, c)
  | fuel + 1, i, c =>
    if c.bev.output.data.length = 0 then (.ended, c)
    else
      let (round, bev) := c.bev.offer ans i
      let c := { c with bev }
      match round with
      | .took n =>
        if c.bev.tls.isNone && n == 0 then (.ended, c.took n)
        else flushLoop ans fuel (i + 1) (c.took n)
      | .retry => flushLoop ans fuel (i + 1) c
      | .stop => (.ended, c)
      | .fail => (.failed, c)

def bevFlushOutput (ans : Answers) (fuel : ℕ) (c : Conn) : Status × Conn :=
  let (status, c) := flushLoop ans fuel 0 c
  match status with
  | .running => (status, c)
  | .failed => (status, { c with calls := c.calls ++ [.error] })
  | .ended =>
    if c.bev.output.data.length = 0 ∧ c.bev.writecb ∧ c.bev.evWrite then
      (status, { c with calls := c.calls ++ [.write] })
    else (status, c)

def buffereventWrite (grants : ℕ → Bool) (bev : Bev) (data : Option Bytes) : ℤ × Bev :=
  match data with
  | none => (-1, bev)
  | some bs =>
    match evbufferAdd grants bev.output bs with
    | none => (-1, bev)
    | some output => (0, { bev with output })

/-- `bufferevent_write_buffer`, with the buffer after it; none stands for NULL and for
the output itself. -/
def buffereventWriteBuffer (grants : ℕ → Bool) (bev : Bev) (buf : Option Evbuffer) :
    ℤ × Bev × Option Evbuffer :=
  match buf with
  | none => (-1, bev, none)
  | some src =>
    if src.data.length = 0 then (0, bev, some src)
    else
      match evbufferAdd grants bev.output src.data with
      | none => (-1, bev, some src)
      | some output => (0, { bev with output }, some (evbufferDrain src src.data.length))

/-- The bytes `tmux_stream_write` puts into an output: a frame, or the header of one
whose payload has found no room, or none. -/
def streamQueued (grants : ℕ → Bool) (w : Ends) (out : Evbuffer) : Bytes :=
  if comesToWriting w then
    match evbufferReserve grants out.data.length out.cap headerSize with
    | none => []
    | some c =>
      (tcpMuxEncode .tmuxData (dueFlags w.stream.state) w.stream.id (sendLength w)).encode ++
        match evbufferReserve grants (out.data.length + headerSize) c (sendLength w) with
        | none => []
        | some _ => w.src.data.take (sendLength w)
  else []

inductive Op
  | write (grants : ℕ → Bool) (data : Option Bytes)
  | writeBuffer (grants : ℕ → Bool) (buf : Option Evbuffer)
  | streamWrite (grants : ℕ → Bool) (stream : TmuxStream) (src : Evbuffer)
  | flush (ans : Answers) (fuel : ℕ)

def Op.step (c : Conn) : Op → Conn
  | .write grants data =>
    let (ret, bev) := buffereventWrite grants c.bev data
    { c with bev, queued := c.queued ++ if ret = 0 then data.getD [] else [] }
  | .writeBuffer grants buf =>
    let (ret, bev, _) := buffereventWriteBuffer grants c.bev buf
    { c with bev, queued := c.queued ++ if ret = 0 then (buf.map (·.data)).getD [] else [] }
  | .streamWrite grants stream src =>
    let w : Ends := { stream, src, out := some c.bev.output }
    { c with
      bev := { c.bev with output := (tmuxStreamWriteOn grants w).2.out.getD c.bev.output }
      queued := c.queued ++ streamQueued grants w c.bev.output }
  | .flush ans fuel => (bevFlushOutput ans fuel c).2

def run (c : Conn) (ops : List Op) : Conn := ops.foldl Op.step c

/-- A new bufferevent. -/
def Conn.new (tls : Option Tls) (writecb evWrite : Bool) : Conn :=
  { bev := { tls, writecb, evWrite, output := { data := [], cap := 0, fits := Nat.le_refl _ } }
    queued := []
    accepted := []
    calls := [] }

/-- What the transport has accepted and what is left are the bytes queued. -/
def Conserved (c : Conn) : Prop := c.accepted ++ c.bev.output.data = c.queued

section Loop

variable (ans : Answers)

theorem Conserved.took {c : Conn} (h : Conserved c) (n : ℕ) : Conserved (c.took n) := by
  have hsplit : (c.accepted ++ c.bev.output.data.take n) ++ c.bev.output.data.drop n = c.queued := by
    rw [List.append_assoc, List.take_append_drop]
    exact h
  exact hsplit

end Loop

section Queueing

variable {c : Conn}

/-- More bytes at the end of the output and of the queue. -/
theorem Conserved.queue (h : Conserved c) {bev : Bev} {bs : Bytes}
    (hout : bev.output.data = c.bev.output.data ++ bs) :
    Conserved { c with bev, queued := c.queued ++ bs } := by
  have hmore : c.accepted ++ bev.output.data = c.queued ++ bs := by
    rw [hout, ← List.append_assoc]
    exact congrArg (· ++ bs) h
  exact hmore

end Queueing

end Xfrpc.Event.FlushOutput
