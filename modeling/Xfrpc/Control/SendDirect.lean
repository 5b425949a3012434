import Xfrpc.Control.Send

namespace Xfrpc.Control.SendDirect

open Message Send Crypto.Cfb Crypto.Coder

/-- What one `send` on the socket does; an interrupted call is repeated at once
and has no answer of its own. -/
inductive SendResult
  | wrote (n : ℕ)
  | again
  | failed
  deriving DecidableEq, Repr

/-- A buffer being written to a socket, with the bytes that have gone out and
the number of `send` calls made. -/
structure Outgoing where
  buf : Bytes
  emitted : Bytes
  sends : ℕ
  deriving DecidableEq, Repr

inductive WriteEnd
  | bytes (n : ℕ)
  | again
  | failed
  deriving DecidableEq, Repr

variable (net : ℕ → SendResult)

/-- The loop of `evbuffer_write`. Every turn that is not the last sends a byte,
so that one unit of fuel for each byte and one more are enough. -/
def writeLoop : ℕ → Outgoing → ℕ → Outgoing × WriteEnd
  | 0, o, total => (o, .bytes total)
  | fuel + 1, o, total =>
    if o.buf = [] then (o, .bytes total)
    else
      match net o.sends with
      | .wrote n =>
        let w := min n o.buf.length
        let o' := ⟨o.buf.drop w, o.emitted ++ o.buf.take w, o.sends + 1⟩
        if w = 0 then (o', .bytes total) else writeLoop fuel o' (total + w)
      | .again => ({ o with sends := o.sends + 1 }, if 0 < total then .bytes total else .again)
      | .failed => ({ o with sends := o.sends + 1 }, if 0 < total then .bytes total else .failed)

def evbufferWrite (o : Outgoing) : Outgoing × WriteEnd := writeLoop net (o.buf.length + 1) o 0

def writeTries : ℕ := 100

/-- The retry loop of `send_enc_msg_frp_server`. -/
def drain : ℕ → Outgoing → Outgoing
  | 0, o => o
  | tries + 1, o =>
    if o.buf = [] then o
    else
      match evbufferWrite net o with
      | (o', .again) => drain tries o'
      | (o', .failed) => o'
      | (o', .bytes w) => if w = 0 then o' else drain tries o'

inductive Transport
  | plainSocket
  | tls
  deriving DecidableEq, Repr

/-- Whether `bufferevent_getfd` gives a descriptor. -/
def Transport.hasFd : Transport → Bool
  | .plainSocket => true
  | .tls => false

structure Direct where
  crypto : CryptoState
  emitted : Bytes
  sends : ℕ
  deriving DecidableEq, Repr

variable (P : Primitives) (authToken : Option Bytes) (transport : Transport)

/-- `send_enc_msg_frp_server` with `tcp_mux` off and the v1 protocol. -/
def sendEncMsgFrpServer (s : Direct) (call : MsgType × Bytes) : Direct :=
  let crypto := if s.crypto.mainEncoder.isSome then s.crypto
    else initMainEncoder P authToken s.crypto
  match crypto.mainEncoder with
  | none => { s with crypto }
  | some enc =>
    let (crypto', encMsg) := encryptData P crypto (frameMsg call.1.code call.2)
    let tmp := if enc.ivSent then encMsg else enc.iv ++ encMsg
    let crypto'' := { crypto' with mainEncoder := some { enc with ivSent := true } }
    if transport.hasFd then
      let o := drain net writeTries ⟨tmp, s.emitted, s.sends⟩
      { crypto := crypto'', emitted := o.emitted, sends := o.sends }
    else { s with crypto := crypto'' }

def framed (calls : List (MsgType × Bytes)) : Bytes :=
  (calls.map fun call ↦ frameMsg call.1.code call.2).flatten

variable {net P authToken transport}

/-- The socket takes at least one byte of whatever it is offered. -/
def Accepts (net : ℕ → SendResult) : Prop := ∀ k, ∃ n, 0 < n ∧ net k = .wrote n

theorem writeLoop_accepts (hn : Accepts net) {fuel : ℕ} {o : Outgoing} (total : ℕ)
    (hf : o.buf.length < fuel) :
    (writeLoop net fuel o total).1.buf = [] ∧
      (writeLoop net fuel o total).1.emitted = o.emitted ++ o.buf ∧
      (writeLoop net fuel o total).2 = .bytes (total + o.buf.length) := by
  induction fuel generalizing o total with
  | zero => omega
  | succ fuel ih =>
    unfold writeLoop
    by_cases hb : o.buf = []
    · rw [if_pos hb]
      simp [hb]
    · obtain ⟨n, hpos, hw⟩ := hn o.sends
      have hlen := List.length_pos_of_ne_nil hb
      have hmin : min n o.buf.length ≠ 0 := by omega
      rw [if_neg hb, hw]
      dsimp only
      rw [if_neg hmin]
      have hless : (o.buf.drop (min n o.buf.length)).length < fuel := by
        rw [List.length_drop]
        omega
      obtain ⟨h1, h2, h3⟩ := ih (o := ⟨o.buf.drop (min n o.buf.length),
        o.emitted ++ o.buf.take (min n o.buf.length), o.sends + 1⟩)
        (total + min n o.buf.length) hless
      refine ⟨h1, ?_, ?_⟩
      · rw [h2]
        simp only [List.append_assoc, List.take_append_drop]
      · rw [h3]
        simp only [List.length_drop]
        congr 1
        omega

theorem drain_accepts (hn : Accepts net) (o : Outgoing) :
    (drain net writeTries o).emitted = o.emitted ++ o.buf := by
  obtain ⟨h1, h2, h3⟩ := writeLoop_accepts hn (o := o) 0 (Nat.lt_succ_self _)
  rw [show writeTries = 98 + 2 from rfl]
  unfold drain
  by_cases hb : o.buf = []
  · rw [if_pos hb, hb, List.append_nil]
  · have hlen := List.length_pos_of_ne_nil hb
    rw [if_neg hb]
    unfold evbufferWrite
    generalize writeLoop net (o.buf.length + 1) o 0 = r at h1 h2 h3
    obtain ⟨o', e⟩ := r
    dsimp only at h1 h2 h3
    subst h3
    dsimp only
    rw [if_neg (by omega), drain, if_pos h1]
    exact h2

/-- The bytes that should stand on the connection after some calls. -/
def expected (P : Primitives) (key iv : Bytes) (calls : List (MsgType × Bytes)) : Bytes :=
  if calls = [] then [] else iv ++ encrypt P.aes (.init key iv) (framed calls)

/-- The sender once it has a key stream, after the bytes `plain` went into it. -/
structure Running (P : Primitives) (transport : Transport) (key iv plain : Bytes) (s : Direct) :
    Prop where
  encoder : s.crypto.mainEncoder = some ⟨key, iv, true⟩
  ctx : s.crypto.encCtx = some (encryptCtx P.aes (.init key iv) plain)
  emitted : s.emitted =
    if transport.hasFd then iv ++ encrypt P.aes (.init key iv) plain else []

theorem send_first (hn : Accepts net) {s : Direct} (hk : Keyed P authToken s.crypto)
    (hnone : s.crypto.mainEncoder = none) (hem : s.emitted = []) (call : MsgType × Bytes) :
    Running P transport (sessionKey P authToken) (P.randBytes s.crypto.draws)
      (frameMsg call.1.code call.2) (sendEncMsgFrpServer net P authToken transport s call) := by
  obtain ⟨henc, hctx, -⟩ := initMainEncoder_spec hk
  have hcrypto : (if s.crypto.mainEncoder.isSome then s.crypto
      else initMainEncoder P authToken s.crypto) = initMainEncoder P authToken s.crypto := by
    simp [hnone]
  unfold sendEncMsgFrpServer
  rw [hcrypto]
  simp only [encryptData, henc, hctx, Option.getD_none]
  cases transport with
  | plainSocket =>
    refine ⟨rfl, rfl, ?_⟩
    simp only [Transport.hasFd, if_true, drain_accepts hn, hem, Bool.false_eq_true,
      if_false, List.nil_append]
  | tls => exact ⟨rfl, rfl, hem⟩

theorem send_next (hn : Accepts net) {s : Direct} {key iv plain : Bytes}
    (h : Running P transport key iv plain s) (call : MsgType × Bytes) :
    Running P transport key iv (plain ++ frameMsg call.1.code call.2)
      (sendEncMsgFrpServer net P authToken transport s call) := by
  have hem := h.emitted
  unfold sendEncMsgFrpServer
  simp only [h.encoder, Option.isSome_some, if_true, encryptData, h.ctx, Option.getD_some]
  cases transport with
  | plainSocket =>
    simp only [Transport.hasFd, if_true] at hem ⊢
    refine ⟨rfl, by rw [encryptCtx_append], ?_⟩
    simp only [Transport.hasFd, if_true]
    rw [drain_accepts hn, hem, encrypt_append, List.append_assoc]
  | tls => exact ⟨rfl, by rw [encryptCtx_append]; rfl, hem⟩

theorem send_run (hn : Accepts net) {s : Direct} {key iv plain : Bytes}
    (h : Running P transport key iv plain s) (calls : List (MsgType × Bytes)) :
    Running P transport key iv (plain ++ framed calls)
      (calls.foldl (sendEncMsgFrpServer net P authToken transport) s) := by
  induction calls generalizing s plain with
  | nil => simpa [framed] using h
  | cons call calls ih =>
    have hnext : Running P transport key iv (plain ++ frameMsg call.1.code call.2)
        (sendEncMsgFrpServer net P authToken transport s call) := send_next hn h call
    have hrun := ih hnext
    rw [List.append_assoc] at hrun
    exact hrun

/-- With `tcp_mux` off the encrypted messages reach the server exactly when the
connection is not behind TLS. -/
theorem emitted_iff_plainSocket (hn : Accepts net) {s : Direct} (hk : Keyed P authToken s.crypto)
    (hnone : s.crypto.mainEncoder = none) (hem : s.emitted = [])
    (calls : List (MsgType × Bytes)) :
    (calls.foldl (sendEncMsgFrpServer net P authToken transport) s).emitted =
        expected P (sessionKey P authToken) (P.randBytes s.crypto.draws) calls ↔
      transport = .plainSocket ∨ calls = [] := by
  cases calls with
  | nil => simp [expected, hem]
  | cons call calls =>
    have hfirst : Running P transport (sessionKey P authToken) (P.randBytes s.crypto.draws)
        (frameMsg call.1.code call.2) (sendEncMsgFrpServer net P authToken transport s call) :=
      send_first hn hk hnone hem call
    have hrun : Running P transport _ _ _
        (calls.foldl (sendEncMsgFrpServer net P authToken transport) _) :=
      send_run hn hfirst calls
    replace hrun := hrun.emitted
    have hframed : frameMsg call.1.code call.2 ++ framed calls = framed (call :: calls) := rfl
    rw [hframed] at hrun
    rw [List.foldl_cons, hrun, expected, if_neg (List.cons_ne_nil call calls)]
    cases transport with
    | plainSocket => simp [Transport.hasFd]
    | tls =>
      have hiv := P.randBytes_length s.crypto.draws
      have hne : P.randBytes s.crypto.draws ≠ [] := by
        intro h
        simp [h] at hiv
      simp [Transport.hasFd, hne]

theorem emitted_pingPlain :
    ([(MsgType.ping, [1, 2])].foldl
        (sendEncMsgFrpServer (fun _ ↦ .wrote 5) toyPrimitives none .plainSocket)
        ⟨.start, [], 0⟩).emitted =
      expected toyPrimitives (sessionKey toyPrimitives none) (toyPrimitives.randBytes 0)
        [(.ping, [1, 2])] :=
  (emitted_iff_plainSocket (fun _ ↦ ⟨5, by decide, rfl⟩) start_keyed rfl rfl _).mpr (.inl rfl)

/-- Behind TLS a ping is encrypted and then dropped. -/
theorem not_emitted_tls :
    ([(MsgType.ping, [1, 2])].foldl
        (sendEncMsgFrpServer (fun _ ↦ .wrote 5) toyPrimitives none .tls) ⟨.start, [], 0⟩).emitted ≠
      expected toyPrimitives (sessionKey toyPrimitives none) (toyPrimitives.randBytes 0)
        [(.ping, [1, 2])] := by
  decide

end Xfrpc.Control.SendDirect
