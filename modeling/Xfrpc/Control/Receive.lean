import Xfrpc.Control.Message
import Xfrpc.Crypto.Coder
import Xfrpc.Foundations.Chunks

namespace Xfrpc.Control.Receive

open Foundations.BigEndian Foundations.Transducer Foundations.Chunks Message Crypto.Cfb
  Crypto.Coder

/-- The first length an `int` cannot hold. -/
def intLimit : ℕ := 2147483648

/-- `(int)msg_hton(msg->length)`: the low 32 bits of the length field, signed. -/
def dataLen (cmd : Bytes) : ℤ := Int.bmod (ofBe ((cmd.drop 1).take 8)) (2 * intLimit)

/-- The message `handle_control_work` takes a buffer for, when it lets the
buffer pass. A negative length passes and names no data. -/
def checkMsg (cmd : Bytes) : Option (UInt8 × Bytes) :=
  if cmd.length < msgHdrSize ∨ dataLen cmd > cmd.length - msgHdrSize then none
  else some (cmd.headD 0, (cmd.drop msgHdrSize).take (dataLen cmd).toNat)

structure Receiver where
  isLogin : Bool
  crypto : CryptoState
  input : Bytes
  dispatched : List (UInt8 × Bytes)
  deriving DecidableEq, Repr

variable (P : Primitives) (authToken : Option Bytes) (loginCheck : Bytes → Bool)

def blockSize : ℕ := 16

def handleEncMsg (s : CryptoState) (buf : Bytes) : CryptoState × Option Bytes :=
  if buf = [] then (s, none)
  else if s.mainDecoder.isSome then
    let (s', dec) := decryptData P s buf
    (s', some dec)
  else if buf.length < blockSize then (s, none)
  else
    let s₁ := initMainDecoder P authToken s buf
    let rest := buf.drop blockSize
    if rest = [] then (s₁, none)
    else
      let (s', dec) := decryptData P s₁ rest
      (s', some dec)

/-- `handle_control_work` on the control channel, where `ctx` is NULL. -/
def handleControlWork (r : Receiver) (buf : Bytes) : Receiver :=
  let (crypto, cmd) := handleEncMsg P authToken r.crypto buf
  { r with crypto, dispatched := r.dispatched ++ (cmd.bind checkMsg).toList }

/-- `handle_login_response`; `loginCheck` says what the JSON layer makes of the
data. -/
def handleLoginResponse (r : Receiver) (buf : Bytes) : Receiver :=
  if buf.headD 0 ≠ MsgType.loginResp.code then r
  else if loginCheck ((buf.drop msgHdrSize).take (dataLen buf).toNat) then { r with isLogin := true }
  else r

/-- `handle_frps_msg` with the v1 protocol, on the control channel. -/
def handleFrpsMsg (r : Receiver) (buf : Bytes) : Receiver :=
  if buf = [] then r
  else if r.isLogin then handleControlWork P authToken r buf
  else handleLoginResponse loginCheck r buf

/-- How much of the input `handle_non_mux` removes. -/
def drainLen (r : Receiver) : ℕ :=
  if r.isLogin = false ∧ r.input.length > msgHdrSize ∧
      r.input.headD 0 = MsgType.loginResp.code ∧ dataLen r.input + msgHdrSize > 0 ∧
      dataLen r.input + msgHdrSize ≤ r.input.length then
    (dataLen r.input + msgHdrSize).toNat
  else r.input.length

def handleNonMux (r : Receiver) : Receiver :=
  { handleFrpsMsg P authToken loginCheck r r.input with input := r.input.drop (drainLen r) }

/-- `recv_cb` with `tcp_mux` off. Its loop comes back once at most: the second
time round the client is logged in from the start. -/
def recvCb (r : Receiver) : Receiver :=
  if r.input = [] then r
  else
    let r₁ := handleNonMux P authToken loginCheck r
    if r.isLogin = false ∧ r₁.isLogin = true ∧ r₁.input ≠ [] then
      handleNonMux P authToken loginCheck r₁
    else r₁

/-- One delivery: a DATA payload of the control stream with `tcp_mux` on, bytes
added to the input buffer with `tcp_mux` off. -/
def deliver (tcpMux : Bool) (r : Receiver) (buf : Bytes) : Receiver :=
  if tcpMux then handleFrpsMsg P authToken loginCheck r buf
  else recvCb P authToken loginCheck { r with input := r.input ++ buf }

def records (msgs : List (UInt8 × Bytes)) : Bytes :=
  (msgs.map fun m ↦ frameMsg m.1 m.2).flatten

/-- What the server writes after LoginResp. -/
def serverStream (iv : Bytes) (msgs : List (UInt8 × Bytes)) : Bytes :=
  iv ++ encrypt P.aes (.init (sessionKey P authToken) iv) (records msgs)

/-- The pieces of the stream as they are delivered: the first one behind
LoginResp if the client still waits for it. -/
def deliveries (login : Option Bytes) (pieces : List Bytes) : List Bytes :=
  match login, pieces with
  | none, pieces => pieces
  | some json, [] => [frameMsg MsgType.loginResp.code json]
  | some json, piece :: pieces => (frameMsg MsgType.loginResp.code json ++ piece) :: pieces

variable {P authToken loginCheck}

theorem dataLen_lt (cmd : Bytes) : dataLen cmd < intLimit := by
  have h : dataLen cmd < (((2 * intLimit : ℕ) : ℤ) + 1) / 2 := Int.bmod_lt (by decide)
  rw [intLimit] at h ⊢
  omega

theorem bmod_of_lt {n : ℕ} (h : n < intLimit) : Int.bmod n (2 * intLimit) = n := by
  rw [intLimit] at h ⊢
  exact Int.bmod_eq_of_le (by omega) (by omega)

theorem dataLen_frameMsg (type : UInt8) {data : Bytes} (h : data.length < intLimit) (rest : Bytes) :
    dataLen (frameMsg type data ++ rest) = data.length := by
  have htake : ((frameMsg type data ++ rest).drop 1).take 8 = toBe 8 data.length := by
    simp only [frameMsg, List.cons_append, List.append_assoc, List.drop_succ_cons, List.drop_zero]
    exact List.take_left' (toBe_length _ _)
  have hlt : data.length < 256 ^ 8 := h.trans (by decide)
  rw [dataLen, htake, ofBe_toBe hlt, bmod_of_lt h]

theorem drop_frameMsg (type : UInt8) (data rest : Bytes) :
    (frameMsg type data ++ rest).drop msgHdrSize = data ++ rest := by
  simp only [frameMsg, msgHdrSize, List.cons_append, List.append_assoc, List.drop_succ_cons]
  exact List.drop_left' (toBe_length _ _)

theorem checkMsg_frameMsg (type : UInt8) {data : Bytes} (h : data.length < intLimit) :
    checkMsg (frameMsg type data) = some (type, data) := by
  have hlen := dataLen_frameMsg type h []
  have hdrop := drop_frameMsg type data []
  rw [List.append_nil] at hlen hdrop
  rw [List.append_nil] at hdrop
  unfold checkMsg
  rw [hlen, hdrop, frameMsg_length, if_neg (by push_cast; omega), Int.toNat_natCast,
    List.take_length]
  rfl

theorem checkMsg_some {cmd : Bytes} {m : UInt8 × Bytes} (h : checkMsg cmd = some m) :
    msgHdrSize + m.2.length ≤ cmd.length ∧ m.2.length < intLimit := by
  unfold checkMsg at h
  split_ifs at h with hc
  have hlt := dataLen_lt cmd
  simp only [Option.some.injEq] at h
  have hpos : 0 < intLimit := by decide
  rw [← h, List.length_take, List.length_drop]
  omega

def reader : Reader UInt8 (UInt8 × Bytes) where
  parse := checkMsg
  enc m := frameMsg m.1 m.2
  enc_ne_nil _ := List.cons_ne_nil _ _
  enc_le cmd m h := by
    rw [frameMsg_length]
    exact (checkMsg_some h).1

theorem reader_parse : reader.parse = checkMsg := rfl

theorem reader_enc (m : UInt8 × Bytes) : reader.enc m = frameMsg m.1 m.2 := rfl

theorem reader_readable (m : UInt8 × Bytes) :
    reader.parse (reader.enc m) = some m ↔ m.2.length < intLimit := by
  rw [reader_parse, reader_enc]
  constructor
  · intro h
    exact (checkMsg_some h).2
  · intro h
    exact checkMsg_frameMsg m.1 h

/-- The client is logged in, nothing waits in the input, and the decoder stands
at `c`. -/
structure At (r : Receiver) (c : CfbCtx) : Prop where
  isLogin : r.isLogin = true
  input : r.input = []
  decoder : ∃ d, r.crypto.mainDecoder = some d ∧ r.crypto.decCtx.getD (.init d.key d.iv) = c

/-- The client is logged in and still waits for the IV. -/
structure Fresh (r : Receiver) : Prop where
  isLogin : r.isLogin = true
  input : r.input = []
  decoder : r.crypto.mainDecoder = none

variable (P) in
/-- The messages that come out of a buffer when the decoder stands at `c`. -/
def readFrom (c : CfbCtx) (pieces : List Bytes) : List (UInt8 × Bytes) :=
  (outputs (decByte P.aes) c pieces).filterMap checkMsg

theorem readFrom_cons (c : CfbCtx) (piece : Bytes) (pieces : List Bytes) :
    readFrom P c (piece :: pieces) =
      (checkMsg (decrypt P.aes c piece)).toList ++ readFrom P (decryptCtx P.aes c piece) pieces := by
  rw [readFrom, outputs, List.filterMap_cons]
  cases h : checkMsg (output (decByte P.aes) c piece) with
  | none =>
    have h' : checkMsg (decrypt P.aes c piece) = none := h
    rw [h']
    rfl
  | some m =>
    have h' : checkMsg (decrypt P.aes c piece) = some m := h
    rw [h']
    rfl

theorem checkMsg_nil : checkMsg [] = none := rfl

theorem handle_at {r : Receiver} {c : CfbCtx} (h : At r c) (piece : Bytes) :
    At (handleFrpsMsg P authToken loginCheck r piece) (decryptCtx P.aes c piece) ∧
      (handleFrpsMsg P authToken loginCheck r piece).dispatched =
        r.dispatched ++ (checkMsg (decrypt P.aes c piece)).toList := by
  obtain ⟨hl, hi, d, hd, hc⟩ := h
  unfold handleFrpsMsg
  by_cases hp : piece = []
  · rw [if_pos hp, hp]
    refine ⟨⟨hl, hi, d, hd, hc⟩, ?_⟩
    have hnil : checkMsg (decrypt P.aes c []) = none := checkMsg_nil
    rw [hnil, Option.toList_none, List.append_nil]
  · have hdec : handleEncMsg P authToken r.crypto piece =
        ({ r.crypto with decCtx := some (decryptCtx P.aes c piece) },
          some (decrypt P.aes c piece)) := by
      simp [handleEncMsg, hp, hd, decryptData, hc]
    rw [if_neg hp, if_pos hl, handleControlWork, hdec]
    exact ⟨⟨hl, hi, d, hd, rfl⟩, rfl⟩

theorem run_at {r : Receiver} {c : CfbCtx} (h : At r c) (pieces : List Bytes) :
    (pieces.foldl (handleFrpsMsg P authToken loginCheck) r).dispatched =
      r.dispatched ++ readFrom P c pieces := by
  induction pieces generalizing r c with
  | nil => simp [readFrom, outputs]
  | cons piece pieces ih =>
    obtain ⟨hat, hdis⟩ := handle_at (P := P) h piece
    rw [List.foldl_cons, ih hat, hdis, readFrom_cons, List.append_assoc]

theorem handle_fresh_short {r : Receiver} (h : Fresh r) {piece : Bytes}
    (hp : piece.length < blockSize) : handleFrpsMsg P authToken loginCheck r piece = r := by
  obtain ⟨hl, hi, hd⟩ := h
  unfold handleFrpsMsg
  by_cases hnil : piece = []
  · rw [if_pos hnil]
  · have hdec : handleEncMsg P authToken r.crypto piece = (r.crypto, none) := by
      simp [handleEncMsg, hnil, hd, hp]
    rw [if_neg hnil, if_pos hl, handleControlWork, hdec]
    simp

theorem handle_fresh_long {r : Receiver} (h : Fresh r) {piece : Bytes}
    (hp : blockSize ≤ piece.length) (pieces : List Bytes) :
    ((piece :: pieces).foldl (handleFrpsMsg P authToken loginCheck) r).dispatched =
      r.dispatched ++ readFrom P (.init (sessionKey P authToken) (piece.take blockSize))
        (piece.drop blockSize :: pieces) := by
  obtain ⟨hl, hi, hd⟩ := h
  have hb : blockSize = 16 := rfl
  have hnil : piece ≠ [] := List.ne_nil_of_length_pos (by omega)
  have hlt : ¬ piece.length < blockSize := by omega
  let c := CfbCtx.init (sessionKey P authToken) (piece.take blockSize)
  let r₁ : Receiver := { r with crypto := initMainDecoder P authToken r.crypto piece }
  have hat : At r₁ c := ⟨hl, hi, _, rfl, rfl⟩
  have hstep : handleFrpsMsg P authToken loginCheck r piece =
      handleFrpsMsg P authToken loginCheck r₁ (piece.drop blockSize) := by
    unfold handleFrpsMsg
    rw [if_neg hnil, if_pos hl]
    by_cases hrest : piece.drop blockSize = []
    · rw [if_pos hrest]
      simp [handleControlWork, handleEncMsg, hnil, hd, hlt, hrest, r₁]
    · rw [if_neg hrest, if_pos hat.isLogin]
      simp [handleControlWork, handleEncMsg, hnil, hd, hlt, hrest, r₁, initMainDecoder]
  rw [List.foldl_cons, hstep, ← List.foldl_cons, run_at hat]

theorem records_eq (msgs : List (UInt8 × Bytes)) : records msgs = (reader.written msgs).flatten :=
  rfl

theorem records_nil_iff (msgs : List (UInt8 × Bytes)) : records msgs = [] ↔ msgs = [] := by
  cases msgs with
  | nil => exact ⟨fun _ ↦ rfl, fun _ ↦ rfl⟩
  | cons m msgs => simp [records, frameMsg]

theorem readFrom_length_le (c : CfbCtx) (pieces : List Bytes) :
    (records (readFrom P c pieces)).length ≤ pieces.flatten.length := by
  have hle := reader.written_length_le (outputs (decByte P.aes) c pieces)
  rw [outputs_flatten, output_length] at hle
  exact hle

theorem run_fresh_bound {r : Receiver} (h : Fresh r) (pieces : List Bytes) :
    ∃ got, (pieces.foldl (handleFrpsMsg P authToken loginCheck) r).dispatched =
      r.dispatched ++ got ∧
        (got = [] ∨ (records got).length + blockSize ≤ pieces.flatten.length) := by
  induction pieces with
  | nil => exact ⟨[], by simp, .inl rfl⟩
  | cons piece pieces ih =>
    by_cases hp : piece.length < blockSize
    · obtain ⟨got, hgot, hle⟩ := ih
      refine ⟨got, by rw [List.foldl_cons, handle_fresh_short h hp, hgot], ?_⟩
      rw [List.flatten_cons, List.length_append]
      exact hle.imp_right fun hle ↦ by omega
    · have hge : blockSize ≤ piece.length := Nat.le_of_not_lt hp
      refine ⟨_, handle_fresh_long h hge pieces, .inr ?_⟩
      have hle := readFrom_length_le (P := P)
        (.init (sessionKey P authToken) (piece.take blockSize)) (piece.drop blockSize :: pieces)
      rw [List.flatten_cons, List.length_append, List.length_drop] at hle
      rw [List.flatten_cons, List.length_append]
      omega

def lens (msgs : List (UInt8 × Bytes)) : List ℕ := msgs.map fun m ↦ msgHdrSize + m.2.length

theorem lens_eq (msgs : List (UInt8 × Bytes)) : lens msgs = (reader.written msgs).map List.length := by
  rw [Reader.written, List.map_map]
  refine List.map_congr_left fun m _ ↦ ?_
  rw [Function.comp_apply, reader_enc, frameMsg_length]

def mergeIv : List ℕ → List ℕ
  | [] => [blockSize]
  | n :: ns => (blockSize + n) :: ns

/-- The pieces hold the IV alone or with the first record, and then one record
each. -/
def Cut (pieces : List Bytes) (msgs : List (UInt8 × Bytes)) : Prop :=
  sizes pieces = blockSize :: lens msgs ∨ sizes pieces = mergeIv (lens msgs)

/-- Every length fits an `int`. -/
def Short (msgs : List (UInt8 × Bytes)) : Prop := ∀ m ∈ msgs, m.2.length < intLimit

theorem readFrom_eq_iff {c : CfbCtx} {pieces : List Bytes} {msgs : List (UInt8 × Bytes)}
    (h : pieces.flatten = encrypt P.aes c (records msgs)) :
    readFrom P c pieces = msgs ↔ sizes pieces = lens msgs ∧ Short msgs := by
  have hflat : (outputs (decByte P.aes) c pieces).flatten = (reader.written msgs).flatten := by
    rw [outputs_flatten, h, ← records_eq]
    exact decrypt_encrypt c (records msgs)
  have hsizes : sizes (outputs (decByte P.aes) c pieces) = sizes pieces :=
    sizes_congr (outputs_length _ c pieces)
  have hiff := reader.filterMap_eq_iff hflat
  rw [hsizes, ← lens_eq] at hiff
  refine hiff.trans (and_congr_right fun _ ↦ ?_)
  exact forall₂_congr fun m _ ↦ reader_readable m

theorem sizes_merge_iff {piece : Bytes} {pieces : List Bytes} {msgs : List (UInt8 × Bytes)}
    (hm : msgs ≠ []) (hp : blockSize ≤ piece.length) :
    Cut (piece :: pieces) msgs ↔ sizes (piece.drop blockSize :: pieces) = lens msgs := by
  have hb : blockSize = 16 := rfl
  have hne : piece ≠ [] := List.ne_nil_of_length_pos (by omega)
  obtain ⟨m, msgs, rfl⟩ := List.exists_cons_of_ne_nil hm
  have hh : msgHdrSize = 9 := rfl
  have hdrop : (piece.drop blockSize).length = piece.length - blockSize := List.length_drop
  unfold Cut
  rw [sizes_cons hne]
  simp only [lens, List.map_cons, mergeIv, List.cons.injEq]
  by_cases hrest : piece.drop blockSize = []
  · rw [hrest, sizes_cons_nil]
    rw [hrest, List.length_nil] at hdrop
    constructor
    · rintro (⟨-, h⟩ | ⟨h, -⟩)
      · exact h
      · omega
    · intro h
      exact .inl ⟨by omega, h⟩
  · rw [sizes_cons hrest, List.cons.injEq]
    have hpos := List.length_pos_of_ne_nil hrest
    constructor
    · rintro (⟨h, -⟩ | ⟨h, h'⟩)
      · omega
      · exact ⟨by omega, h'⟩
    · rintro ⟨h, h'⟩
      exact .inr ⟨by omega, h'⟩

theorem run_fresh_idle {r : Receiver} (h : Fresh r) {pieces : List Bytes}
    (hlen : pieces.flatten.length ≤ blockSize) :
    (pieces.foldl (handleFrpsMsg P authToken loginCheck) r).dispatched = r.dispatched ++ [] := by
  obtain ⟨got, hgot, hnil | hle⟩ := run_fresh_bound (P := P) h pieces
  · rw [hgot, hnil]
  · have hrec : records got = [] := List.length_eq_zero_iff.mp (by omega)
    rw [hgot, (records_nil_iff got).mp hrec]

theorem run_fresh_lost {r : Receiver} (h : Fresh r) {pieces : List Bytes}
    {msgs : List (UInt8 × Bytes)}
    (hlen : pieces.flatten.length < (records msgs).length + blockSize) :
    (pieces.foldl (handleFrpsMsg P authToken loginCheck) r).dispatched = r.dispatched ++ msgs ↔
      msgs = [] := by
  constructor
  · intro hdis
    obtain ⟨got, hgot, hnil | hle⟩ := run_fresh_bound (P := P) h pieces
    · rw [hgot, List.append_cancel_left_eq] at hdis
      rw [← hdis, hnil]
    · rw [hgot, List.append_cancel_left_eq] at hdis
      rw [← hdis] at hlen
      omega
  · intro hm
    rw [hm]
    refine run_fresh_idle h ?_
    rw [hm, (records_nil_iff []).mpr rfl, List.length_nil] at hlen
    omega

theorem serverStream_length (iv : Bytes) (hiv : iv.length = blockSize)
    (msgs : List (UInt8 × Bytes)) :
    (serverStream P authToken iv msgs).length = (records msgs).length + blockSize := by
  rw [serverStream, List.length_append, encrypt_length, hiv, Nat.add_comm]

theorem run_fresh_iff {r : Receiver} (h : Fresh r) {iv : Bytes} (hiv : iv.length = blockSize)
    {pieces : List Bytes} {msgs : List (UInt8 × Bytes)}
    (hflat : pieces.flatten = serverStream P authToken iv msgs) :
    (pieces.foldl (handleFrpsMsg P authToken loginCheck) r).dispatched = r.dispatched ++ msgs ↔
      msgs = [] ∨ (Cut pieces msgs ∧ Short msgs) := by
  have hlen : pieces.flatten.length = (records msgs).length + blockSize := by
    rw [hflat, serverStream_length iv hiv]
  by_cases hm : msgs = []
  · refine iff_of_true ?_ (.inl hm)
    rw [hm]
    refine run_fresh_idle h ?_
    rw [hlen, hm, (records_nil_iff []).mpr rfl, List.length_nil]
    omega
  · induction pieces with
    | nil =>
      rw [List.flatten_nil, List.length_nil, blockSize] at hlen
      omega
    | cons piece pieces ih =>
      by_cases hp : blockSize ≤ piece.length
      · rw [handle_fresh_long h hp, List.append_cancel_left_eq, sizes_merge_iff hm hp]
        rw [List.flatten_cons, serverStream] at hflat
        have htake : piece.take blockSize = iv := by
          have ht := congrArg (List.take blockSize) hflat
          rwa [List.take_append_of_le_length hp, List.take_left' hiv] at ht
        have hrest : (piece.drop blockSize :: pieces).flatten =
            encrypt P.aes (.init (sessionKey P authToken) iv) (records msgs) := by
          have hd := congrArg (List.drop blockSize) hflat
          rwa [List.drop_append_of_le_length hp, List.drop_left' hiv] at hd
        rw [htake, readFrom_eq_iff hrest]
        simp [hm]
      · rw [List.foldl_cons, handle_fresh_short h (Nat.lt_of_not_le hp)]
        by_cases hnil : piece = []
        · subst hnil
          have hcut : Cut ([] :: pieces) msgs ↔ Cut pieces msgs := by
            unfold Cut
            rw [sizes_cons_nil]
          rw [hcut]
          exact ih hflat hlen
        · have hpos := List.length_pos_of_ne_nil hnil
          rw [List.flatten_cons, List.length_append] at hlen
          rw [run_fresh_lost h (by omega)]
          have hcut : ¬ Cut (piece :: pieces) msgs := by
            obtain ⟨m, msgs, rfl⟩ := List.exists_cons_of_ne_nil hm
            unfold Cut
            rw [sizes_cons hnil]
            simp only [lens, List.map_cons, mergeIv, List.cons.injEq]
            omega
          simp [hcut]

theorem deliver_loggedIn (tcpMux : Bool) {r : Receiver} (hl : r.isLogin = true)
    (hi : r.input = []) (piece : Bytes) :
    deliver P authToken loginCheck tcpMux r piece = handleFrpsMsg P authToken loginCheck r piece := by
  cases tcpMux with
  | true => rfl
  | false =>
    obtain ⟨login, crypto, input, dispatched⟩ := r
    subst hl hi
    simp only [deliver, recvCb, handleNonMux, drainLen, handleFrpsMsg, handleControlWork]
    by_cases hp : piece = []
    · simp [hp]
    · simp [hp]

theorem handleFrpsMsg_loggedIn {r : Receiver} (hl : r.isLogin = true) (hi : r.input = [])
    (piece : Bytes) : (handleFrpsMsg P authToken loginCheck r piece).isLogin = true ∧
      (handleFrpsMsg P authToken loginCheck r piece).input = [] := by
  unfold handleFrpsMsg
  by_cases hp : piece = []
  · rw [if_pos hp]
    exact ⟨hl, hi⟩
  · rw [if_neg hp, if_pos hl]
    exact ⟨hl, hi⟩

theorem run_loggedIn (tcpMux : Bool) {r : Receiver} (hl : r.isLogin = true) (hi : r.input = [])
    (pieces : List Bytes) :
    pieces.foldl (deliver P authToken loginCheck tcpMux) r =
      pieces.foldl (handleFrpsMsg P authToken loginCheck) r := by
  induction pieces generalizing r with
  | nil => rfl
  | cons piece pieces ih =>
    obtain ⟨hl', hi'⟩ := handleFrpsMsg_loggedIn (P := P) hl hi piece
    rw [List.foldl_cons, List.foldl_cons, deliver_loggedIn tcpMux hl hi, ih hl' hi']

theorem handleFrpsMsg_login {r : Receiver} (hl : r.isLogin = false) {json : Bytes}
    (hj : loginCheck json = true) (hlen : json.length < intLimit) (piece : Bytes) :
    handleFrpsMsg P authToken loginCheck r (frameMsg MsgType.loginResp.code json ++ piece) =
      { r with isLogin := true } := by
  have hdata : ((frameMsg MsgType.loginResp.code json ++ piece).drop msgHdrSize).take
      (dataLen (frameMsg MsgType.loginResp.code json ++ piece)).toNat = json := by
    rw [dataLen_frameMsg _ hlen, drop_frameMsg, Int.toNat_natCast, List.take_left' rfl]
  have hhead : (frameMsg MsgType.loginResp.code json ++ piece).headD 0 = MsgType.loginResp.code :=
    rfl
  have hne : frameMsg MsgType.loginResp.code json ++ piece ≠ [] := List.cons_ne_nil _ _
  rw [handleFrpsMsg, if_neg hne, if_neg (by rw [hl]; decide), handleLoginResponse, hdata, hhead,
    if_neg (by simp), if_pos hj]

theorem deliver_login_mux {r : Receiver} (hl : r.isLogin = false) {json : Bytes}
    (hj : loginCheck json = true) (hlen : json.length < intLimit) (piece : Bytes) :
    deliver P authToken loginCheck true r (frameMsg MsgType.loginResp.code json ++ piece) =
      { r with isLogin := true } :=
  handleFrpsMsg_login hl hj hlen piece

theorem drainLen_login {r : Receiver} (hl : r.isLogin = false) {json piece : Bytes}
    (hlen : json.length < intLimit) (hi : r.input = frameMsg MsgType.loginResp.code json ++ piece) :
    r.input.drop (drainLen r) = piece := by
  have hframe : (frameMsg MsgType.loginResp.code json).length = msgHdrSize + json.length :=
    frameMsg_length _ _
  have hlength : r.input.length = msgHdrSize + json.length + piece.length := by
    rw [hi, List.length_append, hframe]
  have hhead : r.input.headD 0 = MsgType.loginResp.code := by rw [hi]; rfl
  have hdata : dataLen r.input = json.length := by rw [hi, dataLen_frameMsg _ hlen]
  have hh : msgHdrSize = 9 := rfl
  have hdrain : drainLen r = msgHdrSize + json.length := by
    unfold drainLen
    rw [hdata, hhead, hlength]
    split_ifs with hc
    · omega
    · simp only [hl, true_and] at hc
      omega
  rw [hdrain, hi, List.drop_left' hframe]

theorem deliver_login_direct {r : Receiver} (hl : r.isLogin = false) (hi : r.input = [])
    {json : Bytes} (hj : loginCheck json = true) (hlen : json.length < intLimit) (piece : Bytes) :
    deliver P authToken loginCheck false r (frameMsg MsgType.loginResp.code json ++ piece) =
      handleFrpsMsg P authToken loginCheck { r with isLogin := true } piece := by
  let r' : Receiver := { r with input := frameMsg MsgType.loginResp.code json ++ piece }
  have hl' : r'.isLogin = false := hl
  have hne : r'.input ≠ [] := List.cons_ne_nil _ _
  have hmsg : handleFrpsMsg P authToken loginCheck r' r'.input = { r' with isLogin := true } :=
    handleFrpsMsg_login hl' hj hlen piece
  have hturn : handleNonMux P authToken loginCheck r' = { r with isLogin := true, input := piece } := by
    rw [handleNonMux, hmsg, drainLen_login hl' hlen rfl]
  have hdeliver : deliver P authToken loginCheck false r
      (frameMsg MsgType.loginResp.code json ++ piece) = recvCb P authToken loginCheck r' := by
    simp only [deliver, Bool.false_eq_true, if_false, hi, List.nil_append, r']
  rw [hdeliver, recvCb, if_neg hne, hturn]
  by_cases hp : piece = []
  · simp [hp, hl', handleFrpsMsg, hi]
  · simp [hp, hl', handleNonMux, handleFrpsMsg, drainLen, handleControlWork, hi]

/-- What the code needs of the cut for every message to be dispatched. -/
def Aligned (tcpMux : Bool) (login : Option Bytes) (pieces : List Bytes)
    (msgs : List (UInt8 × Bytes)) : Prop :=
  Cut pieces msgs ∧ Short msgs ∧ (tcpMux = true → login.isSome = true → pieces.headD [] = [])

instance (tcpMux : Bool) (login : Option Bytes) (pieces : List Bytes)
    (msgs : List (UInt8 × Bytes)) : Decidable (Aligned tcpMux login pieces msgs) :=
  inferInstanceAs (Decidable ((_ ∨ _) ∧ (∀ m ∈ msgs, m.2.length < intLimit) ∧ (_ → _ → _)))

/-- Every message is dispatched, in order, exactly when there are none or the
deliveries are aligned with them. -/
theorem dispatched_iff_aligned {tcpMux : Bool} {r : Receiver} {login : Option Bytes}
    (hl : r.isLogin = login.isNone) (hi : r.input = []) (hd : r.crypto.mainDecoder = none)
    (hj : ∀ json ∈ login, loginCheck json = true ∧ json.length < intLimit)
    {iv : Bytes} (hiv : iv.length = blockSize) {pieces : List Bytes}
    {msgs : List (UInt8 × Bytes)} (hflat : pieces.flatten = serverStream P authToken iv msgs) :
    ((deliveries login pieces).foldl (deliver P authToken loginCheck tcpMux) r).dispatched =
        r.dispatched ++ msgs ↔
      msgs = [] ∨ Aligned tcpMux login pieces msgs := by
  cases login with
  | none =>
    have hlogin : r.isLogin = true := hl
    rw [deliveries, run_loggedIn tcpMux hlogin hi, run_fresh_iff ⟨hlogin, hi, hd⟩ hiv hflat]
    simp [Aligned]
  | some json =>
    obtain ⟨hcheck, hlen⟩ := hj json rfl
    have hlogin : r.isLogin = false := hl
    cases pieces with
    | nil =>
      have hnil := congrArg List.length hflat
      rw [serverStream_length iv hiv, List.flatten_nil, List.length_nil, blockSize] at hnil
      omega
    | cons piece pieces =>
      let r₁ : Receiver := { r with isLogin := true }
      have hfresh : Fresh r₁ := ⟨rfl, hi, hd⟩
      have hdis : r₁.dispatched = r.dispatched := rfl
      have hall : ((piece :: pieces).foldl (handleFrpsMsg P authToken loginCheck) r₁).dispatched =
          r₁.dispatched ++ msgs ↔ msgs = [] ∨ (Cut (piece :: pieces) msgs ∧ Short msgs) :=
        run_fresh_iff hfresh hiv hflat
      rw [hdis] at hall
      cases tcpMux with
      | false =>
        have hfirst : deliver P authToken loginCheck false r
            (frameMsg MsgType.loginResp.code json ++ piece) =
              handleFrpsMsg P authToken loginCheck r₁ piece :=
          deliver_login_direct hlogin hi hcheck hlen piece
        have hin : (handleFrpsMsg P authToken loginCheck r₁ piece).isLogin = true ∧
            (handleFrpsMsg P authToken loginCheck r₁ piece).input = [] :=
          handleFrpsMsg_loggedIn hfresh.isLogin hfresh.input piece
        rw [deliveries, List.foldl_cons, hfirst, run_loggedIn false hin.1 hin.2,
          ← List.foldl_cons, hall]
        simp [Aligned]
      | true =>
        have hfirst : deliver P authToken loginCheck true r
            (frameMsg MsgType.loginResp.code json ++ piece) = r₁ :=
          deliver_login_mux hlogin hcheck hlen piece
        rw [deliveries, List.foldl_cons, hfirst, run_loggedIn true hfresh.isLogin hfresh.input]
        by_cases hp : piece = []
        · rw [hp, List.foldl_cons, handle_fresh_short hfresh (by decide)] at hall
          rw [hall, hp]
          simp [Aligned]
        · have hpos := List.length_pos_of_ne_nil hp
          have htotal := congrArg List.length hflat
          rw [serverStream_length iv hiv, List.flatten_cons, List.length_append] at htotal
          have hlost : (pieces.foldl (handleFrpsMsg P authToken loginCheck) r₁).dispatched =
              r₁.dispatched ++ msgs ↔ msgs = [] := run_fresh_lost hfresh (by omega)
          rw [← hdis, hlost]
          simp [Aligned, hp]

def sampleReceiver (isLogin : Bool) : Receiver :=
  { isLogin, crypto := .start, input := [], dispatched := [] }

def sampleMsgs : List (UInt8 × Bytes) :=
  [(MsgType.newProxyResp.code, [1]), (MsgType.reqWorkConn.code, [])]

/-- The stream of `sampleMsgs` cut after the given numbers of bytes. -/
def samplePieces (cuts : List ℕ) : List Bytes :=
  let stream := serverStream toyPrimitives none (List.replicate 16 5) sampleMsgs
  (cuts.zip (cuts.tail ++ [stream.length])).map fun c ↦ (stream.drop c.1).take (c.2 - c.1)

/-- A LoginResp, then the IV with the first record, then the second one. -/
theorem dispatched_samplePieces :
    ((deliveries (some [7]) (samplePieces [0, 0, 26])).foldl
      (deliver toyPrimitives none (fun _ ↦ true) true) (sampleReceiver false)).dispatched =
        sampleMsgs := by
  have hflat : (samplePieces [0, 0, 26]).flatten =
      serverStream toyPrimitives none (List.replicate 16 5) sampleMsgs := by decide +kernel
  have hlogin : ∀ json ∈ some ([7] : Bytes),
      (fun _ ↦ true : Bytes → Bool) json = true ∧ json.length < intLimit := by
    rintro json ⟨⟩
    decide
  refine (dispatched_iff_aligned (r := sampleReceiver false) rfl rfl rfl hlogin rfl hflat).mpr ?_
  decide +kernel

/-- Two records in one buffer, a record in two buffers, bytes of the stream in
the same DATA frame as LoginResp. -/
theorem not_dispatched_samplePieces :
    ((deliveries none (samplePieces [0])).foldl
      (deliver toyPrimitives none (fun _ ↦ true) true) (sampleReceiver true)).dispatched ≠
        sampleMsgs ∧
    ((deliveries none (samplePieces [0, 26, 30])).foldl
      (deliver toyPrimitives none (fun _ ↦ true) false) (sampleReceiver true)).dispatched ≠
        sampleMsgs ∧
    ((deliveries (some [7]) (samplePieces [0, 16, 26])).foldl
      (deliver toyPrimitives none (fun _ ↦ true) true) (sampleReceiver false)).dispatched ≠
        sampleMsgs := by
  decide +kernel

end Xfrpc.Control.Receive
