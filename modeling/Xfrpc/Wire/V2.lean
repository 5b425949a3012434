import Xfrpc.Control.Message

namespace Xfrpc.Wire.V2

open Foundations.BigEndian Control.Message

def magic : Bytes := [0x46, 0x52, 0x50, 0x00, 0x02, 0x0d, 0x0a]

def frameClientHello : ℕ := 1
def frameServerHello : ℕ := 2
def frameMessage : ℕ := 16

def msgTypeToId : MsgType → ℕ
  | .login => 1
  | .loginResp => 2
  | .newProxy => 3
  | .newProxyResp => 4
  | .closeProxy => 5
  | .newWorkConn => 6
  | .reqWorkConn => 7
  | .startWorkConn => 8
  | .newVisitorConn => 9
  | .newVisitorConnResp => 10
  | .ping => 11
  | .pong => 12
  | .udpPacket => 13
  | .natHoleVisitor => 14
  | .natHoleClient => 15
  | .natHoleResp => 16
  | .natHoleSid => 17
  | .natHoleReport => 18
  | .natHoleClientDetectOK => 0

def idToMsgType (id : ℕ) : Option MsgType :=
  if id = 0 then none else MsgType.all.find? (fun t ↦ msgTypeToId t == id)

theorem idToMsgType_msgTypeToId {t : MsgType} (h : msgTypeToId t ≠ 0) :
    idToMsgType (msgTypeToId t) = some t := by
  cases t <;> first | rfl | exact absurd rfl h

theorem msgTypeToId_lt (t : MsgType) : msgTypeToId t < 256 ^ 2 := by cases t <;> decide

def frameHeaderSize : ℕ := 8

def encodeFrame (type : ℕ) (payload : Bytes) : Bytes :=
  toBe 2 type ++ [0, 0] ++ toBe 4 payload.length ++ payload

@[simp] theorem encodeFrame_length (type : ℕ) (payload : Bytes) :
    (encodeFrame type payload).length = frameHeaderSize + payload.length := by
  simp only [encodeFrame, frameHeaderSize, List.length_append, toBe_length, List.length_cons,
    List.length_nil]

inductive ParseResult
  | incomplete
  | error
  | frame (type : ℕ) (payload : Bytes) (consumed : ℕ)
  deriving DecidableEq, Repr

def maxFramePayload : ℕ := 64 * 1024

def parseFrame (buf : Bytes) : ParseResult :=
  if buf.length < frameHeaderSize then .incomplete
  else if ofBe ((buf.drop 2).take 2) ≠ 0 then .error
  else
    let len := ofBe ((buf.drop 4).take 4)
    if len > maxFramePayload then .error
    else if buf.length < frameHeaderSize + len then .incomplete
    else .frame (ofBe (buf.take 2)) ((buf.drop frameHeaderSize).take len) (frameHeaderSize + len)

def encodeMessage (t : MsgType) (json : Bytes) : Option Bytes :=
  if msgTypeToId t = 0 then none
  else some (encodeFrame frameMessage (toBe 2 (msgTypeToId t) ++ json))

def payloadToV1 (payload : Bytes) : Option Bytes :=
  if payload.length < 2 then none
  else (idToMsgType (ofBe (payload.take 2))).map fun t ↦ frameMsg t.code (payload.drop 2)

theorem encodeFrame_fields {type : ℕ} {payload : Bytes} (rest : Bytes) (ht : type < 256 ^ 2)
    (hl : payload.length < 256 ^ 4) :
    ofBe ((encodeFrame type payload ++ rest).take 2) = type ∧
      ofBe (((encodeFrame type payload ++ rest).drop 2).take 2) = 0 ∧
      ofBe (((encodeFrame type payload ++ rest).drop 4).take 4) = payload.length ∧
      (encodeFrame type payload ++ rest).drop frameHeaderSize = payload ++ rest := by
  have h2 : (toBe 2 type).length = 2 := toBe_length _ _
  have h4 : (toBe 4 payload.length).length = 4 := toBe_length _ _
  refine ⟨?_, ?_, ?_, ?_⟩
  · simp only [encodeFrame, List.append_assoc]
    rw [List.take_left' h2, ofBe_toBe ht]
  · simp only [encodeFrame, List.append_assoc]
    rw [List.drop_left' h2]
    rfl
  · have hd : (toBe 2 type ++ [0, 0]).length = 4 := by simp
    simp only [encodeFrame, List.append_assoc]
    rw [← List.append_assoc, List.drop_left' hd, List.take_left' h4, ofBe_toBe hl]
  · have hd : (toBe 2 type ++ [0, 0] ++ toBe 4 payload.length).length = frameHeaderSize := by
      simp [frameHeaderSize]
    rw [encodeFrame, List.append_assoc, List.drop_left' hd]

theorem parseFrame_encodeFrame {type : ℕ} {payload : Bytes} (rest : Bytes) (ht : type < 256 ^ 2)
    (hl : payload.length ≤ maxFramePayload) :
    parseFrame (encodeFrame type payload ++ rest) =
      .frame type payload (encodeFrame type payload).length := by
  have hm : maxFramePayload = 65536 := rfl
  obtain ⟨hty, hfl, hlen, hdrop⟩ := encodeFrame_fields rest ht (Nat.lt_of_le_of_lt hl (by decide))
  unfold parseFrame
  rw [if_neg (by simp only [List.length_append, encodeFrame_length]; omega), if_neg (by simp [hfl])]
  simp only [hlen, hty, hdrop]
  rw [if_neg (by omega), if_neg (by simp only [List.length_append, encodeFrame_length]; omega)]
  simp

theorem parseFrame_part {type : ℕ} {payload part : Bytes} (ht : type < 256 ^ 2)
    (hl : payload.length ≤ maxFramePayload) (hp : part <+: encodeFrame type payload)
    (hlt : part.length < (encodeFrame type payload).length) : parseFrame part = .incomplete := by
  unfold parseFrame
  by_cases h8 : part.length < frameHeaderSize
  · rw [if_pos h8]
  · have hhdr : frameHeaderSize = 8 := rfl
    have hm : maxFramePayload = 65536 := rfl
    obtain ⟨-, hfl, hlen, -⟩ := encodeFrame_fields [] ht (Nat.lt_of_le_of_lt hl (by decide))
    rw [List.append_nil] at hfl hlen
    obtain ⟨rest, hrest⟩ := hp
    have hcut : ∀ i j, i + j ≤ frameHeaderSize →
        (part.drop i).take j = ((encodeFrame type payload).drop i).take j := by
      intro i j hij
      rw [← hrest, List.drop_append_of_le_length (by omega),
        List.take_append_of_le_length (by rw [List.length_drop]; omega)]
    rw [if_neg h8, hcut 2 2 (by omega), hcut 4 4 (by omega), hfl, hlen, if_neg (by simp)]
    rw [encodeFrame_length] at hlt
    dsimp only
    rw [if_neg (by omega), if_pos hlt]

theorem idToMsgType_eq_some {id : ℕ} {t : MsgType} (h : idToMsgType id = some t) :
    msgTypeToId t = id := by
  unfold idToMsgType at h
  split_ifs at h with h0
  have hfound := List.find?_some h
  exact beq_iff_eq.mp hfound

theorem payloadToV1_known {id : ℕ} {t : MsgType} (h : idToMsgType id = some t) (json : Bytes) :
    payloadToV1 (toBe 2 id ++ json) = some (frameMsg t.code json) := by
  have h2 : (toBe 2 id).length = 2 := toBe_length _ _
  have hid : id < 256 ^ 2 := by
    rw [← idToMsgType_eq_some h]
    exact msgTypeToId_lt t
  unfold payloadToV1
  rw [if_neg (by rw [List.length_append, h2]; omega), List.take_left' h2, List.drop_left' h2,
    ofBe_toBe hid, h]
  rfl

def ascii (s : String) : Bytes := s.toList.map fun c ↦ UInt8.ofNat c.toNat

def transcriptPart (label : String) (payload : Bytes) : Bytes :=
  0 :: ascii label ++ [0] ++ toBe 8 payload.length ++ payload

/-- What `wire_v2_hash_transcript` gives to SHA-256. -/
def transcript (ch sh : Bytes) : Bytes :=
  ascii "frp wire v2 crypto transcript" ++ transcriptPart "client hello" ch ++
    transcriptPart "server hello" sh

end Xfrpc.Wire.V2
