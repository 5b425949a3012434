import Xfrpc.Foundations.BigEndian

namespace Xfrpc.Control.Message

open Foundations.BigEndian

inductive MsgType
  | login | loginResp | newProxy | newProxyResp | closeProxy | newWorkConn | reqWorkConn
  | startWorkConn | newVisitorConn | newVisitorConnResp | ping | pong | udpPacket
  | natHoleVisitor | natHoleClient | natHoleResp | natHoleClientDetectOK | natHoleSid
  | natHoleReport
  deriving DecidableEq, Repr

def MsgType.code : MsgType → UInt8
  | .login => 0x6f
  | .loginResp => 0x31
  | .newProxy => 0x70
  | .newProxyResp => 0x32
  | .closeProxy => 0x63
  | .newWorkConn => 0x77
  | .reqWorkConn => 0x72
  | .startWorkConn => 0x73
  | .newVisitorConn => 0x76
  | .newVisitorConnResp => 0x33
  | .ping => 0x68
  | .pong => 0x34
  | .udpPacket => 0x75
  | .natHoleVisitor => 0x69
  | .natHoleClient => 0x6e
  | .natHoleResp => 0x6d
  | .natHoleClientDetectOK => 0x64
  | .natHoleSid => 0x35
  | .natHoleReport => 0x36

def MsgType.all : List MsgType :=
  [.login, .loginResp, .newProxy, .newProxyResp, .closeProxy, .newWorkConn, .reqWorkConn,
   .startWorkConn, .newVisitorConn, .newVisitorConnResp, .ping, .pong, .udpPacket,
   .natHoleVisitor, .natHoleClient, .natHoleResp, .natHoleClientDetectOK, .natHoleSid,
   .natHoleReport]

def MsgType.ofCode (c : UInt8) : Option MsgType := MsgType.all.find? (·.code == c)

theorem MsgType.ofCode_code (t : MsgType) : ofCode t.code = some t := by cases t <;> rfl

/-- `sizeof(struct msg_hdr)`: the type and the length on eight bytes. -/
def msgHdrSize : ℕ := 9

/-- A type byte, the length of the data and the data, as `prepare_message` lays
them out. -/
def frameMsg (type : UInt8) (data : Bytes) : Bytes := type :: (toBe 8 data.length ++ data)

@[simp] theorem frameMsg_length (type : UInt8) (data : Bytes) :
    (frameMsg type data).length = msgHdrSize + data.length := by
  simp only [frameMsg, List.length_cons, List.length_append, toBe_length, msgHdrSize]
  omega

def splitMsg : Bytes → Option (UInt8 × Bytes × Bytes)
  | [] => none
  | type :: b =>
    if b.length < 8 then none
    else
      let len := ofBe (b.take 8)
      let rest := b.drop 8
      if rest.length < len then none else some (type, rest.take len, rest.drop len)

theorem splitMsg_frameMsg {type : UInt8} {data : Bytes} (h : data.length < 256 ^ 8)
    (rest : Bytes) : splitMsg (frameMsg type data ++ rest) = some (type, data, rest) := by
  have htake : (toBe 8 data.length ++ (data ++ rest)).take 8 = toBe 8 data.length :=
    List.take_left' (toBe_length _ _)
  have hdrop : (toBe 8 data.length ++ (data ++ rest)).drop 8 = data ++ rest :=
    List.drop_left' (toBe_length _ _)
  simp only [frameMsg, List.cons_append, List.append_assoc, splitMsg, htake, hdrop, ofBe_toBe h]
  rw [if_neg (by simp), if_neg (by simp)]
  simp

end Xfrpc.Control.Message
