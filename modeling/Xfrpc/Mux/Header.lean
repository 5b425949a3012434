import Xfrpc.Foundations.BigEndian

namespace Xfrpc.Mux.Header

open Foundations.BigEndian

def maxStreamWindowSize : ℕ := 8 * 1024 * 1024
def defaultMaxFrameSize : ℕ := 256 * 1024
def headerSize : ℕ := 12

inductive TcpMuxType
  | tmuxData | windowUpdate | ping | goAway
  deriving DecidableEq, Repr

def TcpMuxType.code : TcpMuxType → ℕ
  | .tmuxData => 0
  | .windowUpdate => 1
  | .ping => 2
  | .goAway => 3

def TcpMuxType.ofCode : ℕ → Option TcpMuxType
  | 0 => some .tmuxData
  | 1 => some .windowUpdate
  | 2 => some .ping
  | 3 => some .goAway
  | _ => none

theorem TcpMuxType.ofCode_code (t : TcpMuxType) : ofCode t.code = some t := by cases t <;> rfl

inductive TcpMuxFlag
  | syn | ack | fin | rst
  deriving DecidableEq, Repr

def TcpMuxFlag.bit : TcpMuxFlag → ℕ
  | .syn => 0
  | .ack => 1
  | .fin => 2
  | .rst => 3

def TcpMuxFlag.mask (f : TcpMuxFlag) : ℕ := 2 ^ f.bit

def hasFlag (flags : ℕ) (f : TcpMuxFlag) : Bool := flags.testBit f.bit

/-- The fields of `struct tcp_mux_header` in host order. The type stays a
number, since the wire can carry one that is not a `TcpMuxType`. -/
structure TcpMuxHeader where
  version : ℕ
  type : ℕ
  flags : ℕ
  streamId : ℕ
  length : ℕ
  deriving DecidableEq, Repr

def protoVersion : ℕ := 0

def validateTcpMuxProtocol (h : TcpMuxHeader) : Bool :=
  h.version == protoVersion && decide (h.type ≤ TcpMuxType.goAway.code)

def tcpMuxEncode (type : TcpMuxType) (flags streamId length : ℕ) : TcpMuxHeader :=
  { version := protoVersion, type := type.code, flags, streamId, length }

def TcpMuxHeader.encode (h : TcpMuxHeader) : Bytes :=
  toBe 1 h.version ++ toBe 1 h.type ++ toBe 2 h.flags ++ toBe 4 h.streamId ++ toBe 4 h.length

def TcpMuxHeader.decode (b : Bytes) : TcpMuxHeader :=
  { version := ofBe (b.take 1)
    type := ofBe ((b.drop 1).take 1)
    flags := ofBe ((b.drop 2).take 2)
    streamId := ofBe ((b.drop 4).take 4)
    length := ofBe ((b.drop 8).take 4) }

@[simp] theorem encode_length (h : TcpMuxHeader) : h.encode.length = headerSize := by
  simp [TcpMuxHeader.encode, headerSize]

/-- The fields fit the widths they have on the wire. -/
structure TcpMuxHeader.Fits (h : TcpMuxHeader) : Prop where
  version : h.version < 256
  type : h.type < 256
  flags : h.flags < 256 ^ 2
  streamId : h.streamId < 256 ^ 4
  length : h.length < 256 ^ 4

theorem field_eq {k m n : ℕ} (pre post : Bytes) (hm : pre.length = m) (hn : n < 256 ^ k) :
    ofBe (((pre ++ (toBe k n ++ post)).drop m).take k) = n := by
  rw [List.drop_left' hm, List.take_left' (toBe_length k n), ofBe_toBe hn]

theorem decode_encode {h : TcpMuxHeader} (hf : h.Fits) : .decode h.encode = h := by
  have hv := field_eq (k := 1) [] (toBe 1 h.type ++ toBe 2 h.flags ++ toBe 4 h.streamId ++
    toBe 4 h.length) (m := 0) rfl (by simpa using hf.version)
  have ht := field_eq (k := 1) (toBe 1 h.version) (toBe 2 h.flags ++ toBe 4 h.streamId ++
    toBe 4 h.length) (toBe_length _ _) (by simpa using hf.type)
  have hg := field_eq (toBe 1 h.version ++ toBe 1 h.type) (toBe 4 h.streamId ++
    toBe 4 h.length) (m := 2) (by simp) hf.flags
  have hi := field_eq (toBe 1 h.version ++ toBe 1 h.type ++ toBe 2 h.flags)
    (toBe 4 h.length) (m := 4) (by simp) hf.streamId
  have hl := field_eq (toBe 1 h.version ++ toBe 1 h.type ++ toBe 2 h.flags ++
    toBe 4 h.streamId) [] (m := 8) (by simp) hf.length
  simp only [List.append_nil, List.append_assoc, List.nil_append, List.drop_zero] at hv ht hg hi hl
  simp only [TcpMuxHeader.decode, TcpMuxHeader.encode, List.append_assoc, hv, ht, hg, hi, hl]

/-- One frame as it is written to the control connection. -/
structure Frame where
  header : TcpMuxHeader
  payload : Bytes
  deriving DecidableEq, Repr

def Frame.bytes (f : Frame) : Bytes := f.header.encode ++ f.payload

def Frame.isData (f : Frame) : Bool := f.header.type == TcpMuxType.tmuxData.code

def Frame.isWindowUpdate (f : Frame) : Bool := f.header.type == TcpMuxType.windowUpdate.code

/-- The payload bytes of the data frames among those written. -/
def dataBytes (out : List Frame) : Bytes := ((out.filter Frame.isData).map Frame.payload).flatten

@[simp] theorem dataBytes_nil : dataBytes [] = [] := rfl

@[simp] theorem dataBytes_append (u v : List Frame) :
    dataBytes (u ++ v) = dataBytes u ++ dataBytes v := by
  simp [dataBytes]

@[simp] theorem dataBytes_data (flags id n : ℕ) (b : Bytes) :
    dataBytes [⟨tcpMuxEncode .tmuxData flags id n, b⟩] = b := by
  simp [dataBytes, Frame.isData, tcpMuxEncode]

end Xfrpc.Mux.Header
