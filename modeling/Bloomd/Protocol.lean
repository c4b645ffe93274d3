import Bloomd.Basic
import Bloomd.Framing.LittleEndian

/-! `protocol.c`: fields and frames on the wire, the response under construction,
and the length-prefixed items of a batch. The host is little-endian, and the
request structures have no padding. -/

namespace Bloomd

open Framing

def protocolMagic : Bytes := bytes "BLM1"
def protocolVersion : UInt8 := 1
def frameHeaderSize : Nat := 16

/-- `bloomd_store_u16` -/
def storeU16 (value : Nat) : Bytes := storeLe 2 value

/-- `bloomd_store_u32` -/
def storeU32 (value : Nat) : Bytes := storeLe 4 value

/-- `bloomd_store_u64` -/
def storeU64 (value : Nat) : Bytes := storeLe 8 value

/-- `bloomd_load_u16` -/
def loadU16 (src : Bytes) : Nat := loadLe (src.take 2)

/-- `bloomd_load_u32` -/
def loadU32 (src : Bytes) : Nat := loadLe (src.take 4)

/-- `bloomd_load_u64` -/
def loadU64 (src : Bytes) : Nat := loadLe (src.take 8)

/-- `bloomd_load_double`, the bits of the double -/
def loadDouble (src : Bytes) : UInt64 := (loadLe (src.take 8)).toUInt64

/-- The bytes of a double in memory -/
def storeDouble (value : UInt64) : Bytes := storeLe 8 value.toNat

/-- `struct bloomd_frame_header` -/
structure FrameHeader where
  magic : Bytes
  version : UInt8
  opcode : UInt8
  flags : UInt8
  status : UInt8
  requestId : UInt32
  bodyLen : UInt32
  deriving DecidableEq, Repr

/-- The packed structure in memory -/
def FrameHeader.toBytes (header : FrameHeader) : Bytes :=
  header.magic ++ [header.version, header.opcode, header.flags, header.status] ++
    storeU32 header.requestId.toNat ++ storeU32 header.bodyLen.toNat

/-- The structure over 16 bytes that were read into it -/
def FrameHeader.ofBytes (raw : Bytes) : FrameHeader where
  magic := raw.take 4
  version := raw.getD 4 0
  opcode := raw.getD 5 0
  flags := raw.getD 6 0
  status := raw.getD 7 0
  requestId := (loadU32 (raw.drop 8)).toUInt32
  bodyLen := (loadU32 (raw.drop 12)).toUInt32

/-- `bloomd_header_is_valid` -/
def headerIsValid (header : FrameHeader) : Except Errno Unit :=
  if header.magic ≠ protocolMagic then .error .eproto
  else if header.version ≠ protocolVersion then .error .eproto
  else if maxFrameBody < header.bodyLen.toNat then .error .e2big
  else .ok ()

/-- `struct bloomd_request_view`: the body has the length that the header says. -/
structure RequestView where
  header : FrameHeader
  body : Bytes
  sized : body.length = header.bodyLen.toNat
  deriving DecidableEq, Repr

/-- The numbers of `enum bloomd_status` -/
def Status.code : Status → UInt8
  | .ok => 0
  | .badRequest => 1
  | .tooLarge => 2
  | .notFound => 3
  | .exists => 4
  | .unsupported => 5
  | .io => 6
  | .bpf => 7
  | .name => 8
  | .state => 9
  | .perm => 10
  | .internal => 11

/-- The numbers of `enum bloomd_error_code` -/
def ErrorCode.code : ErrorCode → Nat
  | .none => 0
  | .parse => 1
  | .range => 2
  | .timeout => 3
  | .shortIo => 4
  | .unsupportedKernel => 5
  | .bpfPrivs => 6
  | .bpffs => 7
  | .metadata => 8

/-- `bloomd_buffer_append`, with memory for the buffer always found. The second
result is the buffer afterwards. -/
def bufferAppend (buf data : Bytes) : Except Errno Unit × Bytes :=
  if data.length = 0 then (.ok (), buf)
  else if maxFrameBody < buf.length + data.length then (.error .e2big, buf)
  else (.ok (), buf ++ data)

/-- `bloomd_buffer_append_u16` -/
def bufferAppendU16 (buf : Bytes) (value : Nat) : Except Errno Unit × Bytes :=
  bufferAppend buf (storeU16 value)

/-- `bloomd_buffer_append_u32` -/
def bufferAppendU32 (buf : Bytes) (value : Nat) : Except Errno Unit × Bytes :=
  bufferAppend buf (storeU32 value)

/-- Appends whose codes are joined with `rc |=`: each one is tried, and the
result is an error when any of them failed. -/
def bufferAppendEach : List Bytes → Bytes → Except Errno Unit × Bytes
  | [], buf => (.ok (), buf)
  | piece :: pieces, buf =>
    let (first, buf) := bufferAppend buf piece
    let (later, buf) := bufferAppendEach pieces buf
    match first with
    | .ok () => (later, buf)
    | .error errno => (.error errno, buf)

/-- `struct bloomd_response` -/
structure Response where
  header : FrameHeader
  body : Bytes
  deriving DecidableEq, Repr

/-- `bloomd_response_init` -/
def Response.init (opcode : UInt8) (requestId : UInt32) : Response :=
  ⟨⟨protocolMagic, protocolVersion, opcode, 0x01, Status.ok.code, requestId, 0⟩, []⟩

/-- `bloomd_response_reset`: the memory of the body is kept, its length is not. -/
def Response.reset (response : Response) (opcode : UInt8) (requestId : UInt32) : Response :=
  { response with
    body := []
    header := { response.header with
      magic := protocolMagic
      version := protocolVersion
      opcode
      flags := 0x01
      status := Status.ok.code
      requestId
      bodyLen := 0 } }

/-- `bloomd_response_error` -/
def Response.error (response : Response) (status : Status) (code : ErrorCode) (message : Bytes) :
    Except Errno Unit × Response :=
  let response := { response with
    body := []
    header := { response.header with flags := 0x03, status := status.code } }
  match bufferAppendU32 response.body code.code with
  | (.error errno, body) => (.error errno, { response with body })
  | (.ok (), body) =>
    match bufferAppendU32 body message.length with
    | (.error errno, body) => (.error errno, { response with body })
    | (.ok (), body) =>
      let (result, body) := bufferAppend body message
      (result, { response with body })

/-- `bloomd_protocol_read_payload`: the payload and the bytes it used up -/
def readPayload (buf : Bytes) : Except Errno (Bytes × Nat) :=
  if buf.length < 4 then .error .einval
  else if maxFrameBody < loadU32 buf then .error .e2big
  else if buf.length < 4 + loadU32 buf then .error .einval
  else .ok ((buf.drop 4).take (loadU32 buf), 4 + loadU32 buf)

end Bloomd
