import Obi.Ref.SkMsg
import Obi.Ref.TpInfo

/-!
# Capturing payloads for user space

`http_send_large_buffer` and the tail-called program behind it copy what an
HTTP request sends or receives to the ring buffer, up to the configured number
of bytes per direction. A send goes out in batches of at most 64K, one per
tail call, and a batch in records of at most 16K.

What the kernel answers is passed in: whether the per-CPU memory and the
request are there, what the scratch memory held before, which reads and which
ring buffer outputs work, and how many tail calls are left.
-/

namespace Obi.Ref
open Lib

/-- `connection_info_t`. -/
structure ConnectionInfo where
  (sAddr dAddr : ByteVec 16)
  (sPort dPort : Nat)
deriving DecidableEq

@[simp] def kPacketTypeRequest : UInt8 := 1
@[simp] def kPacketTypeResponse : UInt8 := 2

@[simp] def kLargeBufActionInit : UInt8 := 0
@[simp] def kLargeBufActionAppend : UInt8 := 1

@[simp] def kLargeBufLayerApp : UInt8 := 1
@[simp] def kLargeBufferSourceKprobes : UInt8 := 0
@[simp] def kEventTypeTcpLargeBuffer : UInt8 := 12

@[simp] def kLargeBufPayloadMaxSize : Nat := 16384
@[simp] def kLargeBufMaxSize : Nat := 32768
@[simp] def kLargeBufPerEmitMax : Nat := 65536
@[simp] def kLargeBufMaxHttpCapturedBytes : Nat := 262144
@[simp] def kLargeBufMaxBatches : Nat := 4

/-- `sizeof(tcp_large_buffer_t)`, the flexible array at its end not counted. -/
@[simp] def tcpLargeBufferSize : Nat := 96

@[simp] def sizeofPointer : Nat := 8

/-- The fields of `tcp_large_buffer_t` before its bytes. -/
structure TcpLargeBufferHeader where
  (type packetType action direction : UInt8)
  len : Nat
  connInfo : ConnectionInfo
  (kind source : UInt8)
  tp : TpInfo

/-- A `tcp_large_buffer_t` with the bytes behind it: the scratch memory, or a
record made of it. -/
structure TcpLargeBuffer where
  hdr : TcpLargeBufferHeader
  buf : List UInt8

/-- The part of `http_info_t` the capture reads and writes. -/
structure HttpInfo where
  connInfo : ConnectionInfo
  tp : TpInfo
  (lbReqBytes lbResBytes : Nat)
  hasLargeBuffers : Bool

/-- The counter of a direction. -/
def HttpInfo.lbBytes (info : HttpInfo) (packetType : UInt8) : Nat :=
  if packetType = kPacketTypeRequest then info.lbReqBytes else info.lbResBytes

/-- `n` bytes of memory from `addr` on. -/
def probeRead (mem : Nat → UInt8) (addr n : Nat) : List UInt8 :=
  (List.range n).map fun i => mem (addr + i)

/-! ## One batch -/

structure ChunkAnswer where
  (readOk outputOk : Bool)

structure Emitted where
  records : List TcpLargeBuffer
  consumed : Nat

/-- The record `events_ringbuf_output` copies out of the scratch memory. -/
def outputRecord (largeBuf : TcpLargeBuffer) (readSize : Nat) : TcpLargeBuffer :=
  let payloadSize := min (max readSize sizeofPointer) kLargeBufPayloadMaxSize
  let totalSize := min (tcpLargeBufferSize + payloadSize) kLargeBufMaxSize
  { largeBuf with buf := largeBuf.buf.take (totalSize - tcpLargeBufferSize) }

/-- The loop of `large_buf_emit_chunks`, with `n` passes to go and `b` done. -/
def largeBufEmitLoop (mem : Nat → UInt8) (p : Nat) (ans : Nat → ChunkAnswer) :
    Nat → Nat → TcpLargeBuffer → Nat → Emitted
  | 0, _, _, _ => ⟨[], 0⟩
  | n + 1, b, largeBuf, availableBytes =>
    let readSize := min availableBytes kLargeBufPayloadMaxSize
    if (ans b).readOk then
      let data := probeRead mem (p + b * kLargeBufPayloadMaxSize) readSize
      let filled : TcpLargeBuffer :=
        ⟨{ largeBuf.hdr with len := readSize }, overwriteAt largeBuf.buf 0 data⟩
      if (ans b).outputOk then
        let next : TcpLargeBuffer :=
          ⟨{ filled.hdr with action := kLargeBufActionAppend }, filled.buf⟩
        let rest := largeBufEmitLoop mem p ans n (b + 1) next
          (availableBytes - readSize)
        ⟨outputRecord filled readSize :: rest.records, readSize + rest.consumed⟩
      else ⟨[], 0⟩
    else ⟨[], 0⟩

/-- `niter`, the number of records it takes. -/
def largeBufIterations (availableBytes : Nat) : Nat :=
  availableBytes / kLargeBufPayloadMaxSize
    + (if availableBytes % kLargeBufPayloadMaxSize > 0 then 1 else 0)

def largeBufEmitChunks (mem : Nat → UInt8) (ans : Nat → ChunkAnswer)
    (largeBuf : TcpLargeBuffer) (uBuf availableBytes : Nat) : Emitted :=
  let available := min availableBytes kLargeBufPerEmitMax
  largeBufEmitLoop mem uBuf ans (largeBufIterations available) 0 largeBuf
    available

/-! ## The tail calls -/

/-- `large_buf_emit_state_t`, without the key of the request. -/
structure LargeBufEmitState where
  (uBuf remainingBytes batchIter : Nat)
  (packetType direction action : UInt8)

/-- What the kernel answers one run of the program. -/
structure BatchEnv where
  (state info : Bool)
  scratch : Option (ByteVec (kLargeBufMaxSize - tcpLargeBufferSize))
  chunk : Nat → ChunkAnswer

def HttpInfo.count (info : HttpInfo) (packetType : UInt8) (consumed : Nat) : HttpInfo :=
  if consumed > 0 then
    if packetType = kPacketTypeRequest then
      { info with hasLargeBuffers := true, lbReqBytes := u32 (info.lbReqBytes + consumed) }
    else
      { info with hasLargeBuffers := true, lbResBytes := u32 (info.lbResBytes + consumed) }
  else info

def emitHeader (state : LargeBufEmitState) (info : HttpInfo) : TcpLargeBufferHeader where
  type := kEventTypeTcpLargeBuffer
  packetType := state.packetType
  action := if state.batchIter = 0 then state.action else kLargeBufActionAppend
  direction := state.direction
  len := 0
  connInfo := info.connInfo
  kind := kLargeBufLayerApp
  source := kLargeBufferSourceKprobes
  tp := info.tp

/-- What a run of the program leaves behind, `next` being the state it tail
calls itself with. -/
structure BatchResult where
  records : List TcpLargeBuffer
  info : HttpInfo
  next : Option LargeBufEmitState

def obiLargeBufEmitContinue (env : BatchEnv) (mem : Nat → UInt8)
    (state : LargeBufEmitState) (info : HttpInfo) : BatchResult :=
  if env.state = false ∨ state.remainingBytes = 0 then ⟨[], info, none⟩
  else if env.info = false then ⟨[], info, none⟩
  else match env.scratch with
  | none => ⟨[], info, none⟩
  | some scratch =>
    let emitted := largeBufEmitChunks mem env.chunk
      ⟨emitHeader state info, scratch.val⟩ state.uBuf state.remainingBytes
    let state' : LargeBufEmitState :=
      { state with
        uBuf := state.uBuf + emitted.consumed
        remainingBytes := state.remainingBytes - emitted.consumed
        batchIter := (state.batchIter + 1) % 256 }
    ⟨emitted.records, info.count state.packetType emitted.consumed,
      if state'.remainingBytes > 0 ∧ emitted.consumed > 0
          ∧ state'.batchIter < kLargeBufMaxBatches then some state'
      else none⟩

/-- The program and its tail calls, `left` of which the kernel still allows.
A tail call that fails falls through, and the program returns. -/
def emitBatches (env : Nat → BatchEnv) (mem : Nat → UInt8) :
    Nat → Nat → LargeBufEmitState → HttpInfo → List TcpLargeBuffer × HttpInfo
  | 0, _, _, info => ([], info)
  | left + 1, j, state, info =>
    let r := obiLargeBufEmitContinue (env j) mem state info
    match r.next with
    | none => (r.records, r.info)
    | some state' =>
      let rest := emitBatches env mem left (j + 1) state' r.info
      (r.records ++ rest.1, rest.2)

structure SendEnv where
  state : Bool
  tailCalls : Nat
  batch : Nat → BatchEnv

/-- `http_send_large_buffer`: the records the send puts on the ring buffer, and
the request afterwards. `httpMaxCapturedBytes` is the configured cap. -/
def httpSendLargeBuffer (httpMaxCapturedBytes : Nat) (env : SendEnv)
    (mem : Nat → UInt8) (req : HttpInfo) (uBuf bytesLen : Nat)
    (packetType direction action : UInt8) : List TcpLargeBuffer × HttpInfo :=
  let bytesSent := req.lbBytes packetType
  if httpMaxCapturedBytes = 0 ∨ httpMaxCapturedBytes ≤ bytesSent ∨ bytesLen = 0 then ([], req)
  else
    let maxAvailableBytes := min (httpMaxCapturedBytes - bytesSent) kLargeBufMaxHttpCapturedBytes
    if env.state then
      emitBatches env.batch mem env.tailCalls 0
        { uBuf := uBuf
          remainingBytes := min bytesLen maxAvailableBytes
          batchIter := 0
          packetType := packetType
          direction := direction
          action := action } req
    else ([], req)

/-! ## The sends of one direction -/

/-- A buffer handed to the kernel, with what the kernel answers on the way. -/
structure HttpSend where
  mem : Nat → UInt8
  (uBuf bytesLen : Nat)
  env : SendEnv

def HttpSend.bytes (s : HttpSend) : List UInt8 := probeRead s.mem s.uBuf s.bytesLen

/-- The records of a direction's sends, the first of which is captured with
`action` and the others as appends. -/
def captureSends (httpMaxCapturedBytes : Nat) (packetType direction : UInt8) :
    UInt8 → HttpInfo → List HttpSend → List TcpLargeBuffer × HttpInfo
  | _, info, [] => ([], info)
  | action, info, s :: rest =>
    let first := httpSendLargeBuffer httpMaxCapturedBytes s.env s.mem info
      s.uBuf s.bytesLen packetType direction action
    let others := captureSends httpMaxCapturedBytes packetType direction
      kLargeBufActionAppend first.2 rest
    (first.1 ++ others.1, others.2)

end Obi.Ref
