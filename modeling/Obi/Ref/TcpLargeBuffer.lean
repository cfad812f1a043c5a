import Obi.Ref.LargeBuffer
import Obi.Ref.LargeBufEmit

/-!
# Putting captured payloads together again

`appendTCPLargeBuffer` files the records of the ring buffer under the request
and direction they belong to, and `extractLargeBuffer` takes the buffer of one
direction out when its span is built.

The buffers live in an LRU cache with an expiry time, which is a library's.
Here it is a map, and each call on it is told which keys the cache dropped
since the last one. A stored buffer is reached through its key only, so the
append to it is an update of the map.
-/

namespace Obi.Ref

structure LargeBufferKey where
  traceId : ByteVec 16
  spanId : ByteVec 8
  (packetType direction : UInt8)
  connInfo : ConnectionInfo
  kind : UInt8
deriving DecidableEq

def TcpLargeBufferHeader.key (event : TcpLargeBufferHeader) : LargeBufferKey where
  traceId := event.tp.traceId
  spanId := event.tp.spanId
  packetType := event.packetType
  direction := event.direction
  connInfo := event.connInfo
  kind := event.kind

abbrev LargeBuffers := LargeBufferKey → Option LargeBuffer

/-- The cache without the keys it dropped. -/
def LargeBuffers.dropped (s : LargeBuffers) (lost : LargeBufferKey → Bool) : LargeBuffers :=
  fun k => if lost k then none else s k

def LargeBuffers.add (s : LargeBuffers) (key : LargeBufferKey) (lb : LargeBuffer) : LargeBuffers :=
  fun k => if k = key then some lb else s k

def LargeBuffers.remove (s : LargeBuffers) (key : LargeBufferKey) : LargeBuffers :=
  fun k => if k = key then none else s k

inductive AppendError
  | tooShort
  | recordSize (len rawLen : Nat)
  | action (a : UInt8)

def AppendError.text : AppendError → String
  | .tooShort => "byte slice too short"
  | .recordSize len rawLen =>
    "invalid large buffer record size: " ++ toString len
      ++ "-byte payload exceeds " ++ toString rawLen ++ "-byte record"
  | .action a => "invalid large buffer action: " ++ toString a.toNat

/-- The length of the raw sample a record is. -/
def TcpLargeBuffer.rawLen (record : TcpLargeBuffer) : Nat := tcpLargeBufferSize + record.buf.length

/-- The payload, `RawSample[hdrSize : hdrSize+event.Len]`. -/
def TcpLargeBuffer.chunk (record : TcpLargeBuffer) : List UInt8 := record.buf.take record.hdr.len

/-- The Go type of the header ends in a placeholder of a pointer's size for
its bytes, so a sample has to be that much longer than its header. -/
def appendTCPLargeBuffer (lost : LargeBufferKey → Bool) (s : LargeBuffers)
    (record : TcpLargeBuffer) : Except AppendError Unit × LargeBuffers :=
  let event := record.hdr
  if record.rawLen < tcpLargeBufferSize + sizeofPointer then
    (.error .tooShort, s)
  else if record.rawLen < tcpLargeBufferSize + event.len then
    (.error (.recordSize event.len record.rawLen), s)
  else
    let s := s.dropped lost
    let initFunc := s.add event.key (newLargeBuffer.appendChunk record.chunk)
    if event.action = kLargeBufActionInit then (.ok (), initFunc)
    else if event.action = kLargeBufActionAppend then
      match s event.key with
      | none => (.ok (), initFunc)
      | some lb => (.ok (), s.add event.key (lb.appendChunk record.chunk))
    else (.error (.action event.action), s)

def extractLargeBuffer (lost : LargeBufferKey → Bool) (s : LargeBuffers)
    (key : LargeBufferKey) : Option LargeBuffer × LargeBuffers :=
  let s := s.dropped lost
  match s key with
  | none => (none, s)
  | some lb => (some lb, s.remove key)

/-- The records fed one by one, the `i`-th call losing the keys of
`lost i`. -/
def appendAll (lost : Nat → LargeBufferKey → Bool) :
    Nat → LargeBuffers → List TcpLargeBuffer → LargeBuffers
  | _, s, [] => s
  | i, s, record :: rest => appendAll lost (i + 1) (appendTCPLargeBuffer (lost i) s record).2 rest

end Obi.Ref
