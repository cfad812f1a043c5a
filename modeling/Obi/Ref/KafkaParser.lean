import Obi.Ref.Common
import Obi.Ref.LargeBuffer
import Obi.Lib.Script

/-!
# The Kafka parsers

The parsers of Fetch and Produce requests and of Metadata responses. The kernel
forwards a bounded part of a message, so that a body that breaks off is the
normal case: a parser keeps what it has read of the topics and goes on.

A parser is a program over the calls it makes on its `LargeBufferReader`. Where
the source looks at an error and does not pass it on, the program attempts the
call. Of the header only the key and the version are used.
-/

namespace Obi.Ref
open Lib

/-! ## Headers and errors -/

inductive KafkaAPIKey
  | produce | fetch | metadata | offsetCommit | offsetFetch | joinGroup | heartbeat | leaveGroup
  | syncGroup | consumerGroupHeartbeat
deriving DecidableEq, Repr

structure KafkaRequestHeader where
  apiKey : KafkaAPIKey
  apiVersion : Int

variable (header : KafkaRequestHeader)

def isFlexible : Bool := match header.apiKey with
  | .produce => decide (header.apiVersion ≥ 9)
  | .fetch => decide (header.apiVersion ≥ 12)
  | .metadata => decide (header.apiVersion ≥ 9)
  | .offsetCommit => decide (header.apiVersion ≥ 8)
  | .offsetFetch | .joinGroup => decide (header.apiVersion ≥ 6)
  | .heartbeat | .leaveGroup | .syncGroup => decide (header.apiVersion ≥ 4)
  | .consumerGroupHeartbeat => true

inductive KafkaError
  | reader (e : ReaderError)
  | offsetExceedsPacketSize | noTopics | noTopicsInProduce | noTopicsInMetadata
  | invalidProduceRecordsLength | varintIncomplete | illegalVarint | packetTooShortForTopicUUID
  | stringSizeExceedsPacket | invalidCharactersInString | packetTooShortForStringLength
  | invalidStringSize | dataTooShortForInt16 | dataTooShortForInt32 | dataTooShortForInt64
  | invalidGroupID | invalidPrintableString
deriving DecidableEq, Repr

def KafkaError.text : KafkaError → String
  | .reader e => e.text
  | .offsetExceedsPacketSize => "offset exceeds packet size"
  | .noTopics => "no Topics found in fetch request"
  | .noTopicsInProduce => "no Topics found in produce request"
  | .noTopicsInMetadata => "no Topics found in metadata response"
  | .invalidProduceRecordsLength => "invalid produce records length"
  | .varintIncomplete => "data ended before varint was complete"
  | .illegalVarint => "illegal varint"
  | .packetTooShortForTopicUUID => "packet too short for topic UUID"
  | .stringSizeExceedsPacket => "string size exceeds packet size"
  | .invalidCharactersInString => "invalid characters in string"
  | .packetTooShortForStringLength => "packet too short for string length"
  | .invalidStringSize => "invalid string size"
  | .dataTooShortForInt16 => "data too short for int16"
  | .dataTooShortForInt32 => "data too short for int32"
  | .dataTooShortForInt64 => "data too short for int64"
  | .invalidGroupID => "invalid group id"
  | .invalidPrintableString => "string is not printable UTF-8"

/-! ## Programs over a reader -/

inductive ReadCall
  | remaining
  | readN (n : Int)
  | skip (n : Int)

abbrev ReadCall.Answer : ReadCall → Type
  | .remaining => Int
  | .readN _ => Except ReaderError (List UInt8)
  | .skip _ => Except ReaderError Unit

/-- The calls on a `LargeBufferReader`. -/
def LargeBufferReader.answer :
    (call : ReadCall) → LargeBufferReader → Option (call.Answer × LargeBufferReader)
  | .remaining, r => r.remaining.map fun n => (n, r)
  | .readN n, r => r.readN n
  | .skip n, r => r.skip n

abbrev KafkaParser := ExceptT KafkaError (Script ReadCall.Answer)

namespace KafkaParser

/-- The parser on a reader. -/
def on {α : Type} (p : KafkaParser α) (r : LargeBufferReader) :
    Option (Except KafkaError α × LargeBufferReader) :=
  Script.run LargeBufferReader.answer (ExceptT.run p) r

/-- A call whose error is looked at. -/
def attempt {α : Type} (p : KafkaParser α) : KafkaParser (Except KafkaError α) :=
  ExceptT.mk (do return .ok (← ExceptT.run p))

/-- A call whose error is passed on. -/
def readCall {α : Type} (call : ReadCall) (answer : call.Answer → Except KafkaError α) :
    KafkaParser α :=
  ExceptT.mk (do return answer (← Script.query call))

def remaining : KafkaParser Int := readCall .remaining .ok

def skip (n : Int) : KafkaParser Unit := readCall (.skip n) fun res => res.mapError .reader

def readN (n : Int) : KafkaParser (List UInt8) :=
  readCall (.readN n) fun res => res.mapError .reader

/-- `ReadN`, whose error gets another name. -/
def readNOr (n : Int) (e : KafkaError) : KafkaParser (List UInt8) :=
  readCall (.readN n) fun res => res.mapError fun _ => e

end KafkaParser

open KafkaParser

/-! ## Fields -/

def int8Len : Int := 1
def int16Len : Int := 2
def int32Len : Int := 4
def int64Len : Int := 8
def uuidLen : Int := 16

/-- The loop of `readUnsignedVarint`, with the shifts that are allowed. -/
def readUnsignedVarintLoop (value : Nat) : List Nat → KafkaParser Nat
  | [] => throw .illegalVarint
  | i :: shifts => do
      if (← remaining) = 0 then throw .varintIncomplete
      else
        let b := (← readN 1).headD 0
        if b &&& 0x80 = 0 then return value ||| (b.toNat <<< i)
        else readUnsignedVarintLoop (value ||| ((b &&& 0x7F).toNat <<< i)) shifts

def readUnsignedVarint : KafkaParser Nat := readUnsignedVarintLoop 0 [0, 7, 14, 21, 28]

def readInt32 : KafkaParser Int := do
  return Scalar.i32be.decode (← readNOr int32Len .dataTooShortForInt32)

def readInt64 : KafkaParser Int := do
  return Scalar.i64be.decode (← readNOr int64Len .dataTooShortForInt64)

def readArrayLength : KafkaParser Int :=
  if isFlexible header then do
    let size ← readUnsignedVarint
    if size = 0 then return 0 else return size - 1
  else readInt32

def readUUID : KafkaParser UUID := do
  let b ← readNOr uuidLen .packetTooShortForTopicUUID
  return Vector.ofFn fun i => b.getD i 0

def readStringLength (nullable : Bool) : KafkaParser Int :=
  if !isFlexible header then do
    if (← remaining) < int16Len then throw .packetTooShortForStringLength
    else
      let size := Scalar.i16be.decode (← readNOr int16Len .packetTooShortForStringLength)
      if nullable && size = -1 then return 0
      else if size < 1 then throw .invalidStringSize
      else return size
  else do
    let size ← readUnsignedVarint
    if nullable && size = 0 then return 0
    else if size = 0 then throw .invalidStringSize
    else return size - 1

def kafkaStringByte (ch : UInt8) : Bool :=
  (97 ≤ ch && ch ≤ 122) || (65 ≤ ch && ch ≤ 90) || (48 ≤ ch && ch ≤ 57) ||
    ch == 46 || ch == 95 || ch == 45

def validateKafkaString (pkt : List UInt8) : Bool := pkt.all kafkaStringByte

def readString (nullable : Bool) : KafkaParser (List UInt8) := do
  let size ← readStringLength header nullable
  if nullable && size = 0 then return []
  else if (← remaining) < size then throw .stringSizeExceedsPacket
  else
    let b ← readNOr size .stringSizeExceedsPacket
    if !validateKafkaString b then throw .invalidCharactersInString else return b

/-- `for range n`, for a body that only moves the reader. -/
def forRange (body : KafkaParser Unit) : Nat → KafkaParser Unit
  | 0 => return ()
  | n + 1 => do
      body
      forRange body n

def skipTaggedField : KafkaParser Unit := do
  let _ ← readUnsignedVarint
  let tagLen ← readUnsignedVarint
  skip tagLen

def skipTaggedFields : KafkaParser Unit :=
  if !isFlexible header then return ()
  else do forRange skipTaggedField (← readUnsignedVarint)

/-! ## Topics -/

/-- The topic of a request, by its name or by its UUID. -/
def parseRequestTopicName {α : Type} (header : KafkaRequestHeader)
    (topic : List UInt8 → Option UUID → α) : KafkaParser α :=
  if header.apiVersion ≥ 13 then do return topic [] (some (← readUUID))
  else do return topic (← readString header false) none

/-- A topic of a request. Once its name is read it is returned, with what was
kept of its partitions. -/
def parseRequestTopic {α κ : Type} (header : KafkaRequestHeader) (name : KafkaParser α)
    (partitions : Nat → KafkaParser (κ × Bool)) (keep : α → κ → α) : KafkaParser α := do
  let topic ← name
  match ← attempt (readArrayLength header) with
  | .error _ => return topic
  | .ok partitionCount =>
    let res ← partitions partitionCount.toNat
    if !res.2 then return keep topic res.1
    else
      let _ ← attempt (skipTaggedFields header)
      return keep topic res.1

/-- Topics are parsed until one fails, which ends the list. The parser is told
how many are still to come. -/
def parseTopicsLoop {α : Type} (topic : Nat → KafkaParser α) : Nat → KafkaParser (List α)
  | 0 => return []
  | n + 1 => do
      match ← attempt (topic n) with
      | .error _ => return []
      | .ok t => return t :: (← parseTopicsLoop topic n)

/-! ## Fetch -/

structure FetchPartition where
  (partition fetchOffset : Int)

structure FetchTopic where
  name : List UInt8
  uuid : Option UUID
  partition : Option FetchPartition

structure FetchRequest where
  topics : List FetchTopic

def fetchRequestSkipLen : Int :=
  if header.apiVersion ≥ 15 then
    int32Len + int32Len + int32Len + int8Len + int32Len + int32Len
  else if header.apiVersion ≥ 7 then
    int32Len + int32Len + int32Len + int32Len + int8Len + int32Len + int32Len
  else if header.apiVersion ≥ 4 then
    int32Len + int32Len + int32Len + int32Len + int8Len
  else 0

def fetchRequestSkipUntilTopics : KafkaParser Unit :=
  if fetchRequestSkipLen header > 0 then skip (fetchRequestSkipLen header) else return ()

def skipLeaderEpoch : KafkaParser Unit :=
  if header.apiVersion ≥ 9 then skip int32Len else return ()

/-- The fixed fields behind the offset. -/
def fetchPartitionSkipLen : Int :=
  if header.apiVersion ≥ 12 then int32Len + int64Len + int32Len
  else if header.apiVersion ≥ 5 then int64Len + int32Len
  else int32Len

def parseFetchPartition : KafkaParser FetchPartition := do
  let partition ← readInt32
  skipLeaderEpoch header
  let fetchOffset ← readInt64
  skip (fetchPartitionSkipLen header)
  skipTaggedFields header
  return ⟨partition, fetchOffset⟩

/-- The loop over the partitions of a topic: the first one is kept, and whether
all were read. -/
def parseFetchPartitions (header : KafkaRequestHeader) (kept : Option FetchPartition) :
    Nat → KafkaParser (Option FetchPartition × Bool)
  | 0 => return (kept, true)
  | n + 1 => do
      match ← attempt (parseFetchPartition header) with
      | .error _ => return (kept, false)
      | .ok p => parseFetchPartitions header (some (kept.getD p)) n

def parseFetchTopic : KafkaParser FetchTopic :=
  parseRequestTopic header (parseRequestTopicName header fun name uuid => ⟨name, uuid, none⟩)
    (parseFetchPartitions header none) fun topic kept => { topic with partition := kept }

def parseFetchTopics : KafkaParser (List FetchTopic) := do
  let topicsLen ← readArrayLength header
  parseTopicsLoop (fun _ => parseFetchTopic header) topicsLen.toNat

def parseFetchRequest : KafkaParser FetchRequest := do
  fetchRequestSkipUntilTopics header
  if (← remaining) = 0 then throw .offsetExceedsPacketSize
  else
    let topics ← parseFetchTopics header
    if topics.isEmpty then throw .noTopics else return ⟨topics⟩

/-! ## Produce -/

structure ProduceTopic where
  name : List UInt8
  uuid : Option UUID
  partition : Option Int

structure ProduceRequest where
  topics : List ProduceTopic

def maxProduceTopics : Int := 100

def produceRequestSkipUntilTopics : KafkaParser Unit := do
  let transactionIDSize ← readStringLength header true
  skip (transactionIDSize + int16Len + int32Len)

def skipProduceRecords : KafkaParser Unit :=
  if isFlexible header then do
    let recordsLen ← readUnsignedVarint
    if recordsLen = 0 then return () else skip (recordsLen - 1)
  else do
    let recordsLen ← readInt32
    if recordsLen = -1 then return ()
    else if recordsLen < 0 then throw .invalidProduceRecordsLength
    else skip recordsLen

/-- The partition, also when what follows it cannot be read. -/
def parseProducePartition : KafkaParser (Int × Option KafkaError) := do
  match ← attempt readInt32 with
  | .error e => return (0, some e)
  | .ok partition => match ← attempt (skipProduceRecords header) with
    | .error e => return (partition, some e)
    | .ok _ => match ← attempt (skipTaggedFields header) with
      | .error e => return (partition, some e)
      | .ok _ => return (partition, none)

/-- The loop over the partitions of a topic: the first one is kept, and whether
all were read. -/
def parseProducePartitions (header : KafkaRequestHeader) (kept : Option Int) :
    Nat → KafkaParser (Option Int × Bool)
  | 0 => return (kept, true)
  | n + 1 => do
      let res ← parseProducePartition header
      match res.2 with
      | some _ => return (some (kept.getD res.1), false)
      | none => parseProducePartitions header (some (kept.getD res.1)) n

def parseProduceTopic : KafkaParser ProduceTopic :=
  parseRequestTopic header (parseRequestTopicName header fun name uuid => ⟨name, uuid, none⟩)
    (parseProducePartitions header none) fun topic kept => { topic with partition := kept }

def parseProduceTopics : KafkaParser (List ProduceTopic) := do
  let topicsLen ← readArrayLength header
  if topicsLen ≤ 0 then return []
  else
    let topicsLen := if topicsLen > maxProduceTopics then maxProduceTopics else topicsLen
    parseTopicsLoop (fun _ => parseProduceTopic header) topicsLen.toNat

def parseProduceRequest : KafkaParser ProduceRequest := do
  produceRequestSkipUntilTopics header
  let topics ← parseProduceTopics header
  if topics.isEmpty then throw .noTopicsInProduce else return ⟨topics⟩

/-! ## Metadata -/

structure MetadataTopic where
  name : List UInt8
  uuid : UUID

structure MetadataResponse where
  topics : List MetadataTopic

def skipMetadataResponseBroker : KafkaParser Unit := do
  skip int32Len
  let hostLen ← readStringLength header false
  skip (hostLen + int32Len)
  let rackLen ← readStringLength header true
  skip rackLen
  skipTaggedFields header

def skipMetadataResponseBrokers : KafkaParser Unit := do
  let brokersLen ← readArrayLength header
  forRange (skipMetadataResponseBroker header) brokersLen.toNat

def metadataResponseSkipUntilTopics : KafkaParser Unit := do
  skip int32Len
  skipMetadataResponseBrokers header
  let clusterIDLen ← readStringLength header true
  skip (clusterIDLen + int32Len)

/-- One of the three arrays of node ids. -/
def skipMetadataNodes : KafkaParser Unit := do
  let n ← readArrayLength header
  skip (n * int32Len)

def skipMetadataPartition : KafkaParser Unit := do
  skip (int16Len + int32Len * 3)
  forRange (skipMetadataNodes header) 3
  skipTaggedFields header

/-- What is read of a topic before it is known. -/
def parseMetadataTopicName : KafkaParser MetadataTopic := do
  skip int16Len
  let name ← readString header (decide (header.apiVersion ≥ 12))
  return ⟨name, ← readUUID⟩

/-- What is read to get to the next topic. -/
def skipMetadataTopicRest : KafkaParser Unit := do
  skip int8Len
  let partitionsCount ← readArrayLength header
  forRange (skipMetadataPartition header) partitionsCount.toNat
  skip int32Len
  skipTaggedFields header

/-- Each failure behind the UUID ends in the same way: the topic is returned. -/
def parseMetadataTopic (isLast : Bool) : KafkaParser MetadataTopic := do
  let topic ← parseMetadataTopicName header
  if isLast then return topic
  else
    let _ ← attempt (skipMetadataTopicRest header)
    return topic

def parseMetadataTopics : KafkaParser (List MetadataTopic) := do
  let topicsLen ← readArrayLength header
  parseTopicsLoop (fun more => parseMetadataTopic header (more == 0)) topicsLen.toNat

def parseMetadataResponse : KafkaParser MetadataResponse := do
  metadataResponseSkipUntilTopics header
  let topics ← parseMetadataTopics header
  if topics.isEmpty then throw .noTopicsInMetadata else return ⟨topics⟩

/-! ## Group ids -/

def readInt16 : KafkaParser Int := do
  return Scalar.i16be.decode (← readNOr int16Len .dataTooShortForInt16)

/-- A null length is that of an empty string. -/
def readCompactLength : KafkaParser Int := do
  let size ← readUnsignedVarint
  if size = 0 then return 0 else return size - 1

def readStringSize : KafkaParser Int := do
  return max (← if isFlexible header then readCompactLength else readInt16) 0

def readPrintableString : KafkaParser String := do
  let size ← readStringSize header
  if size = 0 then return ""
  else if (← remaining) < size then throw .stringSizeExceedsPacket
  else
    let b ← readNOr size .stringSizeExceedsPacket
    match String.fromUTF8? ⟨b.toArray⟩ with
    | none => throw .invalidPrintableString
    | some s =>
      if b.any fun c => c < 32 || c == 0x7f then throw .invalidPrintableString else return s

def readGroupID : KafkaParser String := do
  let groupID ← readPrintableString header
  if groupID = "" then throw .invalidGroupID else return groupID

end Obi.Ref
