import Obi.Lib.Table
import Obi.Ref.LargeBuffer

/-!
# The MongoDB tracker

Each OP_MSG message of a connection is parsed as it is captured. A request waits
among the in-flight requests, under its connection and request id, for the
responses to it, and every message of the exchange adds its sections to the
waiting value.

Decoding a BSON document is the driver's: `Bson` is what it gives for the bytes
of a document.
-/

namespace Obi.Ref.Mongo
open Lib

inductive MongoError
  | packetTooShortForHeader | noInFlightRequestForResponse | failedToParseResponse
  | unsupportedOpCode | moreToComeWithoutExhaustAllowed | requestExpectsMoreButResponseSent
  | requestAfterAlreadyReceivingResponse | newRequestWithoutMoreToCome | packetTooShortForFlagBits
  | failedToParseSections | noSections | notEnoughDataForSectionLength | invalidSectionLength
  | invalidBSONLength | unsupportedSectionType | invalidMessageLength | invalidRequestID
  | invalidResponseID | invalidFlagBits
deriving DecidableEq, Repr

def MongoError.text : MongoError → String
  | .packetTooShortForHeader => "packet too short for MongoDB header"
  | .noInFlightRequestForResponse => "no in-flight MongoDB request found"
  | .failedToParseResponse => "failed to parse MongoDB response"
  | .unsupportedOpCode => "unsupported MongoDB operation code"
  | .moreToComeWithoutExhaustAllowed =>
    "MongoDB response with moreToCome flag set but exhaustAllowed is not set"
  | .requestExpectsMoreButResponseSent =>
    "MongoDB request expects more sections but response is sent"
  | .requestAfterAlreadyReceivingResponse =>
    "MongoDB request received already started receiving response"
  | .newRequestWithoutMoreToCome =>
    "MongoDB request with moreToCome flag not set but got another request"
  | .packetTooShortForFlagBits => "packet too short for MongoDB flag bits"
  | .failedToParseSections => "failed to parse MongoDB sections"
  | .noSections => "no MongoDB sections found in the message"
  | .notEnoughDataForSectionLength => "not enough data for MongoDB section length"
  | .invalidSectionLength => "invalid MongoDB section length"
  | .invalidBSONLength => "invalid MongoDB BSON length"
  | .unsupportedSectionType => "unsupported MongoDB section type"
  | .invalidMessageLength => "invalid MongoDB message length"
  | .invalidRequestID => "invalid MongoDB request ID"
  | .invalidResponseID => "invalid MongoDB response ID"
  | .invalidFlagBits => "invalid MongoDB flag bits"

structure MsgHeader where
  (messageLength requestID responseTo opCode : Int)
deriving DecidableEq, Repr

/-- A section; of a document sequence nothing but its kind is kept. -/
inductive MongoSection (D : Type)
  | body (doc : D)
  | documentSequence
deriving DecidableEq, Repr

def msgHeaderSize : Nat := 16
def int32Size : Nat := 4
def minOpMsgSize : Nat := msgHeaderSize + int32Size + 1 + int32Size + 1

def flagCheckSumPreset : UInt32 := 0x1
def flagMoreToCome : UInt32 := 0x2
def allowedFlags : UInt32 := flagCheckSumPreset ||| flagMoreToCome
def flagExhaustAllowed : UInt32 := 0x10000

def opMsg : Int := 2013

structure MongoRequestKey (C : Type) where
  connInfo : C
  requestID : Int
deriving DecidableEq, Repr

structure MongoRequestValue (D : Type) where
  (requestSections responseSections : List (MongoSection D))
  (startTime endTime : Int)
  flags : UInt32
deriving DecidableEq, Repr

def MongoRequestValue.inRequest {D : Type} (m : MongoRequestValue D) : Bool :=
  m.responseSections.isEmpty

/-- The requests in flight. -/
abbrev PendingMongoDBRequests (C D : Type) := Table (MongoRequestKey C) (MongoRequestValue D)

/-- What `bson.Unmarshal` makes of the bytes of a document, and `bson.D{}`. -/
structure Bson (D : Type) where
  unmarshal : List UInt8 → Option D
  empty : D

/-- `int32(binary.LittleEndian.Uint32(b))`. -/
def int32LE (b : List UInt8) : Int := Scalar.decode .i32le b

/-! ## The header and the flags -/

def validateMsgHeader (header : MsgHeader) : Except MongoError Unit :=
  if header.messageLength ≤ msgHeaderSize ∨
      header.opCode = opMsg ∧ header.messageLength < minOpMsgSize then
    .error .invalidMessageLength
  else if header.requestID < 0 then .error .invalidRequestID
  else if header.responseTo < 0 then .error .invalidResponseID
  else .ok ()

/-- The four integers in front of every message. -/
def msgHeaderOf (pkt : List UInt8) : MsgHeader where
  messageLength := int32LE (pkt.take int32Size)
  requestID := int32LE ((pkt.drop int32Size).take int32Size)
  responseTo := int32LE ((pkt.drop (2 * int32Size)).take int32Size)
  opCode := int32LE ((pkt.drop (3 * int32Size)).take int32Size)

def parseMongoHeader (pkt : List UInt8) : Except MongoError MsgHeader :=
  match validateMsgHeader (msgHeaderOf pkt) with
  | .error err => .error err
  | .ok () => .ok (msgHeaderOf pkt)

/-- The first 16 bits are required, and an unknown one of them is an error. -/
def validateFlagBits (flagBits : UInt32) : Except MongoError Unit :=
  if (flagBits &&& 0xFFFF) &&& ~~~allowedFlags ≠ 0 then .error .invalidFlagBits else .ok ()

/-! ## Sections -/

section
variable {D : Type} (bson : Bson D)

/-- The document and the bytes it takes. -/
def parseBodySection (buf : List UInt8) (partialCapture : Bool) : Except MongoError (D × Nat) :=
  if buf.length < int32Size then .error .invalidBSONLength
  else
    let bodyLength := int32LE (buf.take int32Size)
    if bodyLength < int32Size + 1 then .error .invalidBSONLength
    else if buf.length < bodyLength then
      if !partialCapture then .error .invalidBSONLength
      else .ok (bson.empty, buf.length)
    else match bson.unmarshal (buf.take bodyLength.toNat) with
    | none => .ok (bson.empty, bodyLength.toNat)
    | some doc => .ok (doc, bodyLength.toNat)

/-- The loop of `parseSections`, with what is left of the bytes. -/
def sectionsLoop (partialCapture : Bool) :
    Nat → List (MongoSection D) → List UInt8 → Except MongoError (List (MongoSection D))
  | 0, sections, _ | _ + 1, sections, [] => .ok sections
  | rounds + 1, sections, sectionType :: buf =>
    if sectionType = 0 then
      match parseBodySection bson buf partialCapture with
      | .error err => .error err
      | .ok (doc, bodyLength) =>
        sectionsLoop partialCapture rounds (sections ++ [.body doc]) (buf.drop bodyLength)
    else if sectionType = 1 then
      if buf.length < int32Size then .error .notEnoughDataForSectionLength
      else
        let length := int32LE (buf.take int32Size)
        if length < int32Size + 1 ∨ buf.length < length then .error .invalidSectionLength
        else
          sectionsLoop partialCapture rounds (sections ++ [.documentSequence])
            (buf.drop length.toNat)
    else .error .unsupportedSectionType

def parseSections (buf : List UInt8) (partialCapture : Bool) :
    Except MongoError (List (MongoSection D)) :=
  match sectionsLoop bson partialCapture buf.length [] buf with
  | .error err => .error err
  | .ok sections => if sections.isEmpty then .error .noSections else .ok sections

end

/-! ## Messages -/

variable {C D : Type} (bson : Bson D)

/-- Which side sent a message, with the exchange in flight under its key. A
response without one is refused before it is parsed. -/
inductive Direction (D : Type)
  | request (pendingRequest : Option (MongoRequestValue D))
  | response (pendingRequest : MongoRequestValue D)

/-- Whether more messages of the exchange follow. -/
def validateOpMsg (direction : Direction D) (flagBits : UInt32) : Except MongoError Bool :=
  let moreToCome : Bool := flagBits &&& flagMoreToCome ≠ 0
  match direction with
  | .response pendingRequest =>
    let exhaustAllowed : Bool := pendingRequest.flags &&& flagExhaustAllowed ≠ 0
    if moreToCome && !exhaustAllowed then .error .moreToComeWithoutExhaustAllowed
    else if pendingRequest.inRequest ∧ pendingRequest.flags &&& flagMoreToCome ≠ 0 then
      .error .requestExpectsMoreButResponseSent
    else .ok moreToCome
  | .request none => .ok true
  | .request (some pendingRequest) =>
    if !pendingRequest.inRequest then .error .requestAfterAlreadyReceivingResponse
    else if pendingRequest.flags &&& flagMoreToCome = 0 then .error .newRequestWithoutMoreToCome
    else .ok moreToCome

def addSectionToMessage (direction : Direction D) (sections : List (MongoSection D))
    (flagBits : UInt32) (time : Int) : MongoRequestValue D :=
  match direction with
  | .response pendingRequest =>
    { pendingRequest with
      responseSections := pendingRequest.responseSections ++ sections
      flags := flagBits
      endTime := if pendingRequest.endTime < time then time else pendingRequest.endTime }
  | .request none =>
    { requestSections := sections, responseSections := [], startTime := time, endTime := 0,
      flags := flagBits }
  | .request (some pendingRequest) =>
    { pendingRequest with
      requestSections := pendingRequest.requestSections ++ sections
      flags := flagBits
      startTime := if pendingRequest.startTime > time then time else pendingRequest.startTime }

/-- The flag bits of a message, which stand behind its header. -/
def flagBitsOf (buf : List UInt8) : UInt32 :=
  UInt32.ofNat (bigEndian ((buf.drop msgHeaderSize).take int32Size).reverse)

def parseOpMessage (buf : List UInt8) (time : Int) (direction : Direction D)
    (partialCapture : Bool) : Except MongoError (MongoRequestValue D × Bool) :=
  if buf.length < msgHeaderSize + int32Size then .error .packetTooShortForFlagBits
  else
    let flagBits := flagBitsOf buf
    match validateFlagBits flagBits with
    | .error err => .error err
    | .ok () => match validateOpMsg direction flagBits with
      | .error err => .error err
      | .ok moreToCome =>
        match parseSections bson (buf.drop (msgHeaderSize + int32Size)) partialCapture with
        | .error _ => .error .failedToParseSections
        | .ok sections =>
          if sections.isEmpty then .error .noSections
          else .ok (addSectionToMessage direction sections flagBits time, moreToCome)

def parseMongoMessage (buf : List UInt8) (hdr : MsgHeader) (time : Int) (direction : Direction D)
    (partialCapture : Bool) : Except MongoError (MongoRequestValue D × Bool) :=
  if hdr.opCode = opMsg then parseOpMessage bson buf time direction partialCapture
  else .error .unsupportedOpCode

/-! ## Exchanges -/

def makeRequestKey (isResponse : Bool) (header : MsgHeader) (connInfo : C) : MongoRequestKey C :=
  if isResponse then ⟨connInfo, header.responseTo⟩ else ⟨connInfo, header.requestID⟩

def requestTime (isResponse : Bool) (startTime endTime : Int) : Int :=
  if isResponse then endTime else startTime

/-- What a message gives: the finished exchange, if it finished one, and whether
more messages are to come. -/
abbrev EventResult (D : Type) := Except MongoError (Option (MongoRequestValue D) × Bool)

variable [DecidableEq C]

/-- The in-flight values are shared with the map they are in: what a message adds
to one is there whether or not it is put into the map again. -/
def processMongoEvent (buf : List UInt8) (startTime endTime : Int) (connInfo : C)
    (requests : PendingMongoDBRequests C D) : EventResult D × PendingMongoDBRequests C D :=
  if buf.length < msgHeaderSize then (.error .packetTooShortForHeader, requests)
  else match parseMongoHeader buf with
  | .error err => (.error err, requests)
  | .ok header =>
    let partialCapture : Bool := buf.length < header.messageLength
    let buf :=
      if header.messageLength < buf.length then buf.take header.messageLength.toNat else buf
    let isResponse : Bool := header.responseTo ≠ 0
    let time := requestTime isResponse startTime endTime
    let key := makeRequestKey isResponse header connInfo
    match isResponse, requests.lookup key with
    | true, none => (.error .noInFlightRequestForResponse, requests)
    | true, some inFlightRequest =>
      if buf.length = msgHeaderSize then
        if header.opCode ≠ opMsg then (.error .failedToParseResponse, requests)
        -- The client reads only the 16 bytes of the header at first.
        else (.ok (some inFlightRequest, false), requests.erase key)
      else match parseMongoMessage bson buf header time (.response inFlightRequest)
          partialCapture with
      | .error _ => (.error .failedToParseResponse, requests)
      | .ok (pendingRequest, moreToCome) =>
        if !moreToCome then
          -- `requests.Get(key)`
          (.ok (some pendingRequest, false), requests.insert key pendingRequest)
        else (.ok (none, true), requests.insert key pendingRequest)
    | false, inFlightRequest =>
      match parseMongoMessage bson buf header time (.request inFlightRequest) partialCapture with
      | .error _ => (.error .failedToParseResponse, requests)
      | .ok (pendingRequest, _) => (.ok (none, true), requests.insert key pendingRequest)

end Obi.Ref.Mongo
