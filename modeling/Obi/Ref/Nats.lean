import Obi.Ref.GoBytes
import Obi.Ref.SliceReader

/-!
# The NATS parser

A capture of NATS traffic is a sequence of frames: a control line, and behind
those that publish or deliver a message its payload. The first such frame becomes
a span; a CONNECT before it names the client.

The control line is a slice of the reader. It is looked at after its terminator
was read, and the subject of a delivered message after its payload was passed.
JSON is decoded by `encoding/json`, which is a parameter.
-/

namespace Obi.Ref.Nats
open Lib SliceParser

inductive NatsError
  | missingNatsTerminator | packetTooShortForNATS | notLikelyNATS | emptyNATSCommand
  | unsupportedNATSCommand | invalidNATSJSONPayload | missingNATSJSONPayload | invalidSUBControlLine
  | invalidUNSUBControlLine | invalidUNSUBMaxMsgs | invalidMSGControlLine | invalidMSGPayloadSize
  | invalidHMSGControlLine | invalidHMSGHeaderSize | invalidHMSGTotalSize
  | hmsgHeaderSizeExceedsTotal | invalidNATSPayloadControlLine | invalidNATSPayloadSize
  | invalidNATSHeaderPayloadControlLine | invalidNATSHeaderSize | invalidNATSTotalSize
  | natsHeaderSizeExceedsTotal | negativeNATSPayloadSize | truncatedNATSPayload
  | missingNATSPayloadTerminator | emptyNATSControlLine | invalidNATSSID
deriving DecidableEq, Repr

def NatsError.text : NatsError → String
  | .missingNatsTerminator => "missing NATS control line terminator"
  | .packetTooShortForNATS => "packet too short for NATS"
  | .notLikelyNATS => "packet does not look like NATS"
  | .emptyNATSCommand => "empty NATS command"
  | .unsupportedNATSCommand => "unsupported NATS command"
  | .invalidNATSJSONPayload => "invalid NATS JSON payload"
  | .missingNATSJSONPayload => "missing NATS JSON payload"
  | .invalidSUBControlLine => "invalid SUB control line"
  | .invalidUNSUBControlLine => "invalid UNSUB control line"
  | .invalidUNSUBMaxMsgs => "invalid UNSUB max_msgs"
  | .invalidMSGControlLine => "invalid MSG control line"
  | .invalidMSGPayloadSize => "invalid MSG payload size"
  | .invalidHMSGControlLine => "invalid HMSG control line"
  | .invalidHMSGHeaderSize => "invalid HMSG header size"
  | .invalidHMSGTotalSize => "invalid HMSG total size"
  | .hmsgHeaderSizeExceedsTotal => "HMSG header size exceeds total size"
  | .invalidNATSPayloadControlLine => "invalid NATS payload control line"
  | .invalidNATSPayloadSize => "invalid NATS payload size"
  | .invalidNATSHeaderPayloadControlLine => "invalid NATS header payload control line"
  | .invalidNATSHeaderSize => "invalid NATS header size"
  | .invalidNATSTotalSize => "invalid NATS total size"
  | .natsHeaderSizeExceedsTotal => "NATS header size exceeds total size"
  | .negativeNATSPayloadSize => "negative NATS payload size"
  | .truncatedNATSPayload => "truncated NATS payload"
  | .missingNATSPayloadTerminator => "missing NATS payload terminator"
  | .emptyNATSControlLine => "empty NATS control line"
  | .invalidNATSSID => "invalid NATS sid"

/-- `json.Valid`, and the name `json.Unmarshal` finds in a CONNECT, if it
succeeds. -/
structure NatsJson where
  valid : List UInt8 → Bool
  connectName : List UInt8 → Option (List UInt8)

inductive MessagingOperation
  | publish | process
deriving DecidableEq, Repr

structure NatsInfo where
  operation : MessagingOperation
  (subject clientID : List UInt8)
  payloadSize : Int
deriving DecidableEq, Repr

structure NatsFrame where
  info : Option NatsInfo
  clientID : List UInt8
deriving DecidableEq, Repr

abbrev FrameResult := Except NatsError NatsFrame

/-- A frame without a span. -/
def NatsFrame.none : NatsFrame := ⟨.none, []⟩

/-- The first bytes of all commands. -/
def isNATSCmdFirstByte (b : UInt8) : Bool := (ascii "+-PpIiCcSsUuMmHhRr").contains b

/-! ## Control lines -/

/-- `bytes.TrimSpace(line)`, of a line that holds `b` now. -/
def trimmedLine (line : Slice UInt8) (b : List UInt8) : Slice UInt8 :=
  let front := b.length - (trimFront whiteSpace 0 b).length
  line.slice front (front + (trimSpace b).length)

def readNATSControlLine : SliceParser (Except NatsError (Slice UInt8)) := do
  let crPos ← indexByte 13
  if crPos < 0 then return .error .missingNatsTerminator
  else match ← readN crPos with
  | .error _ => return .error .missingNatsTerminator
  | .ok line => match ← readN 2 with
    | .error _ => return .error .missingNatsTerminator
    | .ok terminator =>
      let end_ ← load terminator
      if end_ ≠ crlf then return .error .missingNatsTerminator
      else
        let b ← load line
        if trimSpace b = [] then return .error .emptyNATSControlLine
        else return .ok (trimmedLine line b)

def consumeNATSPayload (size : Int) : SliceParser (Except NatsError Unit) := do
  if size < 0 then return .error .negativeNATSPayloadSize
  else match ← skip size with
  | .error _ => return .error .truncatedNATSPayload
  | .ok () => match ← readN 2 with
    | .error _ => return .error .truncatedNATSPayload
    | .ok terminator =>
      let end_ ← load terminator
      if end_ ≠ crlf then return .error .missingNATSPayloadTerminator
      else return .ok ()

def validateNATSSID (field : List UInt8) : Except NatsError Unit :=
  if isASCIIAlnumBytes field then .ok () else .error .invalidNATSSID

/-- The error, of whatever kind, is replaced by the caller's. -/
def parseIntField (field : List UInt8) : Option Int := if field = [] then none else atoi field

/-! ## Frames -/

variable (fields : List (List UInt8))

/-- `fields[len(fields)-back]`. -/
def fromEnd (back : Nat) : List UInt8 := fields[fields.length - back]?.getD []

variable (json : NatsJson)

def natsJSONPayload (line command : List UInt8) : Except NatsError (List UInt8) :=
  if line.length ≤ command.length then .error .missingNATSJSONPayload
  else
    let rest := trimSpace (line.drop command.length)
    if !json.valid rest then .error .invalidNATSJSONPayload else .ok rest

def parseNATSInfoOrConnectFrame (command line : List UInt8) : FrameResult :=
  match natsJSONPayload json line command with
  | .error err => .error err
  | .ok rest =>
    if equalFoldASCII command (ascii "INFO") then .ok .none
    else match json.connectName rest with
    | none => .error .invalidNATSJSONPayload
    | some name => .ok ⟨none, name⟩

def parseNATSSubFrame : FrameResult :=
  if fields.length ≠ 3 ∧ fields.length ≠ 4 then .error .invalidSUBControlLine
  else match validateNATSSID (fromEnd fields 1) with
  | .error err => .error err
  | .ok () => .ok .none

def parseNATSUnsubFrame : FrameResult :=
  if fields.length ≠ 2 ∧ fields.length ≠ 3 then .error .invalidUNSUBControlLine
  else match validateNATSSID (fields[1]?.getD []) with
  | .error err => .error err
  | .ok () =>
    if fields.length = 3 ∧ parseIntField (fields[2]?.getD []) = none then
      .error .invalidUNSUBMaxMsgs
    else .ok .none

def parseNATSPayloadFields : Except NatsError (List UInt8 × Int) :=
  if fields.length ≠ 3 ∧ fields.length ≠ 4 then .error .invalidNATSPayloadControlLine
  else match parseIntField (fromEnd fields 1) with
  | none => .error .invalidNATSPayloadSize
  | some size => .ok (fields[1]?.getD [], size)

def parseNATSHeaderPayloadFields : Except NatsError (List UInt8 × Int) :=
  if fields.length ≠ 4 ∧ fields.length ≠ 5 then .error .invalidNATSHeaderPayloadControlLine
  else match parseIntField (fromEnd fields 2) with
  | none => .error .invalidNATSHeaderSize
  | some hdrSize => match parseIntField (fromEnd fields 1) with
    | none => .error .invalidNATSTotalSize
    | some totalSize =>
      if hdrSize > totalSize then .error .natsHeaderSizeExceedsTotal
      else .ok (fields[1]?.getD [], totalSize)

/-- PUB and HPUB: the subject was copied when the fields were parsed. -/
def publishFrame (parsed : Except NatsError (List UInt8 × Int)) : SliceParser FrameResult := do
  match parsed with
  | .error err => return .error err
  | .ok (subject, size) => match ← consumeNATSPayload size with
    | .error err => return .error err
    | .ok () => return .ok ⟨some ⟨.publish, subject, [], size⟩, []⟩

def parseNATSPUBFrame : SliceParser FrameResult := publishFrame (parseNATSPayloadFields fields)

def parseNATSHPUBFrame : SliceParser FrameResult :=
  publishFrame (parseNATSHeaderPayloadFields fields)

variable (subject : Slice UInt8)

/-- MSG and HMSG: the subject is still a slice when the payload is passed. -/
def deliverFrame (size : Int) : SliceParser FrameResult := do
  match ← consumeNATSPayload size with
  | .error err => return .error err
  | .ok () =>
    let name ← load subject
    return .ok ⟨some ⟨.process, name, [], size⟩, []⟩

def parseNATSMSGFrame : SliceParser FrameResult :=
  if fields.length ≠ 4 ∧ fields.length ≠ 5 then return .error .invalidMSGControlLine
  else match validateNATSSID (fields[2]?.getD []) with
  | .error err => return .error err
  | .ok () => match parseIntField (fromEnd fields 1) with
    | none => return .error .invalidMSGPayloadSize
    | some size => deliverFrame subject size

def parseNATSHMSGFrame : SliceParser FrameResult :=
  if fields.length ≠ 5 ∧ fields.length ≠ 6 then return .error .invalidHMSGControlLine
  else match validateNATSSID (fields[2]?.getD []) with
  | .error err => return .error err
  | .ok () => match parseIntField (fromEnd fields 2) with
    | none => return .error .invalidHMSGHeaderSize
    | some hdrSize => match parseIntField (fromEnd fields 1) with
      | none => return .error .invalidHMSGTotalSize
      | some totalSize =>
        if hdrSize > totalSize then return .error .hmsgHeaderSizeExceedsTotal
        else deliverFrame subject totalSize

/-- The frame of a control line that holds `b`. -/
def frameOf (line : Slice UInt8) (b : List UInt8) : SliceParser FrameResult :=
  let places := bytesFields b
  let fields := places.map Prod.snd
  match fields with
  | [] => return .error .emptyNATSCommand
  | command :: _ =>
    let is (name : String) : Bool := equalFoldASCII command (ascii name)
    let subject := match places[1]? with
      | none => .fixed []
      | some (place, w) => line.slice place (place + w.length)
    if is "+OK" || is "-ERR" || is "PING" || is "PONG" then return .ok .none
    else if is "INFO" || is "CONNECT" then return parseNATSInfoOrConnectFrame json command b
    else if is "SUB" then return parseNATSSubFrame fields
    else if is "UNSUB" then return parseNATSUnsubFrame fields
    else if is "PUB" then parseNATSPUBFrame fields
    else if is "MSG" then parseNATSMSGFrame fields subject
    else if is "HPUB" then parseNATSHPUBFrame fields
    else if is "HMSG" then parseNATSHMSGFrame fields subject
    else return .error .unsupportedNATSCommand

def parseNATSFrame : SliceParser FrameResult := do
  match ← readNATSControlLine with
  | .error err => return .error err
  | .ok line =>
    let b ← load line
    frameOf json line b

/-! ## Captures -/

/-- The span info, whether the capture is to be ignored, and the error. -/
abbrev EventResult := Option NatsInfo × Bool × Option NatsError

/-- The loop over the frames; every frame takes a byte at least. -/
def natsFramesLoop (json : NatsJson) : Nat → List UInt8 → SliceParser EventResult
  | 0, _ => return (none, true, none)
  | rounds + 1, clientID => do
      let remaining ← remaining
      if remaining > 0 then
        match ← parseNATSFrame json with
        | .error err => return (none, true, some err)
        | .ok frame =>
          let clientID := if frame.clientID ≠ [] then frame.clientID else clientID
          match frame.info with
          | none => natsFramesLoop json rounds clientID
          | some info => return (some { info with clientID := clientID }, false, none)
      else return (none, true, none)

/-- `none` stands for a panic. -/
def processNATSEvent (pkt : LargeBuffer) : Option EventResult :=
  if pkt.total = 0 then some (none, true, some .packetTooShortForNATS)
  else match u8At pkt 0 with
  | none => some (none, true, some .notLikelyNATS)
  | some first =>
    if !isNATSCmdFirstByte first then some (none, true, some .notLikelyNATS)
    else (natsFramesLoop json pkt.total []).onReader pkt.newReader

end Obi.Ref.Nats
