import Mathlib.Data.UInt

/-!
# The MQTT SUBSCRIBE parser

A SUBSCRIBE packet carries an identifier and topic filters, each with an options
byte. MQTT 5.0 has properties in front of the filters, which 3.1.1 does not, and
nothing in the packet says which version it is: the filters are read as 3.1.1
first.
-/

namespace Obi.Ref.Mqtt

inductive MqttError
  | notEnoughData | badIntEncoding | notEnoughStringLen | notEnoughStringContent | protocolMismatch
  | subscribeInsufficientData | subscribeReadTopicFilter | subscribeReadOptions
  | subscribeRequiresAtLeastOne
deriving DecidableEq, Repr

def MqttError.text : MqttError → String
  | .notEnoughData => "not enough data for variable byte integer"
  | .badIntEncoding => "variable byte integer encoding exceeds 4 bytes or incomplete"
  | .notEnoughStringLen => "not enough data for string length"
  | .notEnoughStringContent => "not enough data for string content"
  | .protocolMismatch => "MQTT protocol version mismatch"
  | .subscribeInsufficientData => "insufficient data for SUBSCRIBE packet"
  | .subscribeReadTopicFilter => "failed to read topic filter"
  | .subscribeReadOptions => "failed to read subscription options"
  | .subscribeRequiresAtLeastOne => "SUBSCRIBE packet must contain at least one subscription"

/-! ## The reader -/

structure PacketReader where
  pkt : List UInt8
  offset : Nat

/-- How a read ends, and the reader behind it. -/
abbrev ReadResult (α : Type) := Except MqttError α × PacketReader

namespace PacketReader

variable (r : PacketReader)

def remaining : Nat := r.pkt.length - r.offset

def setOffset (offset : Nat) : PacketReader := { r with offset := offset }

def skip (n : Nat) : ReadResult Unit :=
  if r.offset + n > r.pkt.length then (.error .notEnoughData, r)
  else (.ok (), { r with offset := r.offset + n })

def readUint8 : ReadResult UInt8 := match r.pkt[r.offset]? with
  | none => (.error .notEnoughData, r)
  | some value => (.ok value, { r with offset := r.offset + 1 })

def readUint16 : ReadResult UInt16 := match r.pkt[r.offset]?, r.pkt[r.offset + 1]? with
  | some hi, some lo => (.ok (hi.toUInt16 <<< 8 ||| lo.toUInt16), { r with offset := r.offset + 2 })
  | _, _ => (.error .notEnoughData, r)

/-- The loop of `ReadVariableByteInteger`, with the byte positions that are
left. -/
def variableByteLoop (r : PacketReader) (multiplier value : Nat) : List Nat → ReadResult Nat
  | [] => (.error .badIntEncoding, r)
  | pos :: positions => match r.pkt[r.offset + pos]? with
    | none => (.error .badIntEncoding, r)
    | some encodedByte =>
      let value := value + (encodedByte &&& 0x7F).toNat * multiplier
      if encodedByte &&& 0x80 = 0 then (.ok value, { r with offset := r.offset + pos + 1 })
      else variableByteLoop r (multiplier * 128) value positions

def readVariableByteInteger : ReadResult Nat :=
  if r.offset ≥ r.pkt.length then (.error .notEnoughData, r)
  else r.variableByteLoop 1 0 (List.range 4)

def readString : ReadResult (List UInt8) := match r.readUint16 with
  | (.error _, r) => (.error .notEnoughStringLen, r)
  | (.ok strLen, r) =>
    if r.offset + strLen.toNat > r.pkt.length then (.error .notEnoughStringContent, r)
    else
      (.ok ((r.pkt.drop r.offset).take strLen.toNat), { r with offset := r.offset + strLen.toNat })

end PacketReader

/-! ## SUBSCRIBE -/

structure Subscription where
  topicFilter : List UInt8
  qos : UInt8
deriving DecidableEq, Repr

structure SubscribePacket where
  packetID : UInt16
  subscriptions : List Subscription
deriving DecidableEq, Repr

inductive ProtocolLevel
  | mqtt311 | mqtt50
deriving DecidableEq

/-- What a failure means: with some subscriptions read they are the result, with
none it is an error, which in 3.1.1 is that of another version. -/
def subscriptionsOr (targetVersion : ProtocolLevel) (subscriptions : List Subscription)
    (e : MqttError) : Except MqttError (List Subscription) :=
  if subscriptions.length > 0 then .ok subscriptions
  else match targetVersion with
  | .mqtt311 => .error .protocolMismatch
  | .mqtt50 => .error e

namespace PacketReader

/-- The loop of `readSubscriptions`. Each round takes a byte at least. -/
def subscriptionLoop (targetVersion : ProtocolLevel) :
    Nat → List Subscription → PacketReader → ReadResult (List Subscription)
  | 0, subscriptions, r =>
    (subscriptionsOr targetVersion subscriptions .subscribeRequiresAtLeastOne, r)
  | rounds + 1, subscriptions, r =>
    if r.remaining > 0 then
      match r.readString with
      | (.error _, r) => (subscriptionsOr targetVersion subscriptions .subscribeReadTopicFilter, r)
      | (.ok topicFilter, r) => match r.readUint8 with
        | (.error _, r) => (subscriptionsOr targetVersion subscriptions .subscribeReadOptions, r)
        | (.ok options, r) =>
          if targetVersion = .mqtt311 ∧ options > 0x02 then (.error .protocolMismatch, r)
          else subscriptionLoop targetVersion rounds
            (subscriptions ++ [⟨topicFilter, options &&& 0x03⟩]) r
    else (subscriptionsOr targetVersion subscriptions .subscribeRequiresAtLeastOne, r)

def readSubscriptions (r : PacketReader) (targetVersion : ProtocolLevel) :
    ReadResult (List Subscription) :=
  subscriptionLoop targetVersion r.remaining [] r

def skipProperties (r : PacketReader) : ReadResult Unit := match r.readVariableByteInteger with
  | (.error e, r) => (.error e, r)
  | (.ok propLen, r) => r.skip propLen

end PacketReader

/-- The packet as far as it was read, the offset behind it, and the error. -/
def parseSubscribePacket (pkt : List UInt8) (offset remainingLength : Nat) :
    SubscribePacket × Nat × Option MqttError :=
  if offset + remainingLength > pkt.length then
    (⟨0, []⟩, offset, some .subscribeInsufficientData)
  else
    let r : PacketReader := ⟨pkt.take (offset + remainingLength), offset⟩
    match r.readUint16 with
    | (.error e, r) => (⟨0, []⟩, r.offset, some e)
    | (.ok packetID, r) =>
      let checkpoint := r.offset
      match r.readSubscriptions .mqtt311 with
      | (.ok subscriptions, r) => (⟨packetID, subscriptions⟩, r.offset, none)
      | (.error .protocolMismatch, r) => match (r.setOffset checkpoint).skipProperties with
        | (.error e, r) => (⟨packetID, []⟩, r.offset, some e)
        | (.ok _, r) => match r.readSubscriptions .mqtt50 with
          | (.error e, r) => (⟨packetID, []⟩, r.offset, some e)
          | (.ok subscriptions, r) => (⟨packetID, subscriptions⟩, r.offset, none)
      | (.error e, r) => (⟨packetID, []⟩, r.offset, some e)

end Obi.Ref.Mqtt
