import Obi.Ref.Mongo

/-!
# MongoDB exchanges

An exchange is a request, in one message or several, and the responses to it. It
is open from its first message to the first response that announces no other.
What is open is told by the messages alone; a delivery is such a message with
what of it was captured.
-/

namespace Obi.Spec.Mongo
open Ref.Mongo
variable {C D : Type} {bson : Bson D}

/-- The bytes of the message at the front of a capture. -/
def ownBytes (buf : List UInt8) : List UInt8 :=
  if (msgHeaderOf buf).messageLength < buf.length then
    buf.take (msgHeaderOf buf).messageLength.toNat
  else buf

/-- An OP_MSG message as it is captured. `flags` are those of the message,
`sections` those that are there; of a response there may be no more than the
header. -/
structure Delivery (C : Type) (bson : Bson D) where
  buf : List UInt8
  (startTime endTime : Int)
  connInfo : C
  flags : UInt32
  sections : List (MongoSection D)
  headed : msgHeaderSize ≤ buf.length
  valid : validateMsgHeader (msgHeaderOf buf) = .ok ()
  opCode : (msgHeaderOf buf).opCode = opMsg
  carried : (buf.length = msgHeaderSize ∧ (msgHeaderOf buf).responseTo ≠ 0 ∧ sections = []) ∨
    (msgHeaderSize + int32Size ≤ (ownBytes buf).length ∧ flagBitsOf (ownBytes buf) = flags ∧
      validateFlagBits flags = .ok () ∧
      parseSections bson ((ownBytes buf).drop (msgHeaderSize + int32Size))
        (decide (buf.length < (msgHeaderOf buf).messageLength)) = .ok sections)

namespace Delivery

variable (d : Delivery C bson)

def isResponse : Bool := (msgHeaderOf d.buf).responseTo ≠ 0

def key : MongoRequestKey C := makeRequestKey d.isResponse (msgHeaderOf d.buf) d.connInfo

def headerOnly : Bool := d.buf.length = msgHeaderSize

def moreToCome : Bool := d.flags &&& flagMoreToCome ≠ 0

def exhaustAllowed : Bool := d.flags &&& flagExhaustAllowed ≠ 0

end Delivery

/-! ## An exchange -/

variable (l : List (Delivery C bson))

/-- The messages of the open exchange under a key, none if there is none, after
one more message under that key. A response to nothing is no part of an
exchange. -/
def nextOpen (d : Delivery C bson) : List (Delivery C bson) :=
  if d.isResponse then
    if l = [] then [] else if d.moreToCome then l ++ [d] else []
  else l ++ [d]

/-- The message may come next: a request opens an exchange or goes on with one
whose last message announced it, a response comes when the request is complete,
and announces others only if the request allows it. -/
def Allowed (d : Delivery C bson) : Prop :=
  if d.isResponse then
    ∀ r ∈ (l.filter fun e => !e.isResponse).getLast?,
      r.moreToCome = false ∧ (d.moreToCome = true → r.exhaustAllowed = true)
  else (∀ e ∈ l, e.isResponse = false) ∧ ∀ e ∈ l.getLast?, e.moreToCome = true

instance (l : List (Delivery C bson)) (d : Delivery C bson) : Decidable (Allowed l d) :=
  inferInstanceAs (Decidable (ite _ _ _))

/-- What the responses must be for the tracker to follow: the last one of an
exchange comes with its header only, the others with their sections, and the
message before each of those carries the permission. -/
def Tracked (d : Delivery C bson) : Prop :=
  d.isResponse = true → l ≠ [] → d.headerOnly = !d.moreToCome ∧
      (d.moreToCome = true → ∀ e ∈ l.getLast?, e.exhaustAllowed = true)

instance (l : List (Delivery C bson)) (d : Delivery C bson) : Decidable (Tracked l d) :=
  inferInstanceAs (Decidable (_ → _ → _ ∧ _))

def requestSections : List (MongoSection D) :=
  (l.filter fun e => !e.isResponse).flatMap Delivery.sections

def responseSections : List (MongoSection D) :=
  (l.filter fun e => e.isResponse).flatMap Delivery.sections

/-- What a message does that finds the exchange `l` open: the last response
completes it with all its sections, and leaves nothing in flight; a request that
finds none opens one; a response that finds none is refused; and nothing else
completes one. -/
structure HandledOnce (l : List (Delivery C bson)) (d : Delivery C bson) (result : EventResult D)
    (entry : Option (MongoRequestValue D)) : Prop where
  last : d.isResponse = true → l ≠ [] → d.moreToCome = false →
    entry = none ∧ ∃ v, result = .ok (some v, false) ∧
      v.requestSections = requestSections (l ++ [d]) ∧
      v.responseSections = responseSections (l ++ [d])
  first : d.isResponse = false → l = [] →
    ∃ v, entry = some v ∧ v.requestSections = d.sections ∧ v.responseSections = []
  stray : d.isResponse = true → l = [] →
    entry = none ∧ result = .error .noInFlightRequestForResponse
  other : (d.isResponse = true → l ≠ [] ∧ d.moreToCome = true) → result = .ok (none, true)

/-! ## All exchanges -/

/-- The open exchange of each key. -/
abbrev Exchanges (C : Type) (bson : Bson D) := MongoRequestKey C → List (Delivery C bson)

variable [DecidableEq C]

def openStep (o : Exchanges C bson) (d : Delivery C bson) : Exchanges C bson :=
  Function.update o d.key (nextOpen (o d.key) d)

def noneOpen : Exchanges C bson := fun _ => []

end Obi.Spec.Mongo
