import Obi.Ref.Mongo

/-!
# OP_MSG messages

A message has a header, flag bits, one body and any number of document
sequences around it, and a checksum if its flags say so.
-/

namespace Obi.Spec.Mongo
open Ref.Mongo

/-- Four bytes, the lowest first. -/
def int32Bytes (n : Nat) : List UInt8 :=
  [UInt8.ofNat n, UInt8.ofNat (n / 256), UInt8.ofNat (n / 65536), UInt8.ofNat (n / 16777216)]

/-- Bytes with their number in front of them, which counts itself. -/
def sized (content : List UInt8) : List UInt8 := int32Bytes (4 + content.length) ++ content

variable {D : Type} {bson : Bson D}

/-- A document, which the driver decodes as `doc`. -/
structure Body (bson : Bson D) where
  elements : List UInt8
  doc : D
  ended : elements ≠ []
  fits : 4 + elements.length < 2 ^ 31
  decodes : bson.unmarshal (sized elements) = some doc

/-- A document sequence: its identifier, which ends with a zero, and the
documents. -/
structure Sequence where
  content : List UInt8
  named : content ≠ []
  fits : 4 + content.length < 2 ^ 31

inductive Section (bson : Bson D)
  | body (b : Body bson)
  | sequence (s : Sequence)

namespace Section

def wire : Section bson → List UInt8
  | .body b => 0 :: sized b.elements
  | .sequence s => 1 :: sized s.content

def read : Section bson → MongoSection D
  | .body b => .body b.doc
  | .sequence _ => .documentSequence

end Section

def sectionsWire (sections : List (Section bson)) : List UInt8 := sections.flatMap Section.wire

structure OpMsg (bson : Bson D) where
  header : List UInt8
  flags : UInt32
  before : List Sequence
  body : Body bson
  after : List Sequence
  checksum : List UInt8
  headerSize : header.length = 16
  known : flags &&& 0xFFFC = 0
  checksumSize : checksum.length = if flags &&& flagCheckSumPreset = 0 then 0 else 4

namespace OpMsg

variable (m : OpMsg bson)

/-- The sections up to the body. -/
def upToBody : List (Section bson) := m.before.map .sequence ++ [.body m.body]

def sections : List (Section bson) := m.upToBody ++ m.after.map .sequence

/-- The message up to the end of some sections. -/
def wireUpTo (sections : List (Section bson)) : List UInt8 :=
  m.header ++ (int32Bytes m.flags.toNat ++ sectionsWire sections)

def wire : List UInt8 := m.wireUpTo m.sections ++ m.checksum

end OpMsg

/-! ## Reading a message -/

/-- The sections the sender of a message has sent in the exchange before. -/
def sentBefore : Direction D → List (MongoSection D)
  | .request none => []
  | .request (some v) => v.requestSections
  | .response v => v.responseSections

/-- The sections of one side. -/
def sentBy : Direction D → MongoRequestValue D → List (MongoSection D)
  | .request _, v => v.requestSections
  | .response _, v => v.responseSections

/-- The bytes are read as a message with these sections. -/
def ReadsSections (bson : Bson D) (buf : List UInt8) (time : Int) (direction : Direction D)
    (partialCapture : Bool) (sections : List (MongoSection D)) : Prop :=
  ∃ value moreToCome,
    parseOpMessage bson buf time direction partialCapture = .ok (value, moreToCome) ∧
    sentBy direction value = sentBefore direction ++ sections

/-- A message with these flags may come next in the exchange: its first request; another one
while the requests announce more; or a response once they do not, which may announce more
only if that was allowed. -/
def Due : Direction D → UInt32 → Prop
  | .request none, _ => True
  | .request (some v), _ => v.inRequest = true ∧ v.flags &&& flagMoreToCome ≠ 0
  | .response v, flags => ¬ (v.inRequest = true ∧ v.flags &&& flagMoreToCome ≠ 0) ∧
      (flags &&& flagMoreToCome ≠ 0 → v.flags &&& flagExhaustAllowed ≠ 0)

end Obi.Spec.Mongo
