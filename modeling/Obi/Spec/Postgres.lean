import Obi.Ref.Postgres
import Obi.Spec.Tape

/-!
# Postgres messages in a byte string

The messages of a byte string and the fields of a Bind command, without regard to
chunks; and what chunks change: a header that lies in the scratch memory is
written over by its payload, and the names of a Bind command by what is read
behind them.
-/

namespace Obi.Spec.Postgres
open Lib Ref Ref.Postgres

/-! ## Messages -/

/-- A message: the byte of its type, its payload, and whether it is cut off. -/
structure RawMessage where
  kind : UInt8
  data : List UInt8
  isPartial : Bool

/-- The messages of a byte string and how they end. -/
def rawMessages : Nat → List UInt8 → List RawMessage × Option PgError
  | 0, _ => ([], none)
  | rounds + 1, bytes =>
    if bytes = [] then ([], none)
    else if bytes.length < postgresHdrSize then ([], some .remainingTooShortHeader)
    else
      let size := Scalar.decode .i32be ((bytes.drop 1).take 4)
      let rest := bytes.drop postgresHdrSize
      if size < 4 then ([], some .malformedMessage)
      else if (rest.length : Int) < size - 4 then
        if postgresCommandID (bytes.headD 0) = .parse then
          ([⟨bytes.headD 0, rest, true⟩], none)
        else ([], some .remainingTooShortMessageData)
      else
        let n := (size - 4).toNat
        let (messages, ending) := rawMessages rounds (rest.drop n)
        (⟨bytes.headD 0, rest.take n, false⟩ :: messages, ending)

namespace RawMessage

/-- The length of the scratch memory after the header, and after the payload. -/
def capAfter (crosses : Nat → Nat → Bool) (pos cap : Nat) (m : RawMessage) : Nat :=
  if m.data = [] then grown crosses pos 5 cap
  else grown crosses (pos + 5) m.data.length (grown crosses pos 5 cap)

/-- The header and the payload both cross the end of a chunk, and the payload
fits the scratch memory: it is written over the header. -/
def Overwritten (crosses : Nat → Nat → Bool) (pos cap : Nat) (m : RawMessage) : Prop :=
  m.data ≠ [] ∧ crosses pos 5 = true ∧ crosses (pos + 5) m.data.length = true ∧
    m.data.length ≤ grown crosses pos 5 cap

instance (crosses : Nat → Nat → Bool) (pos cap : Nat) (m : RawMessage) :
    Decidable (m.Overwritten crosses pos cap) := inferInstanceAs (Decidable (_ ∧ _))

/-- The first byte of the payload looks as much like the type of a Sync as the
byte of the type. -/
def SameSync (m : RawMessage) : Prop := m.data.headD 0 = kPostgresSync ↔ m.kind = kPostgresSync

end RawMessage

/-- Of each message whose header is written over in one of two chunkings only,
the first byte of the payload says the same as the type. -/
def SyncsAgree (first second : Nat → Nat → Bool) : Nat → Nat → Nat → List RawMessage → Prop
  | _, _, _, [] => True
  | pos, cap, cap', m :: rest =>
    ((m.Overwritten first pos cap ↔ m.Overwritten second pos cap') ∨ m.SameSync) ∧
      SyncsAgree first second (pos + 5 + m.data.length) (m.capAfter first pos cap)
        (m.capAfter second pos cap') rest

/-! ## The Bind command -/

/-- The bytes in front of the first zero, and those behind it. -/
def cstr (b : List UInt8) : Option (List UInt8 × List UInt8) := match b.findIdx? (· == 0) with
  | none => none
  | some i => some (b.take i, b.drop (i + 1))

/-- So many format codes, and what follows. -/
def formatCodes : Nat → List UInt8 → Option (List (List UInt8) × List UInt8)
  | 0, b => some ([], b)
  | count + 1, b =>
    if b.length < 2 ∨ Scalar.decode .u16be (b.take 2) > 1 then none
    else (formatCodes count (b.drop 2)).map fun (codes, rest) => (b.take 2 :: codes, rest)

/-- The number of format codes with the codes, and what follows. -/
def formats (b : List UInt8) : Option (List (List UInt8) × List UInt8) :=
  if b.length < 2 ∨ Scalar.decode .u16be (b.take 2) > ((b.length - 2 : Nat) : Int) / 2 then none
  else
    (formatCodes (Scalar.decode .u16be (b.take 2)).toNat (b.drop 2)).map fun (codes, rest) =>
      (b.take 2 :: codes, rest)

/-- So many parameters: the pieces they are read in, and the values. -/
def parameters : Nat → List UInt8 → Option (List (List UInt8) × List (List UInt8))
  | 0, _ => some ([], [])
  | count + 1, b =>
    if b.length < 4 then none
    else
      let length := Scalar.decode .i32be (b.take 4)
      if length < 0 then
        (parameters count (b.drop 4)).map fun (pieces, values) => (b.take 4 :: pieces, values)
      else
        let value := (b.drop 4).take length.toNat
        (parameters count ((b.drop 4).drop length.toNat)).map fun (pieces, values) =>
          (b.take 4 :: value :: pieces, value :: values)

/-- A Bind command: its names, the pieces that are read behind them, and the
values of the parameters. -/
structure BindCommand where
  (statement portal : List UInt8)
  (pieces args : List (List UInt8))

def readBind (body : List UInt8) : Except PgError BindCommand := match cstr body with
  | none => .error .tooShortStatement
  | some (statement, rest) => match cstr rest with
    | none => .error .tooShortPortal
    | some (portal, rest) => match formats rest with
      | none => .error .tooShortFormatCodes
      | some (codes, rest) =>
        if rest.length < 2 then .error .tooShortParams
        else match parameters (Scalar.decode .i16be (rest.take 2)).toNat (rest.drop 2) with
        | none => .error .tooShortParams
        | some (pieces, values) => .ok ⟨statement, portal, codes ++ rest.take 2 :: pieces, values⟩

/-- The body of the first message of a byte string. -/
def bindBytes (bytes : List UInt8) : Except PgError (List UInt8) :=
  if bytes.length < 5 then .error .tooShort
  else
    let endOff := min (1 + Scalar.decode .i32be ((bytes.drop 1).take 4)) bytes.length
    if endOff < 5 then .error .tooShort else .ok ((bytes.take endOff.toNat).drop 5)

namespace BindCommand

/-- Where the portal and what is behind it start, of a body at position 5. -/
def portalAt (m : BindCommand) : Nat := 5 + (m.statement.length + 1)

def piecesAt (m : BindCommand) : Nat := m.portalAt + (m.portal.length + 1)

/-- A name lies in the scratch memory. -/
def Copied (crosses : Nat → Nat → Bool) (pos : Nat) (name : List UInt8) : Prop :=
  name ≠ [] ∧ crosses pos name.length = true

instance (crosses : Nat → Nat → Bool) (pos : Nat) (name : List UInt8) :
    Decidable (Copied crosses pos name) := inferInstanceAs (Decidable (_ ∧ _))

/-- What is left of the portal when everything was read. -/
def portalLeft (crosses : Nat → Nat → Bool) (m : BindCommand) : List UInt8 :=
  if Copied crosses m.portalAt m.portal then
    Scratch.leftBy
      (max (if Copied crosses 5 m.statement then m.statement.length else 0) m.portal.length)
      (crossing crosses m.piecesAt m.pieces) m.portal
  else m.portal

/-- What is left of the statement. -/
def statementLeft (crosses : Nat → Nat → Bool) (m : BindCommand) : List UInt8 :=
  if Copied crosses 5 m.statement then
    Scratch.leftBy m.statement.length
      (crossing crosses m.portalAt [m.portal] ++ crossing crosses m.piecesAt m.pieces) m.statement
  else m.statement

end BindCommand

/-- Of a Bind command that can be read, the same is left of its names in two
chunkings. -/
def NamesAgree (first second : Nat → Nat → Bool) (bytes : List UInt8) : Prop :=
  ∀ body m, bindBytes bytes = .ok body → readBind body = .ok m →
    m.statementLeft first = m.statementLeft second ∧ m.portalLeft first = m.portalLeft second

end Obi.Spec.Postgres
