import Obi.Ref.SliceReader

/-!
# Postgres messages

The iterator over the messages of a request, and the parser of a Bind command.
Both keep slices of the reader across later reads: the iterator looks at the type
byte of a header once more after it has read the payload, and the Bind parser
copies the names when it has read everything else.
-/

namespace Obi.Ref.Postgres
open Lib SliceParser

def postgresHdrSize : Nat := 5

inductive PgError
  | tooShort | tooShortStatement | tooShortPortal | tooShortFormatCodes | tooShortParams
  | remainingTooShortHeader | malformedMessage | remainingTooShortMessageData
  | read (err : ReaderError)
deriving DecidableEq

/-- The text of the errors of this package. -/
def PgError.text : PgError → Option String
  | .tooShort => some "too short"
  | .tooShortStatement => some "too short, while parsing statement"
  | .tooShortPortal => some "too short, while parsing portal"
  | .tooShortFormatCodes => some "too short, while parsing format codes"
  | .tooShortParams => some "too short, while parsing params"
  | .remainingTooShortHeader => some "remaining buffer too short for message header"
  | .malformedMessage => some "malformed Postgres message"
  | .remainingTooShortMessageData => some "remaining buffer too short for message data"
  | .read _ => none

/-! ## The iterator -/

/-- The command ids of `SQLParseCommandID`. -/
inductive CommandID
  | query | bind | execute | parse | none
deriving DecidableEq, Repr

def CommandID.text : CommandID → String
  | .query => "QUERY"
  | .bind => "BIND"
  | .execute => "EXECUTE"
  | .parse => "PARSE"
  | .none => ""

/-- The id of a message type: `Q`, `B`, `E` or `P`. -/
def postgresCommandID (messageType : UInt8) : CommandID := match messageType.toNat with
  | 0x51 => .query
  | 0x42 => .bind
  | 0x45 => .execute
  | 0x50 => .parse
  | _ => .none

def kPostgresSync : UInt8 := 0x53

structure PostgresMessage where
  typ : CommandID
  data : List UInt8
  (isPartial sync : Bool)
deriving DecidableEq, Repr

/-- What `next` leaves: the end of the input, an error, or a message. -/
inductive Next
  | eof
  | err (err : PgError)
  | message (typ : CommandID) (data : Slice UInt8) (isPartial sync : Bool)

def next : SliceParser Next := do
  let remaining ← SliceParser.remaining
  if remaining = 0 then return .eof
  else if remaining < postgresHdrSize then return .err .remainingTooShortHeader
  else match ← readN postgresHdrSize with
  | .error err => return .err (.read err)
  | .ok hdrBuf =>
    let hdr ← load hdrBuf
    let msgType := postgresCommandID (hdr.headD 0)
    let size := Scalar.decode .i32be ((hdr.drop 1).take 4)
    if size < postgresHdrSize - 1 then return .err .malformedMessage
    else
      let remaining ← SliceParser.remaining
      let payloadSize := size - postgresHdrSize + 1
      let isPartial := remaining < payloadSize
      if isPartial ∧ msgType ≠ .parse then return .err .remainingTooShortMessageData
      else
        let payloadSize := if isPartial then remaining else payloadSize
        -- a payload of no bytes is an empty slice of its own
        match ← readN payloadSize with
        | .error err => return .err (.read err)
        | .ok data =>
          let hdr ← load hdrBuf
          return .message msgType data isPartial (hdr.headD 0 = kPostgresSync)

/-- The messages, with what is seen of the payload before the next call, and how
they end. -/
def messagesFrom : Nat → SliceParser (List PostgresMessage × Option PgError)
  | 0 => return ([], none)
  | rounds + 1 => do
      match ← next with
      | .eof => return ([], none)
      | .err err => return ([], some err)
      | .message typ data isPartial sync =>
        let seen ← load data
        let (rest, ending) ← messagesFrom rounds
        return (⟨typ, seen, isPartial, sync⟩ :: rest, ending)

/-- Every message takes a byte at least. -/
def iterate : SliceParser (List PostgresMessage × Option PgError) := do
  let remaining ← SliceParser.remaining
  messagesFrom (remaining.toNat + 1)

/-! ## The Bind command -/

/-- The loop over the format codes, `none` standing for a failed check. -/
def formatsLoop : Nat → SliceParser (Option Unit)
  | 0 => return some ()
  | count + 1 => do
      match ← readScalar .u16be with
      | .error _ => return none
      | .ok format => if format > 1 then return none else formatsLoop count

def readPostgresFormats : SliceParser (Option Int) := do
  match ← readScalar .u16be with
  | .error _ => return none
  | .ok count =>
    let remaining ← SliceParser.remaining
    if count > remaining / 2 then return none
    else match ← formatsLoop count.toNat with
    | none => return none
    | some () => return some count

def argsLoop : Nat → List (List UInt8) → SliceParser (Except PgError (List (List UInt8)))
  | 0, args => return .ok args
  | params + 1, args => do
      match ← readScalar .i32be with
      | .error _ => return .error .tooShortParams
      | .ok argLen =>
        if argLen < 0 then argsLoop params args
        else
          let remaining ← SliceParser.remaining
          match ← readN (min argLen remaining) with
          | .error _ => return .error .tooShortParams
          | .ok arg =>
            let b ← load arg
            argsLoop params (args ++ [b])

/-- The names and the arguments; the names are copied last. -/
def bindBody : SliceParser (Except PgError (List UInt8 × List UInt8 × List (List UInt8))) := do
  match ← readCStr with
  | .error _ => return .error .tooShortStatement
  | .ok stmtBytes => match ← readCStr with
    | .error _ => return .error .tooShortPortal
    | .ok portalBytes => match ← readPostgresFormats with
      | none => return .error .tooShortFormatCodes
      | some _ => match ← readScalar .i16be with
        | .error _ => return .error .tooShortParams
        | .ok params => match ← argsLoop params.toNat [] with
          | .error err => return .error err
          | .ok args =>
            let stmt ← load stmtBytes
            let portal ← load portalBytes
            return .ok (stmt, portal, args)

/-- The reader of the body of the message, or the error. -/
def msgBodyReader (b : LargeBuffer) : Option (Except PgError LargeBufferReader) :=
  match viewAt b 1 4 with
  | none => some (.error .tooShort)
  | some sizeBytes =>
    let endOff := min (1 + Scalar.decode .i32be sizeBytes) b.total
    if endOff < postgresHdrSize then some (.error .tooShort)
    else (b.newLimitedReader postgresHdrSize endOff).map fun r => r.mapError .read

/-- `none` stands for a panic. -/
def parsePostgresBindCommand (b : LargeBuffer) :
    Option (Except PgError (List UInt8 × List UInt8 × List (List UInt8))) :=
  match msgBodyReader b with
  | none => none
  | some (.error err) => some (.error err)
  | some (.ok r) => bindBody.onReader r

/-! ## The options of a startup message -/

def isPostgresOptionsSpace (c : UInt8) : Bool := c = 32 ∨ 9 ≤ c ∧ c ≤ 13

structure OptionsSplit where
  args : List (List UInt8) := []
  arg : List UInt8 := []
  inArg : Bool := false
  escaped : Bool := false

def OptionsSplit.step (st : OptionsSplit) (c : UInt8) : OptionsSplit :=
  if st.escaped then { st with arg := st.arg ++ [c], escaped := false }
  else if c = 92 then { st with escaped := true, inArg := true }
  else if isPostgresOptionsSpace c then
    if st.inArg then { st with args := st.args ++ [st.arg], arg := [], inArg := false } else st
  else { st with arg := st.arg ++ [c], inArg := true }

def OptionsSplit.finish (st : OptionsSplit) : List (List UInt8) :=
  if st.inArg then st.args ++ [st.arg] else st.args

def splitPostgresOptions (options : List UInt8) : List (List UInt8) :=
  (options.foldl OptionsSplit.step {}).finish

end Obi.Ref.Postgres
