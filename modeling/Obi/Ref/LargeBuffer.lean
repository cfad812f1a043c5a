import Mathlib.Data.UInt

/-!
# The large buffer and its reader

Payloads too big for one event reach user space in pieces, which
`largebuf.LargeBuffer` keeps as they came: a list of chunks that are never
joined. The protocol parsers read them through a `LargeBufferReader`, whose
cursor is a chunk index and an offset in that chunk, with an end bound for the
readers that see only a part of the buffer.

An index or a slice expression that leaves its slice makes the Go program
panic. It is `none` here, in every function that contains such an expression,
and so is a loop that runs out of passes. The scratch slice the reader copies
into is not state of the model: a call returns the bytes it holds at that
moment.
-/

namespace Obi.Ref

/-- The chunks, and the running total of their lengths. -/
structure LargeBuffer where
  chunks : List (List UInt8)
  total : Nat
  total_eq : total = chunks.flatten.length

def newLargeBuffer : LargeBuffer where
  chunks := []
  total := 0
  total_eq := rfl

variable (lb : LargeBuffer)

def LargeBuffer.appendChunk (data : List UInt8) : LargeBuffer where
  chunks := lb.chunks ++ [data]
  total := lb.total + data.length
  total_eq := by simp [lb.total_eq]

/-- A copy of all chunks, one after the other. -/
def LargeBuffer.cloneBytes : List UInt8 := lb.chunks.flatten

/-- The reader. `endOff` is the absolute end bound, `none` standing for the
`-1` of a reader without a limit. -/
structure LargeBufferReader where
  lb : LargeBuffer
  (rchunk roff : Nat)
  endOff : Option Nat

/-- The calls that check a length against what is left. -/
inductive SizedCall
  | readN | peek | skip
  deriving DecidableEq, Repr

inductive ReaderError
  | requested (call : SizedCall) (n remaining : Int)
  | noNull
  | skipNull (n remaining : Int)
  | offsetRange (offset : Int) (total : Nat)
  | endRange (endOff offset : Int) (total : Nat)
  | eof
  deriving DecidableEq, Repr

def SizedCall.name : SizedCall → String
  | .readN => "LargeBuffer.ReadN"
  | .peek => "LargeBuffer.Peek"
  | .skip => "LargeBuffer.Skip"

def SizedCall.text (call : SizedCall) (n remaining : Int) : String :=
  call.name ++ ": requested " ++ toString n ++ " bytes but only "
    ++ toString remaining ++ " remaining"

def ReaderError.text : ReaderError → String
  | .requested call n remaining => call.text n remaining
  | .noNull => "LargeBuffer.ReadCStr: no null terminator found"
  | .skipNull n remaining =>
    "LargeBuffer.ReadCStr: failed to skip null terminator: " ++ SizedCall.text .skip n remaining
  | .offsetRange offset total =>
    "LargeBuffer.NewLimitedReader: offset " ++ toString offset
      ++ " out of range [0, " ++ toString total ++ "]"
  | .endRange endOff offset total =>
    "LargeBuffer.NewLimitedReader: end " ++ toString endOff
      ++ " out of range [" ++ toString offset ++ ", " ++ toString total
      ++ "]"
  | .eof => "EOF"

/-! ## Slices -/

/-- `s[lo:]`. -/
def sliceFrom (s : List UInt8) (lo : Nat) : Option (List UInt8) :=
  if lo ≤ s.length then some (s.drop lo) else none

/-- `s[lo:hi]`. -/
def sliceOf (s : List UInt8) (lo hi : Nat) : Option (List UInt8) :=
  if lo ≤ hi ∧ hi ≤ s.length then some ((s.drop lo).take (hi - lo)) else none

/-! ## The cursor -/

namespace LargeBufferReader

variable (r : LargeBufferReader)

def reset : LargeBufferReader := { r with rchunk := 0, roff := 0 }

def readOffset : Option Nat :=
  if r.rchunk ≤ r.lb.chunks.length then
    some (((r.lb.chunks.take r.rchunk).map List.length).sum + r.roff)
  else none

def effectiveEnd : Nat := r.endOff.getD r.lb.total

def remaining : Option Int := match r.readOffset with
  | none => none
  | some off => some ((r.effectiveEnd : Int) - off)

/-- Move `k` bytes on in the current chunk, and to the next one if this is its
end. -/
def advance (chunk : List UInt8) (k : Nat) : LargeBufferReader :=
  if r.roff + k = chunk.length then
    { r with rchunk := r.rchunk + 1, roff := 0 }
  else { r with roff := r.roff + k }

/-- One pass of the loops of `copyN` and `Read`, with `need` bytes of the
destination still to be filled. -/
def copyStep (need : Nat) : Option (List UInt8 × LargeBufferReader) :=
  match r.lb.chunks[r.rchunk]? with
  | none => none
  | some chunk => match sliceFrom chunk r.roff with
    | none => none
    | some src => some (src.take need, r.advance chunk (src.take need).length)

def copyLoop : Nat → LargeBufferReader → Nat → Option (List UInt8 × LargeBufferReader)
  | 0, r, need => if need = 0 then some ([], r) else none
  | fuel + 1, r, need =>
    if need = 0 then some ([], r)
    else match copyStep r need with
    | none => none
    | some (copied, r') => match copyLoop fuel r' (need - copied.length) with
      | none => none
      | some (rest, r'') => some (copied ++ rest, r'')

/-- Every pass but the last leaves its chunk, which bounds the passes. -/
def copyN (n : Nat) : Option (List UInt8 × LargeBufferReader) :=
  copyLoop (r.lb.chunks.length + 1) r n

/-- Whether the next `n` bytes lie in the current chunk, and that chunk. -/
def fastPath (n : Nat) : Option (List UInt8) := match r.lb.chunks[r.rchunk]? with
  | none => none
  | some chunk => if r.roff + n ≤ chunk.length then some chunk else none

abbrev Outcome (α : Type) := Option (Except ReaderError α × LargeBufferReader)

def readN (r : LargeBufferReader) (n : Int) : Outcome (List UInt8) :=
  if n = 0 then some (.ok [], r)
  else match r.remaining with
  | none => none
  | some rem =>
    if n < 0 ∨ rem < n then some (.error (.requested .readN n rem), r)
    else match r.fastPath n.toNat with
    | some chunk => match sliceOf chunk r.roff (r.roff + n.toNat) with
      | none => none
      | some s => some (.ok s, r.advance chunk n.toNat)
    | none => match r.copyN n.toNat with
      | none => none
      | some (s, r') => some (.ok s, r')

def peek (r : LargeBufferReader) (n : Int) : Outcome (List UInt8) :=
  if n = 0 then some (.ok [], r)
  else match r.remaining with
  | none => none
  | some rem =>
    if n < 0 ∨ rem < n then some (.error (.requested .peek n rem), r)
    else match r.fastPath n.toNat with
    | some chunk => match sliceOf chunk r.roff (r.roff + n.toNat) with
      | none => none
      | some s => some (.ok s, r)
    | none => match r.copyN n.toNat with
      | none => none
      | some (s, r') => some (.ok s, { r' with rchunk := r.rchunk, roff := r.roff })

def skipLoop : Nat → LargeBufferReader → Nat → Option LargeBufferReader
  | 0, r, n => if n = 0 then some r else none
  | fuel + 1, r, n =>
    if n = 0 then some r
    else match r.lb.chunks[r.rchunk]? with
    | none => none
    | some chunk =>
      let avail : Int := (chunk.length : Int) - r.roff
      if (n : Int) < avail then some { r with roff := r.roff + n }
      else
        skipLoop fuel { r with rchunk := r.rchunk + 1, roff := 0 } ((n : Int) - avail).toNat

def skip (r : LargeBufferReader) (n : Int) : Outcome Unit := match r.remaining with
  | none => none
  | some rem =>
    if n < 0 ∨ rem < n then some (.error (.requested .skip n rem), r)
    else match skipLoop (r.lb.chunks.length + 1) r n.toNat with
    | none => none
    | some r' => some (.ok (), r')

def readLoop : Nat → LargeBufferReader → Nat → Option (List UInt8 × LargeBufferReader)
  | 0, r, need =>
    if need = 0 ∨ r.lb.chunks.length ≤ r.rchunk then some ([], r) else none
  | fuel + 1, r, need =>
    if need = 0 ∨ r.lb.chunks.length ≤ r.rchunk then some ([], r)
    else match copyStep r need with
    | none => none
    | some (copied, r') => match readLoop fuel r' (need - copied.length) with
      | none => none
      | some (rest, r'') => some (copied ++ rest, r'')

/-- `Read` into a slice of length `len`. Go slices `p[:maxRead]`, which panics
when `maxRead` is negative. -/
def read (len : Nat) : Outcome (List UInt8) := match r.remaining with
  | none => none
  | some maxRead =>
    if maxRead = 0 then some (.error .eof, r)
    else if maxRead < 0 then none
    else match readLoop (r.lb.chunks.length + 1) r (min len maxRead.toNat) with
    | none => none
    | some (p, r') => some (.ok p, r')

/-- The unread bytes. The error of `Peek` is dropped, and the slice is then
`nil`. -/
def bytes : Outcome (List UInt8) := match r.remaining with
  | none => none
  | some rem =>
    if rem = 0 then some (.ok [], r)
    else match r.peek rem with
    | none => none
    | some (.ok b, r') => some (.ok b, r')
    | some (.error _, r') => some (.ok [], r')

end LargeBufferReader

/-! ## Searching -/

def findChunkFrom (absOff : Nat) : Nat → Nat → List (List UInt8) → Option (Nat × Nat)
  | _, _, [] => none
  | i, pos, chunk :: rest =>
    if absOff < pos + chunk.length then some (i, absOff - pos)
    else findChunkFrom absOff (i + 1) (pos + chunk.length) rest

/-- The chunk and the offset in it of an absolute offset, `none` standing for
the chunk index `-1`. -/
def LargeBuffer.findChunk (absOff : Int) : Option (Nat × Nat) :=
  if absOff < 0 ∨ (lb.total : Int) ≤ absOff then none
  else findChunkFrom absOff.toNat 0 0 lb.chunks

/-- A byte at an absolute offset. -/
def u8At (absOff : Int) : Option UInt8 := match lb.findChunk absOff with
  | none => none
  | some (i, off) => (lb.chunks[i]?).bind fun chunk => chunk[off]?

/-- The loop of `IndexByteAt` over the chunks from the current one on. -/
def indexByteFrom (c : UInt8) : List (List UInt8) → Nat → Nat → Option Int
  | [], _, _ => some (-1)
  | chunk :: rest, off, abs => match sliceFrom chunk off with
    | none => none
    | some src => match src.findIdx? (· == c) with
      | some idx => some ((abs + idx : Nat) : Int)
      | none => indexByteFrom c rest 0 (abs + src.length)

def LargeBuffer.indexByteAt (absOff : Int) (c : UInt8) : Option Int :=
  if absOff < 0 ∨ (lb.total : Int) ≤ absOff then some (-1)
  else match lb.findChunk absOff with
  | none => none
  | some (ci, off) => indexByteFrom c (lb.chunks.drop ci) off absOff.toNat

namespace LargeBufferReader

def indexByte (r : LargeBufferReader) (c : UInt8) : Option Int := match r.readOffset with
  | none => none
  | some absOff => match r.lb.indexByteAt absOff c with
    | none => none
    | some absIdx =>
      if absIdx < 0 then some (-1)
      else match r.endOff with
      | some e =>
        if (e : Int) ≤ absIdx then some (-1)
        else some (absIdx - absOff)
      | none => some (absIdx - absOff)

def readCStr (r : LargeBufferReader) : Outcome (List UInt8) := match r.indexByte 0 with
  | none => none
  | some n =>
    if n < 0 then some (.error .noNull, r)
    else match r.readN n with
    | none => none
    | some (.error e, r') => some (.error e, r')
    | some (.ok b, r') => match r'.skip 1 with
      | none => none
      | some (.error (.requested _ k rem), r'') => some (.error (.skipNull k rem), r'')
      | some (.error e, r'') => some (.error e, r'')
      | some (.ok _, r'') => some (.ok b, r'')

end LargeBufferReader

/-! ## Scalars -/

/-- The fixed-width reads, named by width, sign and byte order. -/
inductive Scalar
  | u8 | u16be | i16be | u32be | i32be | u64be | i64be
  | u16le | i16le | u32le | i32le | u64le | i64le
  deriving DecidableEq, Repr

def Scalar.width : Scalar → Nat
  | .u8 => 1
  | .u16be | .i16be | .u16le | .i16le => 2
  | .u32be | .i32be | .u32le | .i32le => 4
  | .u64be | .i64be | .u64le | .i64le => 8

def Scalar.signed : Scalar → Bool
  | .i16be | .i32be | .i64be | .i16le | .i32le | .i64le => true
  | _ => false

def Scalar.littleEndian : Scalar → Bool
  | .u16le | .i16le | .u32le | .i32le | .u64le | .i64le => true
  | _ => false

/-- `binary.BigEndian.UintN`. -/
def bigEndian (b : List UInt8) : Nat := b.foldl (fun acc x => acc * 256 + x.toNat) 0

/-- The value of the bytes read, a signed one through Go's conversion of the
unsigned one. -/
def Scalar.decode (k : Scalar) (b : List UInt8) : Int :=
  let v := bigEndian (if k.littleEndian then b.reverse else b)
  if k.signed ∧ 2 ^ (8 * k.width - 1) ≤ v then (v : Int) - 2 ^ (8 * k.width)
  else v

/-- One of the scalar reads. Indexing the bytes `ReadN` returned panics when
they are too few. -/
def LargeBufferReader.readScalar (r : LargeBufferReader) (k : Scalar) :
    LargeBufferReader.Outcome Int :=
  match r.readN k.width with
  | none => none
  | some (.error e, r') => some (.error e, r')
  | some (.ok b, r') =>
    if b.length < k.width then none else some (.ok (k.decode b), r')

/-! ## Readers of a buffer -/

def LargeBuffer.newReader : LargeBufferReader where
  lb := lb
  rchunk := 0
  roff := 0
  endOff := none

def LargeBuffer.newLimitedReader (offset endOff : Int) :
    Option (Except ReaderError LargeBufferReader) :=
  if offset < 0 ∨ (lb.total : Int) < offset then
    some (.error (.offsetRange offset lb.total))
  else if endOff < offset ∨ (lb.total : Int) < endOff then
    some (.error (.endRange endOff offset lb.total))
  else if 0 < offset then
    match lb.newReader.skip offset with
    | none => none
    | some (.error e, _) => some (.error e)
    | some (.ok _, r) => some (.ok { r with endOff := some endOff.toNat })
  else some (.ok { lb.newReader with endOff := some endOff.toNat })

/-- How a parser gets its reader. -/
inductive ReaderSource
  | newReader
  | newLimitedReader (offset endOff : Int)

def LargeBuffer.openReader : ReaderSource → Option (Except ReaderError LargeBufferReader)
  | .newReader => some (.ok lb.newReader)
  | .newLimitedReader offset endOff => lb.newLimitedReader offset endOff

/-! ## Calls on a reader -/

/-- What a parser does with a reader, and the appends that come in between. -/
inductive ReaderOp
  | readN (n : Int)
  | peek (n : Int)
  | skip (n : Int)
  | read (len : Nat)
  | readCStr
  | indexByte (c : UInt8)
  | bytes | reset
  | readScalar (k : Scalar)
  | appendChunk (data : List UInt8)

inductive ReaderValue
  | bytes (b : List UInt8)
  | value (v : Int)
  | done
  deriving DecidableEq, Repr

def LargeBufferReader.Outcome.to {α : Type} (f : α → ReaderValue) :
    LargeBufferReader.Outcome α → LargeBufferReader.Outcome ReaderValue
  | none => none
  | some (.error e, r) => some (.error e, r)
  | some (.ok a, r) => some (.ok (f a), r)

def LargeBufferReader.call (r : LargeBufferReader) :
    ReaderOp → LargeBufferReader.Outcome ReaderValue
  | .readN n => (r.readN n).to .bytes
  | .peek n => (r.peek n).to .bytes
  | .skip n => (r.skip n).to fun _ => .done
  | .read len => (r.read len).to .bytes
  | .readCStr => r.readCStr.to .bytes
  | .indexByte c => (r.indexByte c).map fun i => (.ok (.value i), r)
  | .bytes => r.bytes.to .bytes
  | .reset => some (.ok .done, r.reset)
  | .readScalar k => (r.readScalar k).to .value
  | .appendChunk data => some (.ok .done, { r with lb := r.lb.appendChunk data })

/-- What a caller sees of one call: the result, and `ReadOffset` and
`Remaining` around it. -/
structure CallRecord where
  result : Except ReaderError ReaderValue
  (offsetBefore offset : Nat)
  remaining : Int

/-- The records of a sequence of calls. -/
def LargeBufferReader.run (r : LargeBufferReader) : List ReaderOp → Option (List CallRecord)
  | [] => some []
  | op :: ops => match r.readOffset, r.call op with
    | some before, some (res, r') => match r'.readOffset, r'.remaining, r'.run ops with
      | some off, some rem, some rest => some (⟨res, before, off, rem⟩ :: rest)
      | _, _, _ => none
    | _, _ => none

end Obi.Ref
