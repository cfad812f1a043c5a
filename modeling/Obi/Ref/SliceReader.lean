import Obi.Lib.Scratch
import Obi.Lib.Script
import Obi.Ref.LargeBuffer

/-!
# The reader and its scratch slice

`ReadN` and `Peek` return a slice and not its bytes: one of the current chunk
when that holds all of them, else one of the scratch slice of the reader, which
the next such call writes into again. A parser that keeps a slice across a call
finds there what the call has left.

A parser is a program over the calls on its reader. It looks at the bytes of a
slice with `load`, where the source does.
-/

namespace Obi.Ref
open Lib

/-- The reader with the memory behind `scratch`. -/
structure SliceReader where
  reader : LargeBufferReader
  memory : Scratch UInt8

namespace SliceReader

abbrev Outcome (α : Type) := Option (Except ReaderError α × SliceReader)

def readN (r : SliceReader) (n : Int) : Outcome (Slice UInt8) :=
  if n = 0 then some (.ok (.fixed []), r)
  else match r.reader.remaining with
  | none => none
  | some rem =>
    if n < 0 ∨ rem < n then some (.error (.requested .readN n rem), r)
    else match r.reader.fastPath n.toNat with
    | some chunk => match sliceOf chunk r.reader.roff (r.reader.roff + n.toNat) with
      | none => none
      | some s => some (.ok (.fixed s), { r with reader := r.reader.advance chunk n.toNat })
    | none => match r.reader.copyN n.toNat with
      | none => none
      | some (s, reader) =>
        let memory := r.memory.write s
        some (.ok (memory.view s.length), ⟨reader, memory⟩)

def peek (r : SliceReader) (n : Int) : Outcome (Slice UInt8) :=
  if n = 0 then some (.ok (.fixed []), r)
  else match r.reader.remaining with
  | none => none
  | some rem =>
    if n < 0 ∨ rem < n then some (.error (.requested .peek n rem), r)
    else match r.reader.fastPath n.toNat with
    | some chunk => match sliceOf chunk r.reader.roff (r.reader.roff + n.toNat) with
      | none => none
      | some s => some (.ok (.fixed s), r)
    | none => match r.reader.copyN n.toNat with
      | none => none
      | some (s, reader) =>
        let memory := r.memory.write s
        some (.ok (memory.view s.length),
          ⟨{ reader with rchunk := r.reader.rchunk, roff := r.reader.roff }, memory⟩)

def skip (r : SliceReader) (n : Int) : Outcome Unit := match r.reader.skip n with
  | none => none
  | some (res, reader) => some (res, { r with reader := reader })

end SliceReader

/-! ## Programs -/

inductive SliceCall
  | remaining
  | indexByte (c : UInt8)
  | readN (n : Int)
  | peek (n : Int)
  | skip (n : Int)
  | load (s : Slice UInt8)

abbrev SliceCall.Answer : SliceCall → Type
  | .remaining | .indexByte _ => Int
  | .readN _ | .peek _ => Except ReaderError (Slice UInt8)
  | .skip _ => Except ReaderError Unit
  | .load _ => List UInt8

def SliceReader.answer : (call : SliceCall) → SliceReader → Option (call.Answer × SliceReader)
  | .remaining, r => r.reader.remaining.map fun n => (n, r)
  | .indexByte c, r => (r.reader.indexByte c).map fun n => (n, r)
  | .readN n, r => r.readN n
  | .peek n, r => r.peek n
  | .skip n, r => r.skip n
  | .load s, r => some (r.memory.load s, r)

/-- A parser that reads through slices. -/
abbrev SliceParser (α : Type) := Script SliceCall.Answer α

namespace SliceParser

def remaining : SliceParser Int := Script.query SliceCall.remaining

def indexByte (c : UInt8) : SliceParser Int := Script.query (SliceCall.indexByte c)

def readN (n : Int) : SliceParser (Except ReaderError (Slice UInt8)) :=
  Script.query (SliceCall.readN n)

def peek (n : Int) : SliceParser (Except ReaderError (Slice UInt8)) :=
  Script.query (SliceCall.peek n)

def skip (n : Int) : SliceParser (Except ReaderError Unit) := Script.query (SliceCall.skip n)

def load (s : Slice UInt8) : SliceParser (List UInt8) := Script.query (SliceCall.load s)

/-- `ReadU16BE` and the others: the bytes are looked at at once. -/
def readScalar (k : Scalar) : SliceParser (Except ReaderError Int) := do
  match ← readN k.width with
  | .error e => return .error e
  | .ok s =>
    let b ← load s
    return .ok (k.decode b)

def readCStr : SliceParser (Except ReaderError (Slice UInt8)) := do
  let n ← indexByte 0
  if n < 0 then return .error .noNull
  else match ← readN n with
  | .error e => return .error e
  | .ok s => match ← skip 1 with
    | .error (.requested _ k rem) => return .error (.skipNull k rem)
    | .error e => return .error e
    | .ok () => return .ok s

/-- The run of a parser on a new reader of a buffer. -/
def onReader {α : Type} (p : SliceParser α) (r : LargeBufferReader) : Option α :=
  (p.run SliceReader.answer ⟨r, Scratch.none⟩).map Prod.fst

end SliceParser

/-! ## Absolute offsets -/

/-- The error of a range that is not in the buffer. -/
def rangeText (call : String) (absOff n : Int) (total : Nat) : String :=
  "LargeBuffer." ++ call ++ ": offset " ++ toString absOff ++ " with length " ++ toString n ++
    " out of range [0, " ++ toString total ++ ")"

/-- The copy loop of `UnsafeViewAt` and `CopyAt`, over the chunks from the current
one on. -/
def copyChunks : List (List UInt8) → Nat → Nat → Option (List UInt8)
  | _, _, 0 => some []
  -- the index is past the last chunk
  | [], _, _ + 1 => none
  | chunk :: rest, off, n + 1 => match sliceFrom chunk off with
    | none => none
    | some src => (copyChunks rest 0 (n + 1 - src.length)).map (src.take (n + 1) ++ ·)

/-- The memory is the scratch slice of the buffer. -/
def LargeBuffer.unsafeViewAt (lb : LargeBuffer) (absOff n : Int) (memory : Scratch UInt8) :
    Option (Except String (Slice UInt8) × Scratch UInt8) :=
  if absOff < 0 ∨ n < 0 ∨ lb.total < absOff ∨ lb.total - absOff < n then
    some (.error (rangeText "UnsafeViewAt" absOff n lb.total), memory)
  else if n = 0 then some (.ok (.fixed []), memory)
  else match lb.findChunk absOff with
  | none => none
  | some (ci, off) => match lb.chunks[ci]? with
    | none => none
    | some chunk =>
      if off + n.toNat ≤ chunk.length then
        (sliceOf chunk off (off + n.toNat)).map fun s => (.ok (.fixed s), memory)
      else
        (copyChunks (lb.chunks.drop ci) off n.toNat).map fun s =>
          (.ok ((memory.write s).view s.length), memory.write s)

/-- The bytes of a view that are looked at at once, as the scalar reads do; `none` stands for
the error. -/
def viewAt (lb : LargeBuffer) (absOff n : Nat) : Option (List UInt8) :=
  (lb.unsafeViewAt absOff n Scratch.none).bind fun (view, memory) =>
    (view.map memory.load).toOption

/-- What `CopyAt` leaves in a destination of `n` bytes. -/
def LargeBuffer.copyAt (lb : LargeBuffer) (absOff : Int) (n : Nat) :
    Option (Except String (List UInt8)) :=
  if absOff < 0 ∨ lb.total < absOff ∨ lb.total - absOff < n then
    some (.error (rangeText "CopyAt" absOff n lb.total))
  else if n = 0 then some (.ok [])
  else match lb.findChunk absOff with
  | none => none
  | some (ci, off) => (copyChunks (lb.chunks.drop ci) off n).map .ok

end Obi.Ref
