import Obi.Ref.SliceReader

/-!
# A tape

What a reader with scratch memory is when the chunks are forgotten but for one
thing: whether the bytes of a read lie across the end of a chunk. The tape has
the bytes that are not read yet, the position of the first of them, and the
memory.
-/

namespace Obi.Spec
open Lib Ref

structure Tape where
  pos : Nat
  rest : List UInt8
  memory : Scratch UInt8

namespace Tape

/-- The tape behind the next `n` bytes. -/
def forward (t : Tape) (n : Nat) : Tape := { t with pos := t.pos + n, rest := t.rest.drop n }

variable (crosses : Nat → Nat → Bool)

/-- The next `n` bytes as a slice: copied to the memory if they cross the end
of a chunk. -/
def slice (t : Tape) (n : Nat) : Slice UInt8 :=
  if crosses t.pos n then (t.memory.write (t.rest.take n)).view n else .fixed (t.rest.take n)

/-- The memory after that. -/
def copied (t : Tape) (n : Nat) : Tape :=
  { t with memory := if crosses t.pos n then t.memory.write (t.rest.take n) else t.memory }

/-- `ReadN`, of any number of bytes there are: the slice, and the tape behind it. -/
def readSlice (t : Tape) (n : Nat) : Slice UInt8 :=
  if n = 0 then .fixed [] else t.slice crosses n

def read (t : Tape) (n : Nat) : Tape :=
  if n = 0 then t else (t.copied crosses n).forward n

/-- The distance to the first `c`. -/
def find (t : Tape) (c : UInt8) : Int := match t.rest.findIdx? (· == c) with
  | none => -1
  | some i => i

def answer : (call : SliceCall) → Tape → call.Answer × Tape
  | .remaining, t => ((t.rest.length : Int), t)
  | .indexByte c, t => (t.find c, t)
  | .readN n, t =>
    if n = 0 then (.ok (.fixed []), t)
    else if n < 0 ∨ t.rest.length < n then (.error (.requested .readN n t.rest.length), t)
    else (.ok (t.slice crosses n.toNat), (t.copied crosses n.toNat).forward n.toNat)
  | .peek n, t =>
    if n = 0 then (.ok (.fixed []), t)
    else if n < 0 ∨ t.rest.length < n then (.error (.requested .peek n t.rest.length), t)
    else (.ok (t.slice crosses n.toNat), t.copied crosses n.toNat)
  | .skip n, t =>
    if n < 0 ∨ t.rest.length < n then (.error (.requested .skip n t.rest.length), t)
    else (.ok (), t.forward n.toNat)
  | .load s, t => (t.memory.load s, t)

end Tape

/-- The length of the scratch memory after the `n` bytes at `pos` were looked at. -/
def grown (crosses : Nat → Nat → Bool) (pos n cap : Nat) : Nat :=
  if crosses pos n then max cap n else cap

/-- The pieces that are copied to the memory, of pieces read one behind the other. -/
def crossing (crosses : Nat → Nat → Bool) : Nat → List (List UInt8) → List (List UInt8)
  | _, [] => []
  | pos, w :: ws =>
    (if w ≠ [] ∧ crosses pos w.length = true then [w] else []) ++
      crossing crosses (pos + w.length) ws

/-- The run of a parser on a tape. -/
abbrev onTape {α : Type} (crosses : Nat → Nat → Bool) (p : SliceParser α) (t : Tape) : α × Tape :=
  p.eval (Tape.answer crosses) t

end Obi.Spec
