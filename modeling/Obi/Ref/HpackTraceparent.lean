import Obi.Ref.TpInfo

/-!
# Reading a traceparent back, `generictracer/hpack_traceparent_parse.h`

The generic tracer scans a captured header block for a literal field with the
name `traceparent`, plain or Huffman encoded. The block is memory of which the
first `data_len` bytes may be read: a load past them is a fault, and a function
here answers `none` when it faults.
-/

namespace Obi.Ref

@[simp] def kH2TpHuffMin : UInt8 := 35
@[simp] def kH2TpHuffMax : UInt8 := 42
@[simp] def kH2TpHpackHuffMin : Nat := 46

/-- Memory that may be read below `dataLen`. -/
structure Block where
  data : Nat → UInt8
  dataLen : Nat

variable (b : Block)

def Block.load (i : Nat) : Option UInt8 :=
  if i < b.dataLen then some (b.data i) else none

/-- The `n` bytes from `i` on, faulting when the last of them is out of reach. -/
def Block.loadRange (i n : Nat) : Option (List UInt8) :=
  if i + n ≤ b.dataLen then some ((List.range n).map fun j => b.data (i + j)) else none

/-- A list of bytes as memory. -/
def Block.ofList (bytes : List UInt8) : Block := ⟨fun i => bytes.getD i 0, bytes.length⟩

/-- `h2_tp_huff_candidate_t`: a value located and not decoded; no octets when
there is none. -/
structure H2TpHuffCandidate where
  valAt : Nat
  len : UInt8
deriving DecidableEq, Repr

/-- The return value and what the two out-parameters hold. -/
structure HpackTraceparent where
  ret : Bool
  tp : TpInfo
  huff : H2TpHuffCandidate
deriving DecidableEq

def h2TpHuffLenPlausible (lenByte : UInt8) : Bool :=
  if lenByte &&& kHpackHuffmanFlag = 0 then false
  else
    let len := lenByte &&& ~~~kHpackHuffmanFlag
    kH2TpHuffMin ≤ len && len ≤ kH2TpHuffMax

/-- `try_parse_tp_value`. The span id on the wire is the reader's parent. -/
def tryParseTpValue (val : Nat) (tp : TpInfo) : Option (Bool × TpInfo) := do
  let dash1 ← b.load (val + kTpValDash1)
  let dash2 ← b.load (val + kTpValDash2)
  let dash3 ← b.load (val + kTpValDash3)
  if dash1 ≠ 0x2d ∨ dash2 ≠ 0x2d ∨ dash3 ≠ 0x2d then
    return (false, tp)
  let traceId ← b.loadRange (val + kTpValTraceIdStart) 32
  let parentId ← b.loadRange (val + kTpValSpanIdStart) 16
  let flags ← b.loadRange (val + kTpValFlagsStart) 2
  return (true, { tp with
    traceId := decodeHex 16 traceId
    parentId := decodeHex 8 parentId
    flags := (decodeHex 1 flags).val.getD 0 0 })

/-- The two shapes of the field: how long the name is, where the value starts,
how long the whole field is with a plain value, and the name. -/
structure TpShape where
  (nameLen valOffset size : Nat)
  name : List UInt8

def plainShape : TpShape := ⟨kHpackTpNameLen, kHpackTpValOffset, kH2TpHpackSize, kHpackTpName⟩

def huffmanShape : TpShape :=
  ⟨kHpackTpNameHuffmanLen, kHpackTpValOffsetHuffman, kH2TpHpackHuffmanSize, kHpackTpHuffman⟩

/-- A literal at `i` with the length byte of `shape`: `some none` is a
`continue`. -/
def parseShape (tp : TpInfo) (shape : TpShape) (i : Nat) : Option (Option HpackTraceparent) := do
  if i + shape.valOffset > b.dataLen then
    return none
  let name ← b.loadRange (i + kHpackTpNameOffset) shape.nameLen
  if name ≠ shape.name then
    return none
  let vlb ← b.load (i + kHpackTpNameOffset + shape.nameLen)
  if vlb = 55 then
    if i + shape.size > b.dataLen then
      return none
    let (ret, tp) ← tryParseTpValue b (i + shape.valOffset) tp
    return some ⟨ret, tp, ⟨0, 0⟩⟩
  if h2TpHuffLenPlausible vlb then
    return some ⟨false, tp, ⟨i + shape.valOffset, vlb &&& ~~~kHpackHuffmanFlag⟩⟩
  return none

/-- One round of the scan at `i`. -/
def parseHpackAt (tp : TpInfo) (i : Nat) : Option (Option HpackTraceparent) := do
  let form ← b.load i
  if ¬ h2HpackIsLiteral form then
    return none
  let nameLenByte ← b.load (i + 1)
  if nameLenByte = 11 then
    parseShape b tp plainShape i
  else if nameLenByte = 0x88 then
    parseShape b tp huffmanShape i
  else
    return none

/-- The scan loop: `left` positions may still be looked at. -/
def parseHpackFrom (b : Block) (tp : TpInfo) : (left i : Nat) → Option HpackTraceparent
  | 0, _ => some ⟨false, tp, ⟨0, 0⟩⟩
  | left + 1, i =>
    if i > b.dataLen - kH2TpHpackHuffMin then some ⟨false, tp, ⟨0, 0⟩⟩
    else match parseHpackAt b tp i with
    | none => none
    | some (some r) => some r
    | some none => parseHpackFrom b tp left (i + 1)

/-- `parse_hpack_traceparent`. -/
def parseHpackTraceparent (tp : TpInfo) : Option HpackTraceparent :=
  if b.dataLen ≥ kH2TpHpackHuffMin then parseHpackFrom b tp kHpackTpMaxScan 0
  else some ⟨false, tp, ⟨0, 0⟩⟩

end Obi.Ref
