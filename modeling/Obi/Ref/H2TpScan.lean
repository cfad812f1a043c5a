import Obi.Lib.Splice
import Obi.Ref.TpInfo

/-!
# Recognising a traceparent in a header block, `common/h2_tp_scan.h`

A pointer and the end it is compared with are the list of the bytes between
them, so `p + k <= end` is `k ≤ p.length`.
-/

namespace Obi.Ref
open Lib

@[simp] def kH2NlbPlain : UInt8 := 11
@[simp] def kH2NlbHuffman : UInt8 := 0x88
@[simp] def kH2TpNeedNameHuffman : Nat := 10
@[simp] def kH2TpNeedNamePlain : Nat := 13
@[simp] def kH2TpNeedIndexedValue : Nat := 56

variable (p : List UInt8)

def h2TpMatchNamePlain : Bool := slice p kHpackTpNameOffset kHpackTpNameLen == kHpackTpName

def h2TpMatchNameHuffman : Bool :=
  slice p kHpackTpNameOffset kHpackTpNameHuffmanLen == kHpackTpHuffman

/-- Name and a plain 55-byte value: the only adoptable shape. -/
def h2TpMatchPlain : Bool :=
  h2TpMatchNamePlain p && p.getD (kHpackTpNameOffset + kHpackTpNameLen) 0 == 55

def h2TpMatchHuffman : Bool :=
  h2TpMatchNameHuffman p && p.getD (kHpackTpNameOffset + kHpackTpNameHuffmanLen) 0 == 55

/-- An indexed name: only the value is on the wire. -/
def h2TpMatchIndexedValue : Bool :=
  p.getD 0 0 == 55 && p.getD 1 0 == 0x30 && p.getD 2 0 == 0x30 && p.getD 3 0 == 0x2d &&
    p.getD (1 + kTpValDash2) 0 == 0x2d && p.getD (1 + kTpValDash3) 0 == 0x2d

def h2TpIsCandidate (b0 b1 b2 : UInt8) : Bool :=
  if b0 == 55 then b1 == 0x30 && b2 == 0x30
  else if ¬ h2HpackIsLiteral b0 then false
  else if b1 == kH2NlbPlain then b2 == kHpackTpName.getD 0 0
  else b1 == kH2NlbHuffman && b2 == kHpackTpHuffman.getD 0 0

/-- `h2_tp_kind_t`. -/
inductive H2TpKind where
  | none | present | adoptable
deriving DecidableEq, Repr

def h2TpClassify : H2TpKind :=
  if kH2TpNeedNameHuffman > p.length then .none
  else if p.getD 0 0 == 55 then
    if kH2TpNeedIndexedValue ≤ p.length ∧ h2TpMatchIndexedValue p then .present
    else .none
  else if p.getD 1 0 == kH2NlbHuffman then
    if kH2TpHpackHuffmanSize ≤ p.length ∧ h2TpMatchHuffman p then .adoptable
    else if h2TpMatchNameHuffman p then .present else .none
  else if p.getD 1 0 == kH2NlbPlain ∧ kH2TpNeedNamePlain ≤ p.length then
    if kH2TpHpackSize ≤ p.length ∧ h2TpMatchPlain p then .adoptable
    else if h2TpMatchNamePlain p then .present else .none
  else .none

/-- The three dashes of a value are in place. -/
def tpValueDashes (val : List UInt8) : Bool :=
  val.getD kTpValDash1 0 == 0x2d && val.getD kTpValDash2 0 == 0x2d && val.getD kTpValDash3 0 == 0x2d

/-- `decode_tp_value`: `tp` with the ids and flags the value spells. -/
def decodeTpValue (val : List UInt8) (tp : TpInfo) : Option TpInfo :=
  if ¬ tpValueDashes val then none
  else
    some { tp with
      traceId := decodeHex 16 (val.drop kTpValTraceIdStart)
      spanId := decodeHex 8 (val.drop kTpValSpanIdStart)
      flags := ((decodeHex 1 (val.drop kTpValFlagsStart)).val).getD 0 0 }

/-- What the two validators share: a field of `size` bytes whose name matches,
then a length byte, then a value at `valOffset`. The result is the offset of the
span id and the decoded context. -/
def validateH2Tp (size nameLen valOffset : Nat) (name p : List UInt8) (tp : TpInfo) :
    Option (Nat × TpInfo) :=
  if size > p.length then none
  else if slice p kHpackTpNameOffset nameLen ≠ name then none
  else if p.getD (kHpackTpNameOffset + nameLen) 0 ≠ 55 then none
  else
    (decodeTpValue (p.drop valOffset) tp).map fun tp =>
      (valOffset + kTpValSpanIdStart, tp)

def validateH2TpPlain (tp : TpInfo) : Option (Nat × TpInfo) :=
  validateH2Tp kH2TpHpackSize kHpackTpNameLen kHpackTpValOffset kHpackTpName p tp

def validateH2TpHuffman (tp : TpInfo) : Option (Nat × TpInfo) :=
  validateH2Tp kH2TpHpackHuffmanSize kHpackTpNameHuffmanLen kHpackTpValOffsetHuffman
    kHpackTpHuffman p tp

end Obi.Ref
