import Obi.Ref.BhpackHuffman

/-!
# The HPACK decoder, `bhpack/hpack.go`

The decoder is a fork of the one of the standard library. An index that does not
resolve is no error: the field is reported as `<BAD INDEX>`, and from then on the
dynamic table is not trusted and not added to. The caller says the same with
`MarkUnreliable`.

A call that parses says what it did to the decoder also when it fails. The
fields that go to the emit function are returned. The maps of a table by name and
the count of its evictions serve the encoder and are left out.
-/

namespace Obi.Ref.Bhpack

/-- The bytes of a string. -/
def bytesOf (s : String) : List UInt8 := s.toUTF8.data.toList

structure HeaderField where
  (name value : List UInt8)
  sensitive : Bool
deriving DecidableEq

/-- The size of an entry, in the width of the source. -/
def HeaderField.size (hf : HeaderField) : UInt32 :=
  UInt32.ofNat (hf.name.length + hf.value.length + 32)

def staticEntry (name value : String) : HeaderField := ⟨bytesOf name, bytesOf value, false⟩

def staticTable : List HeaderField :=
  [staticEntry ":authority" "", staticEntry ":method" "GET", staticEntry ":method" "POST",
   staticEntry ":path" "/", staticEntry ":path" "/index.html", staticEntry ":scheme" "http",
   staticEntry ":scheme" "https", staticEntry ":status" "200", staticEntry ":status" "204",
   staticEntry ":status" "206", staticEntry ":status" "304", staticEntry ":status" "400",
   staticEntry ":status" "404", staticEntry ":status" "500", staticEntry "accept-charset" "",
   staticEntry "accept-encoding" "gzip, deflate", staticEntry "accept-language" "",
   staticEntry "accept-ranges" "", staticEntry "accept" "",
   staticEntry "access-control-allow-origin" "", staticEntry "age" "", staticEntry "allow" "",
   staticEntry "authorization" "", staticEntry "cache-control" "",
   staticEntry "content-disposition" "", staticEntry "content-encoding" "",
   staticEntry "content-language" "", staticEntry "content-length" "",
   staticEntry "content-location" "", staticEntry "content-range" "",
   staticEntry "content-type" "", staticEntry "cookie" "", staticEntry "date" "",
   staticEntry "etag" "", staticEntry "expect" "", staticEntry "expires" "",
   staticEntry "from" "", staticEntry "host" "", staticEntry "if-match" "",
   staticEntry "if-modified-since" "", staticEntry "if-none-match" "",
   staticEntry "if-range" "", staticEntry "if-unmodified-since" "",
   staticEntry "last-modified" "", staticEntry "link" "", staticEntry "location" "",
   staticEntry "max-forwards" "", staticEntry "proxy-authenticate" "",
   staticEntry "proxy-authorization" "", staticEntry "range" "", staticEntry "referer" "",
   staticEntry "refresh" "", staticEntry "retry-after" "", staticEntry "server" "",
   staticEntry "set-cookie" "", staticEntry "strict-transport-security" "",
   staticEntry "transfer-encoding" "", staticEntry "user-agent" "", staticEntry "vary" "",
   staticEntry "via" "", staticEntry "www-authenticate" ""]

/-! ## The dynamic table -/

/-- The entries, the oldest first. -/
structure DynamicTable where
  ents : List HeaderField
  (size maxSize allowedMaxSize : UInt32)

/-- The loop of `evict`, on the size and the entries. -/
def evictLoop (maxSize : UInt32) : UInt32 → List HeaderField → UInt32 × List HeaderField
  | size, [] => (size, [])
  | size, e :: ents =>
    if size > maxSize then evictLoop maxSize (size - e.size) ents else (size, e :: ents)

def DynamicTable.evict (dt : DynamicTable) : DynamicTable :=
  let kept := evictLoop dt.maxSize dt.size dt.ents
  { dt with size := kept.1, ents := kept.2 }

def DynamicTable.setMaxSize (dt : DynamicTable) (v : UInt32) : DynamicTable :=
  { dt with maxSize := v }.evict

def DynamicTable.add (dt : DynamicTable) (f : HeaderField) : DynamicTable :=
  { dt with ents := dt.ents ++ [f], size := dt.size + f.size }.evict

/-! ## The decoder -/

/-- `maxStrLen` 0 is no limit. -/
structure Decoder where
  dynTab : DynamicTable
  emitEnabled : Bool
  maxStrLen : Int
  saveBuf : List UInt8
  firstField : Bool
  tableSizeUpdates : Nat
  failedToIndex : Bool

def newDecoder (maxDynamicTableSize : UInt32) : Decoder where
  dynTab := DynamicTable.setMaxSize ⟨[], 0, 0, maxDynamicTableSize⟩ maxDynamicTableSize
  emitEnabled := true
  maxStrLen := 0
  saveBuf := []
  firstField := true
  tableSizeUpdates := 0
  failedToIndex := false

namespace Decoder

variable (d : Decoder)

def setMaxStringLength (n : Int) : Decoder := { d with maxStrLen := n }

def setEmitEnabled (v : Bool) : Decoder := { d with emitEnabled := v }

def setMaxDynamicTableSize (v : UInt32) : Decoder := { d with dynTab := d.dynTab.setMaxSize v }

def setAllowedMaxDynamicTableSize (v : UInt32) : Decoder :=
  { d with dynTab := { d.dynTab with allowedMaxSize := v } }

def markUnreliable : Decoder := { d with failedToIndex := true }

def maxTableIndex : Nat := d.dynTab.ents.length + staticTable.length

/-- The entry with an index: the static ones, then the dynamic ones, the newest
first. -/
def atIndex (i : Nat) : Option HeaderField :=
  if i = 0 then none
  else if i ≤ staticTable.length then staticTable[i - 1]?
  else if i > d.maxTableIndex then none
  else d.dynTab.ents[d.dynTab.ents.length - (i - staticTable.length)]?

def dynTableUnreliable (idx : Nat) : Bool := d.failedToIndex && decide (idx > staticTable.length)

/-- The entry, if it can be trusted. -/
def resolve (idx : Nat) : Option HeaderField :=
  if d.dynTableUnreliable idx then none else d.atIndex idx

end Decoder

/-! ## Integers and strings -/

def maxUint64 : Nat := 2 ^ 64 - 1

def readVarIntLoop : Nat → Nat → List UInt8 → Except HpackError (Nat × List UInt8)
  | _, _, [] => .error .needMore
  | i, m, b :: p =>
    let payload := (b &&& 127).toNat
    if payload > (maxUint64 - i) >>> m then .error (.decoding .varintOverflow)
    else if b &&& 128 = 0 then .ok (i + payload <<< m, p)
    else if m + 7 ≥ 63 then .error (.decoding .varintOverflow)
    else readVarIntLoop (i + payload <<< m) (m + 7) p

/-- An integer whose first `n` bits end the first byte. -/
def readVarInt (n : Nat) : List UInt8 → Except HpackError (Nat × List UInt8)
  | [] => .error .needMore
  | b :: p =>
    let i := if n < 8 then b.toNat &&& (1 <<< n - 1) else b.toNat
    if i < 1 <<< n - 1 then .ok (i, p) else readVarIntLoop i 0 p

structure UndecodedString where
  isHuff : Bool
  b : List UInt8

def Decoder.readString (d : Decoder) : List UInt8 → Except HpackError (UndecodedString × List UInt8)
  | [] => .error .needMore
  | first :: p => do
      let isHuff := first &&& 128 != 0
      let (strLen, p) ← readVarInt 7 (first :: p)
      if d.maxStrLen ≠ 0 ∧ (strLen : Int) > d.maxStrLen % 2 ^ 64 then .error .stringLength
      else if p.length < strLen then .error .needMore
      else .ok (⟨isHuff, p.take strLen⟩, p.drop strLen)

def Decoder.decodeString (d : Decoder) (u : UndecodedString) : Except HpackError (List UInt8) :=
  if !u.isHuff then .ok u.b else huffmanDecode d.maxStrLen u.b

/-! ## Representations -/

inductive IndexType
  | indexedTrue | indexedFalse | indexedNever
deriving DecidableEq

def IndexType.indexed (v : IndexType) : Bool := v == .indexedTrue

def IndexType.sensitive (v : IndexType) : Bool := v == .indexedNever

def badIndex : List UInt8 := bytesOf "<BAD INDEX>"

/-- What is left of the buffer, and what was emitted. -/
abbrev Parsed := Except HpackError (List UInt8 × List HeaderField)

namespace Decoder

variable (d : Decoder)

def callEmit (hf : HeaderField) (buf : List UInt8) : Parsed :=
  if d.maxStrLen ≠ 0 ∧ (hf.name.length > d.maxStrLen ∨ hf.value.length > d.maxStrLen) then
    .error .stringLength
  else .ok (buf, if d.emitEnabled then [hf] else [])

def parseFieldIndexed (buf : List UInt8) : Decoder × Parsed := match readVarInt 7 buf with
  | .error e => (d, .error e)
  | .ok (idx, buf) => match d.resolve idx with
    | none => ({ d with failedToIndex := true }, d.callEmit ⟨badIndex, [], false⟩ buf)
    | some hf => (d, d.callEmit ⟨hf.name, hf.value, false⟩ buf)

/-- The field of a literal: its name is known, or still to be decoded. Strings
that nobody wants are not decoded. -/
def literalField (it : IndexType) (name : List UInt8 ⊕ UndecodedString)
    (value : UndecodedString) : Except HpackError HeaderField :=
  if d.emitEnabled || it.indexed then do
    let name ← match name with
      | .inl known => .ok known
      | .inr undecodedName => d.decodeString undecodedName
    return ⟨name, ← d.decodeString value, false⟩
  else match name with
  | .inl known => .ok ⟨known, [], false⟩
  | .inr _ => .ok ⟨[], [], false⟩

/-- The rest of a literal, when its name is read. -/
def parseLiteralValue (it : IndexType) (name : List UInt8 ⊕ UndecodedString)
    (buf : List UInt8) : Decoder × Parsed :=
  match d.readString buf with
  | .error e => (d, .error e)
  | .ok (undecodedValue, buf) => match d.literalField it name undecodedValue with
    | .error e => (d, .error e)
    | .ok hf =>
      (if it.indexed && !d.failedToIndex then { d with dynTab := d.dynTab.add hf } else d,
        d.callEmit { hf with sensitive := it.sensitive } buf)

def parseFieldLiteral (n : Nat) (it : IndexType) (buf : List UInt8) : Decoder × Parsed :=
  match readVarInt n buf with
  | .error e => (d, .error e)
  | .ok (nameIdx, buf) =>
    if nameIdx > 0 then
      match d.resolve nameIdx with
      | none => parseLiteralValue { d with failedToIndex := true } it (.inl badIndex) buf
      | some ihf => parseLiteralValue d it (.inl ihf.name) buf
    else match d.readString buf with
    | .error e => (d, .error e)
    | .ok (undecodedName, buf) => parseLiteralValue d it (.inr undecodedName) buf

def parseDynamicTableSizeUpdate (buf : List UInt8) : Decoder × Parsed :=
  if !d.firstField || decide (d.tableSizeUpdates ≥ 2) then
    (d, .error (.decoding .sizeUpdateNotFirst))
  else match readVarInt 5 buf with
  | .error e => (d, .error e)
  | .ok (size, buf) =>
    if size > d.dynTab.allowedMaxSize.toNat then (d, .error (.decoding .sizeUpdateTooLarge))
    else
      ({ d with
          dynTab := d.dynTab.setMaxSize (UInt32.ofNat size)
          tableSizeUpdates := d.tableSizeUpdates + 1 }, .ok (buf, []))

/-- The representation that the buffer begins with, whose first byte is `b`. -/
def parseHeaderFieldRepr (b : UInt8) (buf : List UInt8) : Decoder × Parsed :=
  if b &&& 128 ≠ 0 then d.parseFieldIndexed buf
  else if b &&& 192 = 64 then d.parseFieldLiteral 6 .indexedTrue buf
  else if b &&& 240 = 0 then d.parseFieldLiteral 4 .indexedFalse buf
  else if b &&& 240 = 16 then d.parseFieldLiteral 4 .indexedNever buf
  else if b &&& 224 = 32 then d.parseDynamicTableSizeUpdate buf
  else (d, .error (.decoding .invalidEncoding))

/-! ## Blocks -/

/-- The loop of `Write`. Each round takes a byte at least. -/
def writeLoop (d : Decoder) : Nat → List UInt8 → Decoder × List HeaderField × Option HpackError
  | 0, _ | _ + 1, [] => (d, [], none)
  | rounds + 1, b :: buf => match d.parseHeaderFieldRepr b (b :: buf) with
    | (d, .error .needMore) =>
      if d.maxStrLen ≠ 0 ∧ ((b :: buf).length : Int) > 2 * (d.maxStrLen + 8) then
        (d, [], some .stringLength)
      else ({ d with saveBuf := b :: buf }, [], none)
    | (d, .error e) => (d, [], some e)
    | (d, .ok (rest, fields)) =>
      let next := writeLoop (if b &&& 224 = 32 then d else { d with firstField := false })
        rounds rest
      (next.1, fields ++ next.2.1, next.2.2)

/-- The fields of a part of a block, and how it ended. -/
def write (p : List UInt8) : Decoder × List HeaderField × Option HpackError :=
  if p.isEmpty then (d, [], none)
  else
    let buf := d.saveBuf ++ p
    writeLoop { d with saveBuf := [] } buf.length buf

def close : Decoder × Option HpackError :=
  let closed := { d with firstField := true, tableSizeUpdates := 0, saveBuf := [] }
  if d.saveBuf.length > 0 then (closed, some (.decoding .truncatedHeaders)) else (closed, none)

end Decoder
end Obi.Ref.Bhpack
