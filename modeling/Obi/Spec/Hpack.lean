import Obi.Lib.Bits
import Obi.Ref.Bhpack

/-!
# What an HPACK encoder sends, RFC 7541

The encoder has a table of its own and sends header blocks that change it: a
representation of a field names an entry of the table, static or dynamic, or
carries the field itself, plain or Huffman coded. Before the fields of a block
the size of the table may be changed, twice at most.

Numbers may be written with more bytes than they need, nine behind the first
one at most: enough for any number below `2 ^ 63`. The static table and the
Huffman codes are those of the standard, which are the ones of the source; they
are held against the examples of its Appendix C.
-/

namespace Obi.Spec.Hpack
open Lib Ref.Bhpack

/-! ## Numbers and strings -/

/-- The number that bytes of seven bits each stand for, the lowest first. -/
def septets (front : List UInt8) (last : UInt8) : Nat :=
  front.foldr (fun b n => b.toNat % 128 + 128 * n) last.toNat

/-- A number whose first `n` bits share a byte with flags. -/
inductive IsInt (n flags : Nat) : Nat → List UInt8 → Prop
  | short {v : Nat} (h : v < 2 ^ n - 1) : IsInt n flags v [UInt8.ofNat (flags + v)]
  | long {front : List UInt8} {last : UInt8} (continued : ∀ b ∈ front, 128 ≤ b)
      (ended : last < 128) (fits : front.length ≤ 8) :
      IsInt n flags (2 ^ n - 1 + septets front last)
        (UInt8.ofNat (flags + (2 ^ n - 1)) :: (front ++ [last]))

/-- The Huffman code of a byte. -/
def codeBits (sym : UInt8) : List Bool :=
  toBits (huffmanCodeLen.getD sym.toNat 0) (huffmanCodes.getD sym.toNat 0)

/-- The codes one after the other, filled up with ones to whole bytes. -/
def IsHuffman (s v : List UInt8) : Prop :=
  ∃ pad, pad < 8 ∧ v.flatMap byteBits = s.flatMap codeBits ++ List.replicate pad true

instance (s v : List UInt8) : Decidable (IsHuffman s v) :=
  inferInstanceAs (Decidable (∃ pad, pad < 8 ∧ _))

-- RFC 7541, C.4.1 and C.6.3
example : IsHuffman (bytesOf "www.example.com")
    [0xf1, 0xe3, 0xc2, 0xe5, 0xf2, 0x3a, 0x6b, 0xa0, 0xab, 0x90, 0xf4, 0xff] := by
  decide +kernel

example : IsHuffman (bytesOf "foo=ASDJKHQKBZXOQWEOPIUAXQWEOIU; max-age=3600; version=1")
    [0x94, 0xe7, 0x82, 0x1d, 0xd7, 0xf2, 0xe6, 0xc7, 0xb3, 0x35, 0xdf, 0xdf, 0xcd, 0x5b, 0x39,
      0x60, 0xd5, 0xaf, 0x27, 0x08, 0x7f, 0x36, 0x72, 0xc1, 0xab, 0x27, 0x0f, 0xb5, 0x29, 0x1f,
      0x95, 0x87, 0x31, 0x60, 0x65, 0xc0, 0x03, 0xed, 0x4e, 0xe5, 0xb1, 0x06, 0x3d, 0x50,
      0x07] := by
  decide +kernel

/-- A string, as it is or Huffman coded. -/
def IsString (s w : List UInt8) : Prop :=
  (∃ len, IsInt 7 0 s.length len ∧ w = len ++ s) ∨
    ∃ v len, IsHuffman s v ∧ IsInt 7 128 v.length len ∧ w = len ++ v

/-! ## Representations -/

inductive Representation
  | indexed (i : Nat)
  | literal (it : IndexType) (name : Nat ⊕ List UInt8) (value : List UInt8)
  | sizeUpdate (n : Nat)

/-- The bits of the first byte of a literal that belong to the index of its name. -/
def nameBits : IndexType → Nat
  | .indexedTrue => 6
  | .indexedFalse | .indexedNever => 4

def literalFlags : IndexType → Nat
  | .indexedTrue => 64
  | .indexedFalse => 0
  | .indexedNever => 16

def IsWire : Representation → List UInt8 → Prop
  | .indexed i, w => IsInt 7 128 i w
  | .literal it (.inl i) value, w =>
    ∃ a b, IsInt (nameBits it) (literalFlags it) i a ∧ IsString value b ∧ w = a ++ b
  | .literal it (.inr name) value, w =>
    ∃ a b c, IsInt (nameBits it) (literalFlags it) 0 a ∧ IsString name b ∧ IsString value c ∧
      w = a ++ (b ++ c)
  | .sizeUpdate n, w => IsInt 5 32 n w

/-- A representation with the bytes it is sent as. -/
structure Coded where
  repr : Representation
  wire : List UInt8
  isWire : IsWire repr wire

def blockWire (block : List Coded) : List UInt8 := block.flatMap Coded.wire

/-! ## The encoder -/

structure Entry where
  (name value : List UInt8)
deriving DecidableEq

def Entry.size (x : Entry) : Nat := x.name.length + x.value.length + 32

/-- What stays of a table when its oldest entries are evicted until the others
fit. -/
def keep : Nat → List Entry → List Entry
  | _, [] => []
  | room, x :: entries => if x.size ≤ room then x :: keep (room - x.size) entries else []

/-- The dynamic table, the newest entry first. -/
structure Encoder where
  entries : List Entry
  maxSize : Nat

namespace Encoder

variable (e : Encoder)

def insert (x : Entry) : Encoder := ⟨keep e.maxSize (x :: e.entries), e.maxSize⟩

def resize (n : Nat) : Encoder := ⟨keep n e.entries, n⟩

/-- The entry with an index, of the static table or the dynamic one behind it. -/
def entry (i : Nat) : Option Entry :=
  if i = 0 then none
  else if i ≤ staticTable.length then
    (staticTable[i - 1]?).map fun hf => ⟨hf.name, hf.value⟩
  else e.entries[i - staticTable.length - 1]?

-- the fields of the static table that the examples of Appendix C name
example : ([2, 6, 4, 1, 24, 7, 5, 8, 33, 46, 26, 55].map fun i =>
      (entry ⟨[], 4096⟩ i).map fun x => (x.name, x.value)) =
    [(":method", "GET"), (":scheme", "http"), (":path", "/"), (":authority", ""),
      ("cache-control", ""), (":scheme", "https"), (":path", "/index.html"), (":status", "200"),
      ("date", ""), ("location", ""), ("content-encoding", ""), ("set-cookie", "")].map
        fun x => some (bytesOf x.1, bytesOf x.2) := by
  decide +kernel

/-- The field a representation stands for. -/
def field : Representation → Option Entry
  | .indexed i => e.entry i
  | .literal _ (.inl i) value => (e.entry i).map fun x => ⟨x.name, value⟩
  | .literal _ (.inr name) value => some ⟨name, value⟩
  | .sizeUpdate _ => none

def next (r : Representation) : Encoder := match r with
  | .sizeUpdate n => e.resize n
  | .literal .indexedTrue _ _ => (e.field r).elim e e.insert
  | _ => e

def after (block : List Coded) : Encoder := block.foldl (fun e r => e.next r.repr) e

/-- The fields of a block. -/
def fields (e : Encoder) : List Coded → List Entry
  | [] => []
  | r :: block => (e.field r.repr).toList ++ (e.next r.repr).fields block

end Encoder

/-- The block conforms: `updates` more changes of the size may come before its
fields, within what is allowed, and every field names an entry there is. -/
def Conforms (allowed : Nat) : Nat → Encoder → List Coded → Prop
  | _, _, [] => True
  | updates, e, r :: block => match r.repr with
    | .sizeUpdate n =>
      0 < updates ∧ n ≤ allowed ∧ Conforms allowed (updates - 1) (e.next r.repr) block
    | _ => (e.field r.repr).isSome ∧ Conforms allowed 0 (e.next r.repr) block

/-! ## An observer -/

/-- A block is given to the decoder in parts. An error ends it. -/
def decodeParts (d : Decoder) : List (List UInt8) → Decoder × List HeaderField × Option HpackError
  | [] => (d, [], none)
  | p :: parts => match d.write p with
    | (d, fields, some e) => (d, fields, some e)
    | (d, fields, none) =>
      let rest := decodeParts d parts
      (rest.1, fields ++ rest.2.1, rest.2.2)

/-- The fields that are reported of a block, and the decoder for the next one. -/
def decodeBlock (d : Decoder) (parts : List (List UInt8)) : Decoder × List HeaderField :=
  ((decodeParts d parts).1.close.1, (decodeParts d parts).2.1)

/-- A block reaches the observer or does not; it says that its table may be
unreliable. -/
inductive StreamEvent
  | seen (block : List Coded) (parts : List (List UInt8))
  | missed (block : List Coded)
  | marked

/-- The encoder and the decoder; whether a block was missed, and whether that was
said, since the last one that was seen. -/
structure Observed where
  encoder : Encoder
  decoder : Decoder
  (gap marked : Bool)

namespace Observed

def init (maxSize : UInt32) : Observed := ⟨⟨[], maxSize.toNat⟩, newDecoder maxSize, false, false⟩

def step (o : Observed) : StreamEvent → Observed
  | .seen block parts => ⟨o.encoder.after block, (decodeBlock o.decoder parts).1, false, false⟩
  | .missed block => { o with encoder := o.encoder.after block, gap := true }
  | .marked => { o with decoder := o.decoder.markUnreliable, marked := true }

/-- The encoder conforms, and a block that is seen behind a gap is announced. -/
def Admits (allowed : Nat) (o : Observed) : StreamEvent → Prop
  | .seen block parts => Conforms allowed 2 o.encoder block ∧ parts.flatten = blockWire block ∧
      (o.gap = true → o.marked = true)
  | .missed block => Conforms allowed 2 o.encoder block
  | .marked => True

end Observed

/-! ## Calls on a decoder -/

inductive DecoderCall
  | write (p : List UInt8)
  | close | markUnreliable
  | setEmitEnabled (v : Bool)
  | setMaxStringLength (n : Int)
  | setMaxDynamicTableSize (v : UInt32)
  | setAllowedMaxDynamicTableSize (v : UInt32)

def DecoderCall.on (d : Decoder) : DecoderCall → Decoder
  | .write p => (d.write p).1
  | .close => d.close.1
  | .markUnreliable => d.markUnreliable
  | .setEmitEnabled v => d.setEmitEnabled v
  | .setMaxStringLength n => d.setMaxStringLength n
  | .setMaxDynamicTableSize v => d.setMaxDynamicTableSize v
  | .setAllowedMaxDynamicTableSize v => d.setAllowedMaxDynamicTableSize v

end Obi.Spec.Hpack
