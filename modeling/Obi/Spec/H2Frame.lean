import Obi.Ref.H2WriteTransaction

/-!
# HTTP/2 frames as the specification has them

A frame is a type, flags, a stream field and a payload; on the wire a nine-byte
header comes before the payload. `RawFrame.view` is what a frame means to a
reader of header blocks: for a HEADERS frame that ends its block, the payload
falls into the PADDED/PRIORITY lead, the HPACK block and the padding, and for
any other frame the payload is one piece.
-/

namespace Obi.Spec
open Lib Ref

/-- A complete frame. -/
structure RawFrame where
  (ftype flags : UInt8)
  stream : ByteVec 4
  payload : List UInt8
  payload_lt : payload.length < 16777216
deriving DecidableEq

theorem empty_lt : ([] : List UInt8).length < 16777216 := by decide

def streamOne : ByteVec 4 := ⟨[0, 0, 0, 1], rfl⟩

variable (f : RawFrame)

def RawFrame.header : List UInt8 :=
  h2FrameLenBytes f.payload.length ++ [f.ftype, f.flags] ++ f.stream.val

def RawFrame.bytes : List UInt8 := f.header ++ f.payload

/-- Frames back to back. -/
def encode (fs : List RawFrame) : List UInt8 := fs.flatMap RawFrame.bytes

@[simp] theorem RawFrame.length_header : f.header.length = 9 := by
  simp [RawFrame.header, h2FrameLenBytes, f.stream.property]

@[simp] theorem RawFrame.length_bytes : f.bytes.length = 9 + f.payload.length := by
  rw [RawFrame.bytes, List.length_append, f.length_header]

@[simp] theorem encode_nil : encode [] = [] := rfl

@[simp] theorem encode_cons (fs : List RawFrame) : encode (f :: fs) = f.bytes ++ encode fs := rfl

@[simp] theorem encode_append (fs gs : List RawFrame) :
    encode (fs ++ gs) = encode fs ++ encode gs := by
  simp [encode]

theorem length_le_length_encode (fs : List RawFrame) : fs.length ≤ (encode fs).length := by
  induction fs with
  | nil => exact le_refl 0
  | cons f fs ih =>
    rw [encode_cons, List.length_append, f.length_bytes, List.length_cons]
    omega

/-! ## What the header says -/

/-- The length bytes of a frame read back as its length. -/
theorem payloadLen_lenBytes {n : Nat} (hn : n < 16777216) (rest : List UInt8) :
    h2FramePayloadLen (h2FrameLenBytes n ++ rest) = n := by
  show (UInt8.ofNat (n / 65536)).toNat * 65536 + (UInt8.ofNat (n / 256)).toNat * 256 +
    (UInt8.ofNat n).toNat = n
  simp only [UInt8.toNat_ofNat']
  omega

@[simp] theorem RawFrame.payloadLen_header : h2FramePayloadLen f.header = f.payload.length := by
  exact payloadLen_lenBytes f.payload_lt _

/-! ## What a frame means -/

/-- A HEADERS frame that ends its block and has a payload. -/
def RawFrame.isHeadersEnd : Bool :=
  f.ftype == kH2FrameHeaders && f.flags &&& kH2FlagEndHeaders != 0 && f.payload.length != 0

/-- The pad length the first payload byte announces. -/
def RawFrame.padLen : Nat :=
  if f.flags &&& kH2FlagPadded ≠ 0 then (f.payload.getD 0 0).toNat else 0

/-- The length of the HPACK block. -/
def RawFrame.blockLen : Nat := f.payload.length - h2HpackPrefixLen f.flags - f.padLen

/-- A frame as a reader of header blocks sees it. -/
structure FrameView where
  (ftype flags rBit : UInt8)
  streamId : Nat
  isHeadersEnd : Bool
  (lead block padding : List UInt8)
deriving DecidableEq

def RawFrame.view : FrameView :=
  { ftype := f.ftype
    flags := f.flags
    rBit := f.header.getD 5 0 &&& kH2ReservedBitMask
    streamId := h2FrameStreamId f.header
    isHeadersEnd := f.isHeadersEnd
    lead := if f.isHeadersEnd then f.payload.take (h2HpackPrefixLen f.flags) else []
    block :=
      if f.isHeadersEnd then slice f.payload (h2HpackPrefixLen f.flags) f.blockLen
      else f.payload
    padding :=
      if f.isHeadersEnd then f.payload.drop (h2HpackPrefixLen f.flags + f.blockLen) else [] }

/-! ## What a sender may send -/

/-- The rules of RFC 7540 for the type of a frame, as far as its header shows
them: the flags defined for it, the stream it belongs to, its length. -/
def RawFrame.Legal : Prop :=
  f.header.getD 5 0 &&& kH2ReservedBitMask = 0 ∧ f.payload.length ≤ 4194304 ∧
    match f.ftype.toNat with
    | 0 => f.flags &&& ~~~0x09 = 0 ∧ h2FrameStreamId f.header ≠ 0
    | 1 => f.flags &&& ~~~0x2d = 0 ∧ h2FrameStreamId f.header ≠ 0
    | 2 => f.flags = 0 ∧ h2FrameStreamId f.header ≠ 0 ∧ f.payload.length = 5
    | 3 => f.flags = 0 ∧ h2FrameStreamId f.header ≠ 0 ∧ f.payload.length = 4
    | 4 => f.flags &&& ~~~0x01 = 0 ∧ h2FrameStreamId f.header = 0 ∧ f.payload.length % 6 = 0
    | 5 => f.flags &&& ~~~0x0c = 0 ∧ h2FrameStreamId f.header ≠ 0
    | 6 => f.flags &&& ~~~0x01 = 0 ∧ h2FrameStreamId f.header = 0 ∧ f.payload.length = 8
    | 7 => f.flags = 0 ∧ h2FrameStreamId f.header = 0 ∧ 8 ≤ f.payload.length
    | 8 => f.flags = 0 ∧ f.payload.length = 4
    | 9 => f.flags &&& ~~~0x04 = 0 ∧ h2FrameStreamId f.header ≠ 0
    | _ => False

/-- The octets that announce another one: all but the last of a size update. -/
def moreOctets (l : List UInt8) : Nat := (l.takeWhile fun b => b &&& kHpackIntMore != 0).length

/-- A header block opens with at most `n` size updates, none of them with more
than `k_hpack_int_max_octets` continuation octets. -/
def OpensWith : Nat → List UInt8 → Prop
  | 0, l => ∀ b ∈ l.head?, h2HpackIsSizeUpdate b = false
  | _ + 1, [] => True
  | n + 1, b :: l => h2HpackIsSizeUpdate b = true →
    if b &&& kHpackIntPrefix5 ≠ kHpackIntPrefix5 then OpensWith n l
    else min (moreOctets l + 1) l.length ≤ kHpackIntMaxOctets ∧
      OpensWith n (l.drop (moreOctets l + 1))

end Obi.Spec
