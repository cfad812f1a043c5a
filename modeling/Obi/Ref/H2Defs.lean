import Mathlib.Data.UInt

/-!
# HTTP/2 framing and HPACK, as `common/h2_defs.h` spells them

The constants and the branch-free helpers both tracers share: the opener byte
of a header block, and the strict frame rules the mid-stream sniffers apply.
Bytes are `UInt8`; a length or a stream id, which the code keeps in a `u32`
assembled from bytes, is the number it denotes.
-/

namespace Obi.Ref

@[simp] def kH2FrameHeaderLen : Nat := 9
@[simp] def kH2FrameData : UInt8 := 0
@[simp] def kH2FrameHeaders : UInt8 := 1
@[simp] def kH2FramePriority : UInt8 := 2
@[simp] def kH2FrameRstStream : UInt8 := 3
@[simp] def kH2FrameSettings : UInt8 := 4
@[simp] def kH2FramePushPromise : UInt8 := 5
@[simp] def kH2FramePing : UInt8 := 6
@[simp] def kH2FrameGoaway : UInt8 := 7
@[simp] def kH2FrameWindowUpdate : UInt8 := 8
@[simp] def kH2FrameContinuation : UInt8 := 9
@[simp] def kH2FlagEndStream : UInt8 := 1
@[simp] def kH2FlagAck : UInt8 := 1
@[simp] def kH2FlagEndHeaders : UInt8 := 4
@[simp] def kH2FlagPadded : UInt8 := 8
@[simp] def kH2FlagPriority : UInt8 := 0x20
@[simp] def kH2PriorityPrefixLen : Nat := 5
@[simp] def kH2PrefaceLen : Nat := 24
@[simp] def kH2PrefaceCheckLen : Nat := 4
@[simp] def kH2MaxFrameLen : Nat := 65535
@[simp] def kH2MaxFrameScan : Nat := 4
@[simp] def kH2ReservedBitMask : UInt8 := 0x80
@[simp] def kH2PriorityPayloadLen : Nat := 5
@[simp] def kH2RstStreamPayloadLen : Nat := 4
@[simp] def kH2SettingsEntryLen : Nat := 6
@[simp] def kH2PingPayloadLen : Nat := 8
@[simp] def kH2GoawayMinPayloadLen : Nat := 8
@[simp] def kH2WindowUpdatePayloadLen : Nat := 4
@[simp] def kH2PushPromiseMinPayloadLen : Nat := 4
@[simp] def kH2MaxExtensionFrame : UInt8 := 0x1f
@[simp] def kH2SniffMaxFrames : Nat := 8
@[simp] def kH2MaxFramesPerPacket : Nat := 4
@[simp] def kH2MaxTpRetries : Nat := 2
@[simp] def kH2MaxHpackScan : Nat := 256
@[simp] def kH2DefaultMaxFrameSize : Nat := 16384
@[simp] def kHpackLiteralNoIndex : UInt8 := 0
@[simp] def kHpackLiteralNeverIndex : UInt8 := 0x10
@[simp] def kHpackLiteralIncrIndex : UInt8 := 0x40
@[simp] def kHpackSizeUpdate : UInt8 := 0x20
@[simp] def kHpackSizeUpdateMask : UInt8 := 0xe0
@[simp] def kHpackIntPrefix5 : UInt8 := 0x1f
@[simp] def kHpackIntMore : UInt8 := 0x80
@[simp] def kHpackIntMaxOctets : Nat := 5
@[simp] def kHpackHuffmanFlag : UInt8 := 0x80
@[simp] def kH2HpackOpenerWindow : Nat := 16
@[simp] def kH2HpackOpenerMask : Nat := 15

/-! The layout of a traceparent value, `00-<trace_id>-<span_id>-01`, and of
the HPACK field that carries one. -/

@[simp] def kTpValDash1 : Nat := 2
@[simp] def kTpValTraceIdStart : Nat := 3
@[simp] def kTpValDash2 : Nat := 35
@[simp] def kTpValSpanIdStart : Nat := 36
@[simp] def kTpValDash3 : Nat := 52
@[simp] def kTpValFlagsStart : Nat := 53
@[simp] def kHpackTpNameLen : Nat := 11
@[simp] def kHpackTpNameHuffmanLen : Nat := 8
@[simp] def kHpackTpNameOffset : Nat := 2
@[simp] def kHpackValueLenTp : Nat := 55
@[simp] def kHpackTpValOffset : Nat := 14
@[simp] def kHpackTpValOffsetHuffman : Nat := 11
@[simp] def kHpackTpMaxScan : Nat := 247
@[simp] def kH2TpHpackSize : Nat := 69
@[simp] def kH2TpHpackHuffmanSize : Nat := 66

/-- `k_hpack_tp_name`: the bytes of `traceparent`. -/
def kHpackTpName : List UInt8 := [0x74, 0x72, 0x61, 0x63, 0x65, 0x70, 0x61, 0x72, 0x65, 0x6e, 0x74]

/-- `k_hpack_tp_huffman`: the same name, Huffman encoded. -/
def kHpackTpHuffman : List UInt8 := [0x4d, 0x83, 0x21, 0x6b, 0x1d, 0x85, 0xa9, 0x3f]

/-- PADDED/PRIORITY bytes between the frame header and the HPACK block. -/
def h2HpackPrefixLen (flags : UInt8) : Nat :=
  (if flags &&& kH2FlagPadded ≠ 0 then 1 else 0) +
    (if flags &&& kH2FlagPriority ≠ 0 then kH2PriorityPrefixLen else 0)

/-- Only these three literal forms carry a new name inline. -/
def h2HpackIsLiteral (b : UInt8) : Bool :=
  b == kHpackLiteralNoIndex || b == kHpackLiteralNeverIndex || b == kHpackLiteralIncrIndex

def h2HpackIsSizeUpdate (b : UInt8) : Bool := b &&& kHpackSizeUpdateMask == kHpackSizeUpdate

/-- The continuation octets of a size update at `w[i]`: all but the last carry
`k_hpack_int_more`. The first argument counts the octets still allowed. -/
def sizeUpdateOctets (w : List UInt8) (i avail : Nat) : Nat → Nat → Nat
  | 0, octets => octets
  | n + 1, octets =>
    if i + octets < avail ∧
        w.getD ((i + octets) &&& kH2HpackOpenerMask) 0 &&& kHpackIntMore ≠ 0 then
      sizeUpdateOctets w i avail n (octets + 1)
    else octets

/-- Length of the size update at `w[i]`, continuation octets included. -/
def h2HpackSizeUpdateLen (w : List UInt8) (i avail : Nat) : Nat :=
  if w.getD (i &&& kH2HpackOpenerMask) 0 &&& kHpackIntPrefix5 ≠ kHpackIntPrefix5 then 1
  else 1 + sizeUpdateOctets w i avail (kHpackIntMaxOctets - 1) 1

/-- Offset of the first field in `w`, past at most two dynamic table size
updates. -/
def h2HpackSkipSizeUpdates (w : List UInt8) (avail : Nat) : Nat :=
  let skip (i : Nat) : Nat :=
    if i < avail ∧ h2HpackIsSizeUpdate (w.getD (i &&& kH2HpackOpenerMask) 0) then
      i + h2HpackSizeUpdateLen w i avail
    else i
  skip (skip 0)

/-- What the two opener tests share: an indexed field whose index `indexed`
accepts, or a literal with a name reference between `first` and `last`. -/
def h2HpackOpens (indexed : UInt8 → Bool) (first last : UInt8) (b : UInt8) : Bool :=
  if b &&& 0x80 ≠ 0 then
    indexed (b &&& 0x7f)
  else
    let idx := b &&& ~~~(kHpackLiteralIncrIndex ||| kHpackLiteralNeverIndex)
    let form := b &&& (kHpackLiteralIncrIndex ||| kHpackLiteralNeverIndex)
    if idx < first || idx > last then false
    else
      form == kHpackLiteralIncrIndex || form == kHpackLiteralNeverIndex ||
        form == kHpackLiteralNoIndex

/-- Request blocks open with a pseudo-header: static index 1-7, or a dynamic
table index once the encoder is warm. -/
def h2HpackOpensRequest (b : UInt8) : Bool :=
  h2HpackOpens (fun idx => (idx ≥ 1 && idx ≤ 7) || idx ≥ 62) 1 7 b

/-- Responses open with `:status`: static index 8-14, indexed or as a name
reference. -/
def h2HpackOpensResponse (b : UInt8) : Bool := h2HpackOpens (fun idx => idx ≥ 8 && idx ≤ 14) 8 14 b

/-! ## The strict mid-stream sniff -/

/-- `h2_sniff_state_t`. -/
structure H2SniffState where
  continuationStream : Nat
  (seenHeaders expectContinuation : Bool)
deriving DecidableEq, Repr

/-- The zeroed state a walk starts from. -/
def H2SniffState.zero : H2SniffState := ⟨0, false, false⟩

variable (st : H2SniffState)

/-- `h2_sniff_check_frame`: the state after a frame that passes, `none` for a
frame no conforming sender emits. The code changes the state only after the
last check of its case. -/
def h2SniffCheckFrame (length : Nat) (type flags rBit : UInt8)
    (streamId : Nat) : Option H2SniffState :=
  if length > kH2MaxFrameLen ∨ rBit ≠ 0 then none
  else if st.expectContinuation ∧
      (type ≠ kH2FrameContinuation ∨ streamId ≠ st.continuationStream) then none
  else if ¬ st.expectContinuation ∧ type = kH2FrameContinuation then none
  else if type = kH2FrameData then
    -- zero-length DATA is a half-close
    if flags &&& ~~~(kH2FlagEndStream ||| kH2FlagPadded) ≠ 0 ∨ streamId = 0 ∨
        (length = 0 ∧ flags &&& kH2FlagEndStream = 0) then none
    else some st
  else if type = kH2FrameHeaders then
    -- client-initiated stream ids are odd
    if flags &&& ~~~(kH2FlagEndStream ||| kH2FlagEndHeaders ||| kH2FlagPriority |||
        kH2FlagPadded) ≠ 0 ∨ streamId % 2 = 0 ∨ length = 0 then none
    else some ⟨streamId, true, flags &&& kH2FlagEndHeaders = 0⟩
  else if type = kH2FramePushPromise then
    if flags &&& ~~~(kH2FlagEndHeaders ||| kH2FlagPadded) ≠ 0 ∨ streamId = 0 ∨
        length < kH2PushPromiseMinPayloadLen then none
    else some ⟨streamId, st.seenHeaders, flags &&& kH2FlagEndHeaders = 0⟩
  else if type = kH2FramePriority then
    if flags ≠ 0 ∨ length ≠ kH2PriorityPayloadLen ∨ streamId = 0 then none
    else some st
  else if type = kH2FrameRstStream then
    if flags ≠ 0 ∨ length ≠ kH2RstStreamPayloadLen ∨ streamId = 0 then none
    else some st
  else if type = kH2FrameSettings then
    if flags &&& ~~~kH2FlagAck ≠ 0 ∨ streamId ≠ 0 ∨ length % kH2SettingsEntryLen ≠ 0 ∨
        (flags &&& kH2FlagAck ≠ 0 ∧ length ≠ 0) then none
    else some st
  else if type = kH2FramePing then
    if flags &&& ~~~kH2FlagAck ≠ 0 ∨ streamId ≠ 0 ∨ length ≠ kH2PingPayloadLen then none
    else some st
  else if type = kH2FrameGoaway then
    if flags ≠ 0 ∨ streamId ≠ 0 ∨ length < kH2GoawayMinPayloadLen then none
    else some st
  else if type = kH2FrameWindowUpdate then
    if flags ≠ 0 ∨ length ≠ kH2WindowUpdatePayloadLen then none
    else some st
  else if type = kH2FrameContinuation then
    if flags &&& ~~~kH2FlagEndHeaders ≠ 0 ∨ (length = 0 ∧ flags &&& kH2FlagEndHeaders = 0) then none
    else some { st with expectContinuation := flags &&& kH2FlagEndHeaders = 0 }
  else if type > kH2MaxExtensionFrame then none
  else some st

/-- The payload length a frame header announces. -/
def h2FramePayloadLen (d : List UInt8) : Nat :=
  (d.getD 0 0).toNat * 65536 + (d.getD 1 0).toNat * 256 + (d.getD 2 0).toNat

/-- The stream id of a frame header, reserved bit masked off. -/
def h2FrameStreamId (d : List UInt8) : Nat :=
  (d.getD 5 0 &&& ~~~kH2ReservedBitMask).toNat * 16777216 +
    (d.getD 6 0).toNat * 65536 + (d.getD 7 0).toNat * 256 + (d.getD 8 0).toNat

/-- Validates one raw 9-byte frame header. -/
def h2SniffFrameHeader (d : List UInt8) : Option H2SniffState :=
  h2SniffCheckFrame st (h2FramePayloadLen d) (d.getD 3 0) (d.getD 4 0)
    (d.getD 5 0 &&& kH2ReservedBitMask) (h2FrameStreamId d)

def h2SniffTiles (pos bufLen : Nat) : Bool := bufLen != 0 && pos == bufLen && !st.expectContinuation

/-- `h2_walk_result_t`. -/
inductive H2WalkResult where
  | mismatch | tiled | unfinished
deriving DecidableEq, Repr

/-- A walk only stops short of the buffer end when it ran out of frames to
look at, which proves nothing either way. -/
def h2SniffWalkResult (pos bufLen : Nat) : H2WalkResult :=
  if pos < bufLen then .unfinished
  else if h2SniffTiles st pos bufLen then .tiled else .mismatch

/-- HTTP/2 only if frames tiled the buffer exactly, with a HEADERS frame and no
open header block. -/
def h2SniffAccept (pos bufLen : Nat) : Bool := st.seenHeaders && h2SniffTiles st pos bufLen

end Obi.Ref
