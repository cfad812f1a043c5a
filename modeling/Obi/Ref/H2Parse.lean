import Obi.Ref.SkMsg
import Obi.Ref.H2Defs

/-!
# The frame parser of the injector, `tpinjector/h2_parse.h`

`parse_h2_frame_at` reads one frame header out of an `sk_msg`, and for a
HEADERS frame that ends its block the extent of the HPACK bytes between the
PADDED/PRIORITY prefix and the trailing padding.
-/

namespace Obi.Ref
open Lib

/-- `h2_frame_info_t`. The HPACK extent is filled in only for a frame with
`isHeadersEnd`; the code leaves it uninitialised for any other and never reads
it there. -/
structure H2FrameInfo where
  (streamId payloadLen hpackOffset hpackLen : Nat)
  isHeadersEnd : Bool
  (ftype flags rBit : UInt8)
deriving DecidableEq, Repr

/-- The two pulls of one parse: the frame header, and the pad length after
it. -/
structure ParseAnswers where
  (header padded : PullAnswer)

/-- What the nine bytes of a frame header say, the HPACK extent apart. -/
def frameInfoOf (d : List UInt8) : H2FrameInfo :=
  let len := h2FramePayloadLen d
  let ftype := d.getD 3 0
  let flags := d.getD 4 0
  { streamId := h2FrameStreamId d
    payloadLen := len
    hpackOffset := 0
    hpackLen := 0
    isHeadersEnd := ftype == kH2FrameHeaders && flags &&& kH2FlagEndHeaders != 0 && len != 0
    ftype := ftype
    flags := flags
    rBit := d.getD 5 0 &&& kH2ReservedBitMask }

/-- The pad length of a frame at `pos`: zero without the PADDED flag, `none`
when the byte cannot be read. -/
def h2PadLen (ans : PullAnswer) (msg : SkMsg) (pos msgSize : Nat) (flags : UInt8) : Option Nat :=
  if flags &&& kH2FlagPadded ≠ 0 then
    if u32 (pos + kH2FrameHeaderLen + 1) > msgSize then none
    else match msg.pullView pos (u32 (pos + kH2FrameHeaderLen + 1)) (kH2FrameHeaderLen + 1) ans with
    | some (some d) => some (d.getD kH2FrameHeaderLen 0).toNat
    | _ => none
  else some 0

/-- `parse_h2_frame_at`; `none` is a return of 0. -/
def parseH2FrameAt (ans : ParseAnswers) (msg : SkMsg) (pos msgSize : Nat) : Option H2FrameInfo :=
  if u32 (pos + kH2FrameHeaderLen) > msgSize then none
  else match msg.pullView pos (u32 (pos + kH2FrameHeaderLen)) kH2FrameHeaderLen ans.header with
  | some (some d) =>
    let out := frameInfoOf d
    if out.payloadLen > kH2MaxFrameLen then none
    else if ¬ out.isHeadersEnd then some out
    else
      -- PADDED and PRIORITY take bytes off the HPACK window
      match h2PadLen ans.padded msg pos msgSize out.flags with
      | none => none
      | some padLen =>
        let pre := h2HpackPrefixLen out.flags
        if pre + padLen ≥ out.payloadLen then none
        else
          some { out with
            hpackOffset := u32 (pos + kH2FrameHeaderLen + pre)
            hpackLen := out.payloadLen - pre - padLen }
  | _ => none

end Obi.Ref
