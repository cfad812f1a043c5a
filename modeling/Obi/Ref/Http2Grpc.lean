import Obi.Ref.H2FrameScan

/-!
# The HTTP/2 prefilter of `http2grpc_transform.go`

User space decides by the frame headers alone whether a capture is worth the
HTTP/2 parser, and by the first byte of a header block whether it is a response.
-/

namespace Obi.Ref.Http2Grpc

@[simp] def frameHeaderLen : Nat := 9
@[simp] def maxPlausibleHTTP2FrameLen : Nat := 4194304

/-- `h2FrameStreamId` masks the reserved bit off. -/
def readHTTP2Frame (buf : List UInt8) (length : Int) : Option FrameHeader :=
  if length < frameHeaderLen then none
  else if buf.getD 5 0 &&& 0x80 ≠ 0 then none
  else
    let frame : FrameHeader :=
      ⟨h2FramePayloadLen buf, buf.getD 3 0, buf.getD 4 0, h2FrameStreamId buf⟩
    if frame.length = 0 ∨ frame.type > kH2FrameContinuation then none else some frame

def isHeadersFrame (frame : FrameHeader) : Bool :=
  frame.type == kH2FrameHeaders && frame.streamId != 0

def isInvalidFrame (frame : FrameHeader) : Bool := frame.length == 0 && frame.type == kH2FrameData

def http2FlagsMask (t : UInt8) : UInt8 :=
  if t = kH2FrameData then 0x09
  else if t = kH2FrameHeaders then 0x2d
  else if t = kH2FrameSettings ∨ t = kH2FramePing then 0x01
  else if t = kH2FramePushPromise then 0x0c
  else if t = kH2FrameContinuation then 0x04
  else 0

def isPlausibleHTTP2Frame (fr : FrameHeader) : Bool :=
  if fr.flags &&& ~~~http2FlagsMask fr.type ≠ 0 then false
  else if fr.type ∈ [kH2FrameData, kH2FrameHeaders, kH2FramePushPromise, kH2FrameContinuation] then
    fr.streamId != 0 && decide (fr.length ≤ maxPlausibleHTTP2FrameLen)
  else if fr.type = kH2FramePriority then fr.streamId != 0 && fr.length == 5
  else if fr.type = kH2FrameRstStream then fr.streamId != 0 && fr.length == 4
  else if fr.type = kH2FrameSettings then
    fr.streamId == 0 && fr.length % 6 == 0 && decide (fr.length ≤ maxPlausibleHTTP2FrameLen)
  else if fr.type = kH2FramePing then fr.streamId == 0 && fr.length == 8
  else if fr.type = kH2FrameGoaway then
    fr.streamId == 0 && decide (fr.length ≥ 8) && decide (fr.length ≤ maxPlausibleHTTP2FrameLen)
  else if fr.type = kH2FrameWindowUpdate then fr.length == 4
  else false

/-- The loop of `isLikelyHTTP2`. -/
def likelyRounds (data : List UInt8) (l : Int) : (rounds pos : Nat) → Bool
  | 0, _ => false
  | rounds + 1, pos =>
    if pos > l - frameHeaderLen then false
    else match readHTTP2Frame (data.drop pos) l with
    | none => false
    | some fr =>
      if !isPlausibleHTTP2Frame fr then false
      else if isHeadersFrame fr then true
      else if isInvalidFrame fr then false
      else if pos < l - (fr.length + frameHeaderLen : Nat) then
        likelyRounds data l rounds (pos + (fr.length + frameHeaderLen))
      else false

def isLikelyHTTP2 (data : List UInt8) (eventLen : Int) : Bool :=
  likelyRounds data (min eventLen data.length) 8 0

/-! ## Header blocks -/

/-- The inner loop: past the continuation octets that announce another one. Each
round looks at another byte. -/
def skipMore (frag : List UInt8) : (rounds i : Nat) → Nat
  | 0, i => i
  | rounds + 1, i =>
    if i < frag.length ∧ frag.getD i 0 &&& 0x80 ≠ 0 then skipMore frag rounds (i + 1) else i

/-- The loop of `hpackFieldStart`. -/
def skipSizeUpdates (frag : List UInt8) : (rounds i : Nat) → Nat
  | 0, i => i
  | rounds + 1, i =>
    if i < frag.length ∧ frag.getD i 0 &&& 0xe0 = 0x20 then
      if frag.getD i 0 &&& 0x1f ≠ 0x1f then skipSizeUpdates frag rounds (i + 1)
      else skipSizeUpdates frag rounds (skipMore frag frag.length (i + 1) + 1)
    else i

def hpackFieldStart (frag : List UInt8) : Int :=
  let i := skipSizeUpdates frag frag.length 0
  if i ≥ frag.length then -1 else i

/-- What `hpackOpensResponse` makes of the first byte of the field. -/
def fieldOpensResponse (b : UInt8) : Bool :=
  if b &&& 0x80 ≠ 0 then
    let idx := b &&& ~~~0x80
    decide (idx ≥ 8) && decide (idx ≤ 14)
  else
    let idx := b &&& ~~~(0x40 ||| 0x10)
    if idx < 8 ∨ idx > 14 then false
    -- 0x50 is not a literal
    else b &&& (0x40 ||| 0x10) != 0x40 ||| 0x10

def hpackOpensResponse (frag : List UInt8) : Bool :=
  let i := hpackFieldStart frag
  if i < 0 then false else fieldOpensResponse (frag.getD i.toNat 0)

end Obi.Ref.Http2Grpc
