import Obi.Ref.LargeBufEmit

/-!
# Scanning received HTTP/2 frames

`generictracer/protocol_http2.h`: for every read on an HTTP/2 connection the
frames in it are walked from header to header, and HEADERS and final DATA
frames are handed to programs that start and end requests. TCP cuts the stream
anywhere, so the walk leaves behind where it stopped: either the number of
bytes of the current frame that are still to come, or the beginning of a frame
that is better handled whole. The next read on the connection picks this up.

The programs are tail called; `ScanEnv.tailCalls` is how many calls are left
when a read arrives. The programs behind `handle_start_frame`, which look for
a traceparent, are not taken apart here: none of them touches the position in
the buffer, and each ends in `resume_frame_scan`. What the maps of ongoing
requests answer is passed in, one answer per position of the buffer.
-/

namespace Obi.Ref

/-- `frame_header_t`, after `next_frame` swapped its bytes. -/
structure FrameHeader where
  length : Nat
  (type flags : UInt8)
  streamId : Nat
deriving DecidableEq, Repr

@[simp] def frameData : UInt8 := 0
@[simp] def frameHeaders : UInt8 := 1
@[simp] def framePushPromise : UInt8 := 5
@[simp] def frameContinuation : UInt8 := 9

@[simp] def kFlagDataEndStream : UInt8 := 1
@[simp] def kFrameHeaderLen : Nat := 9
@[simp] def kIovecMaxLen : Nat := 8192
@[simp] def kKprobesHttp2BufSize : Nat := 256

@[simp] def tcpRecv : UInt8 := 0

@[simp] def kEventTypeHttpRequest : UInt8 := 1
@[simp] def kEventTypeHttpClient : UInt8 := 3

def requestTypeByDirection (direction packetType : UInt8) : UInt8 :=
  if packetType = kPacketTypeResponse then
    if direction = tcpRecv then kEventTypeHttpClient else kEventTypeHttpRequest
  else
    if direction = tcpRecv then kEventTypeHttpRequest else kEventTypeHttpClient

/-- The nine bytes of a header. The stream id is a 31-bit field over a shifted
word: the lowest bit of its first byte is dropped on the way in and the
highest on the way back. -/
def frameHeaderOf (b : List UInt8) : FrameHeader where
  length := h2FramePayloadLen b
  type := b.getD 3 0
  flags := b.getD 4 0
  streamId := (b.getD 5 0 &&& 0x7e).toNat * 16777216
    + (b.getD 6 0).toNat * 65536 + (b.getD 7 0).toNat * 256
    + (b.getD 8 0).toNat

variable (frame : FrameHeader)

def isHeadersFrame : Bool := frame.type == frameHeaders && frame.streamId != 0

def isFlagsOnlyFrame : Bool := decide (frame.length ≤ 2)

def httpGrpcStreamEnded : Bool :=
  isHeadersFrame frame && frame.flags &&& kFlagDataEndStream == kFlagDataEndStream

def isInvalidFrame : Bool := frame.type == frameData && frame.streamId == 0

def httpGrpcDataStreamEnded : Bool :=
  frame.type == frameData && frame.flags &&& kFlagDataEndStream == kFlagDataEndStream

def h2FramePlausible : Bool :=
  decide (frame.type ≤ frameContinuation) && decide (frame.length ≤ kH2DefaultMaxFrameSize)

/-! ## The context of a scan -/

/-- The memory at `u_buf`: the bytes of the read, and whatever lies behind
them. -/
structure ScanBuf where
  bytes : List UInt8
  beyond : Nat → UInt8

def ScanBuf.read (b : ScanBuf) (start n : Nat) : List UInt8 :=
  (List.range n).map fun i => b.bytes.getD (start + i) (b.beyond (start + i))

/-- `grpc_frames_ctx_t`, as far as the walk reads it. -/
structure GrpcFramesCtx where
  direction : UInt8
  buf : ScanBuf
  (pos iterations : Nat)
  (terminateSearch hasPrevInfo : Bool)
  prevType : UInt8
  savedStreamId : Nat

variable (g : GrpcFramesCtx)

def GrpcFramesCtx.bytesLen : Nat := g.buf.bytes.length

/-- The answers a read gets from the kernel. -/
structure ScanEnv where
  tailCalls : Nat
  beyond : Nat → UInt8
  (prev info : Nat → Option UInt8)
  (lookup cutMem joinedMem update : Bool)

def nextFrame : FrameHeader := frameHeaderOf (g.buf.read g.pos kFrameHeaderLen)

/-- `bytes_len - pos` as a `u32`. -/
def GrpcFramesCtx.remaining : Nat := u32 (g.bytesLen + 4294967296 - g.pos)

/-! ## Frames cut by the end of a read -/

def h2TracksCutFrames : Bool := g.direction == tcpRecv && decide (g.bytesLen < kIovecMaxLen)

def h2KeepsCutFrame (frame : FrameHeader) : Bool :=
  h2TracksCutFrames g && (decide (g.remaining < kFrameHeaderLen)
      || (isHeadersFrame frame && decide (g.remaining < frame.length + kFrameHeaderLen)
        && decide (frame.length + kFrameHeaderLen ≤ kKprobesHttp2BufSize)))

def h2FrameHeaderPlausible (buf : ScanBuf) (start : Nat) : Bool :=
  h2FramePlausible (frameHeaderOf (buf.read start kFrameHeaderLen))

/-- `h2_cut_frame_t`: the bytes left to skip, or the bytes kept. -/
structure CutFrame where
  skip : Nat
  data : List UInt8
deriving DecidableEq, Repr

variable (env : ScanEnv)

/-- The entry `h2_save_cut_frame` writes, if it writes one. -/
def h2SaveCutFrame (g : GrpcFramesCtx) : Option CutFrame :=
  if h2TracksCutFrames g && env.cutMem && env.update then
    if g.bytesLen < g.pos then some ⟨g.pos - g.bytesLen, []⟩
    else if g.pos < g.bytesLen then
      let frame := nextFrame g
      let remaining := g.remaining
      if h2KeepsCutFrame g frame then
        some ⟨0, g.buf.read (min g.pos kIovecMaxLen) (min remaining kKprobesHttp2BufSize)⟩
      else
        let frameSize := frame.length + kFrameHeaderLen
        if frameSize ≤ remaining ∨ isInvalidFrame frame = true
            ∨ h2FramePlausible frame = false then none
        else some ⟨frameSize - remaining, []⟩
    else none
  else none

/-- Where the first whole frame begins in the read that follows kept bytes,
once the kept header is complete. -/
def nextAfterKept (data : List UInt8) (kept : Nat) : Nat :=
  if kFrameHeaderLen ≤ kept then h2FramePayloadLen data + kFrameHeaderLen - kept
  else 0

/-- The kept bytes and the read in one buffer, unless what follows the kept
frame does not look like a frame. -/
def joinCutFrame (g : GrpcFramesCtx) (c : CutFrame) : GrpcFramesCtx :=
  let kept := min c.data.length kKprobesHttp2BufSize
  let len := min g.bytesLen kIovecMaxLen
  let next := nextAfterKept c.data kept
  if env.joinedMem = true ∧ (next = 0 ∨ len < next + kFrameHeaderLen
      ∨ h2FrameHeaderPlausible g.buf next = true) then
    { g with buf := ⟨c.data.take kept ++ g.buf.read 0 len, env.beyond⟩ }
  else g

/-- `h2_resume_cut_frame`, with the connection's entry and what is left of it. -/
def h2ResumeCutFrame (g : GrpcFramesCtx)
    (cut : Option CutFrame) : GrpcFramesCtx × Option CutFrame :=
  if g.direction ≠ tcpRecv then (g, cut)
  else if env.lookup = false then (g, cut)
  else match cut with
  | none => (g, none)
  | some c =>
    let readLen := g.bytesLen
    if readLen ≤ c.skip ∧ h2TracksCutFrames g = true then
      ({ g with pos := readLen }, some { c with skip := c.skip - readLen })
    else if c.skip ≠ 0 ∧ c.skip < readLen ∧ (readLen - c.skip < kFrameHeaderLen
          ∨ h2FrameHeaderPlausible g.buf c.skip = true) then
      ({ g with pos := c.skip }, none)
    else if c.skip = 0 ∧ c.data.length ≠ 0 then
      (joinCutFrame env g c, none)
    else (g, none)

/-! ## The programs -/

inductive ScanProg
  | grpcFrames | handleStartFrame | handleEndFrame
deriving DecidableEq, Repr

/-- A header the loop looked at: the buffer and the position, what was read
there, and whether it was set aside for the next read. -/
structure Examined where
  buf : List UInt8
  pos : Nat
  frame : FrameHeader
  setAside : Bool

/-- How a program ends. `call` is a tail call whose failure loses the rest of
the buffer; `finish` leaves the entry to save, whether frames were left
unread, and a last tail call whose failure loses nothing of the scan. -/
inductive ScanExit
  | call (p : ScanProg) (g : GrpcFramesCtx)
  | finish (saved : Option CutFrame) (unscanned : Bool)
      (last : Option (ScanProg × GrpcFramesCtx))

def updatePrevInfo (g : GrpcFramesCtx) : GrpcFramesCtx := match env.prev g.pos with
  | none => { g with hasPrevInfo := false }
  | some type => { g with hasPrevInfo := true, prevType := type }

def h2ResponseDirection (type direction : UInt8) : Bool :=
  requestTypeByDirection direction kPacketTypeResponse == type

def h2ForgetStream : GrpcFramesCtx := { g with hasPrevInfo := false, savedStreamId := 0 }

def resumeFrameScan (g : GrpcFramesCtx) : ScanExit :=
  let frame := nextFrame g
  let g :=
    if h2KeepsCutFrame g frame then g
    else { g with pos := g.pos + (frame.length + kFrameHeaderLen) }
  if !g.terminateSearch && decide (g.pos < g.bytesLen) then
    .call .grpcFrames g
  else .finish (h2SaveCutFrame env g) false none

/-- What a handler of the loop does: go on, or tail call. -/
inductive Handled
  | goOn (g : GrpcFramesCtx)
  | call (p : ScanProg) (g : GrpcFramesCtx)

def handleHeadersFrame (g : GrpcFramesCtx) (frame : FrameHeader) : Handled :=
  let g := updatePrevInfo env g
  if g.hasPrevInfo then
    let g := { g with savedStreamId := frame.streamId }
    if httpGrpcStreamEnded frame then .call .handleEndFrame g else .goOn g
  else if isFlagsOnlyFrame frame && httpGrpcStreamEnded frame then .goOn g
  else .call .handleStartFrame g

def handleDataStreamEnd (g : GrpcFramesCtx) (frame : FrameHeader) : Handled :=
  match env.info g.pos with
  | none => .goOn g
  | some type =>
    if h2ResponseDirection type g.direction then
      .call .handleEndFrame (updatePrevInfo env { g with savedStreamId := frame.streamId })
    else .goOn g

/-- The tail call `handle_data_frame` tries when the scan is over. -/
def handleDataFrame : Option (ScanProg × GrpcFramesCtx) :=
  if !g.hasPrevInfo || g.savedStreamId == 0 then none
  else if h2ResponseDirection g.prevType g.direction then
    some (.handleEndFrame, g)
  else none

def GrpcFramesCtx.countIteration : GrpcFramesCtx :=
  { g with iterations := (g.iterations + 1) % 256 }

def GrpcFramesCtx.terminate : GrpcFramesCtx := { g with terminateSearch := true }

/-- How a pass of the loop ends. -/
inductive PassExit
  | next (g : GrpcFramesCtx)
  | leave (g : GrpcFramesCtx)
  | call (p : ScanProg) (g : GrpcFramesCtx)

/-- The part of a pass after the handlers. -/
def passEnd (frame : FrameHeader) : PassExit :=
  if g.remaining ≤ frame.length + kFrameHeaderLen then
    .leave g.terminate
  else .next { g with pos := g.pos + (frame.length + kFrameHeaderLen) }

/-- The part of a pass after the HEADERS handler. -/
def passData (g : GrpcFramesCtx) (frame : FrameHeader) : PassExit :=
  if isInvalidFrame frame then .leave g.terminate
  else if httpGrpcDataStreamEnded frame then
    match handleDataStreamEnd env g frame with
    | .call p g => .call p g
    | .goOn g => passEnd g frame
  else passEnd g frame

/-- The part of a pass after the header was found worth handling. -/
def passFrame (g : GrpcFramesCtx) (frame : FrameHeader) : PassExit :=
  let g := if frame.type = framePushPromise then updatePrevInfo env g else g
  if isHeadersFrame frame then
    match handleHeadersFrame env g frame with
    | .call p g => .call p g
    | .goOn g => passData env g frame
  else passData env g frame

/-- A pass, once it is counted. -/
def examineFrame (g : GrpcFramesCtx) : Option Examined × PassExit :=
  if g.bytesLen ≤ g.pos then (none, .leave g)
  else
    let frame := nextFrame g
    if h2KeepsCutFrame g frame then
      (some ⟨g.buf.bytes, g.pos, frame, true⟩, .leave g.terminate)
    else (some ⟨g.buf.bytes, g.pos, frame, false⟩, passFrame env g frame)

/-- One pass of the loop of `obi_protocol_http2_grpc_frames`. -/
def framesPass (g : GrpcFramesCtx) : Option Examined × PassExit := examineFrame env g.countIteration

@[simp] def kMaxLoopIterations : Nat := 4
@[simp] def kIterations : Nat := 24

/-- The loop, with `n` passes to go. -/
def framesLoop (env : ScanEnv) : Nat → GrpcFramesCtx → List Examined × PassExit
  | 0, g => ([], .leave g)
  | n + 1, g =>
    let r := framesPass env g
    match r.2 with
    | .next g' =>
      let rest := framesLoop env n g'
      (r.1.toList ++ rest.1, rest.2)
    | exit => (r.1.toList, exit)

/-- What the program does behind its loop. -/
def afterLoop (g : GrpcFramesCtx) : ScanExit :=
  if !g.terminateSearch && decide (g.iterations < kIterations) then
    .call .grpcFrames g
  else
    .finish (h2SaveCutFrame env g)
      (!g.terminateSearch && decide (g.pos < g.bytesLen)) (handleDataFrame g)

def obiProtocolHttp2GrpcFrames (g : GrpcFramesCtx) : List Examined × ScanExit :=
  let r := framesLoop env kMaxLoopIterations g
  match r.2 with
  | .call p g => (r.1, .call p g)
  | .next g | .leave g => (r.1, afterLoop env g)

def obiProtocolHttp2GrpcHandleEndFrame (g : GrpcFramesCtx) : ScanExit :=
  if requestTypeByDirection g.direction kPacketTypeResponse = g.prevType then
    resumeFrameScan env (h2ForgetStream g)
  else resumeFrameScan env g

def runScanProg (g : GrpcFramesCtx) : ScanProg → List Examined × ScanExit
  | .grpcFrames => obiProtocolHttp2GrpcFrames env g
  | .handleStartFrame => ([], resumeFrameScan env g)
  | .handleEndFrame => ([], obiProtocolHttp2GrpcHandleEndFrame env g)

/-- What a read leaves behind: the headers looked at, the connection's entry,
whether a tail call failed and whether frames were left unread. -/
structure ScanOutcome where
  examined : List Examined
  cut : Option CutFrame
  (failed unscanned : Bool)

/-- A program and the ones it tail calls, with `left` tail calls to go. -/
def runScan (env : ScanEnv) : Nat → ScanProg → GrpcFramesCtx → Option CutFrame → ScanOutcome
  | left, p, g, cut =>
    let r := runScanProg env g p
    match r.2 with
    | .call p' g' => match left with
      | 0 => ⟨r.1, cut, true, false⟩
      | left + 1 =>
        let o := runScan env left p' g' cut
        { o with examined := r.1 ++ o.examined }
    | .finish saved unscanned last =>
      let cut := saved.or cut
      match last, left with
      | some (p', g'), left + 1 =>
        let o := runScan env left p' g' cut
        { o with examined := r.1 ++ o.examined, unscanned := unscanned || o.unscanned }
      | _, _ => ⟨r.1, cut, false, unscanned⟩

/-- The context a read starts with. -/
def GrpcFramesCtx.init (direction : UInt8) (bytes : List UInt8) : GrpcFramesCtx where
  direction := direction
  buf := ⟨bytes, env.beyond⟩
  pos := 0
  iterations := 0
  terminateSearch := false
  hasPrevInfo := false
  prevType := 0
  savedStreamId := 0

/-- `obi_protocol_http2` on a read. -/
def obiProtocolHttp2 (direction : UInt8) (bytes : List UInt8)
    (cut : Option CutFrame) : ScanOutcome :=
  let r := h2ResumeCutFrame env (GrpcFramesCtx.init env direction bytes) cut
  match env.tailCalls with
  | 0 => ⟨[], r.2, true, false⟩
  | left + 1 => runScan env left .grpcFrames r.1 r.2

/-- A read on a connection, and what the kernel answers while it is scanned. -/
structure H2Read where
  bytes : List UInt8
  env : ScanEnv

/-- The reads of a connection one after the other. -/
def scanReads : Option CutFrame → List H2Read → List ScanOutcome
  | _, [] => []
  | cut, r :: rest =>
    let o := obiProtocolHttp2 r.env tcpRecv r.bytes cut
    o :: scanReads o.cut rest

/-! ## Connections whose preface was missed -/

/-- The loop of `looks_like_http2_frames`. Which reads succeed is passed in. -/
def looksLikeWalk (reads : Nat → Bool) (buf : List UInt8) : (left i pos : Nat) → H2SniffState → Bool
  | 0, _, pos, st => h2SniffAccept st pos buf.length
  | left + 1, i, pos, st =>
    if pos ≥ buf.length then h2SniffAccept st pos buf.length
    else if u32 (pos + kH2FrameHeaderLen) > buf.length then false
    else if !reads i then false
    else
      let d := Lib.slice buf pos kH2FrameHeaderLen
      match h2SniffFrameHeader st d with
      | none => false
      | some st =>
        let pos := u32 (pos + kH2FrameHeaderLen + h2FramePayloadLen d)
        looksLikeWalk reads buf left (i + 1) pos st

/-- `looks_like_http2_frames`, on the `bytes_len` bytes at `u_buf`. -/
def looksLikeHttp2Frames (reads : Nat → Bool) (buf : List UInt8) : Bool :=
  if buf.length < kH2FrameHeaderLen then false
  else looksLikeWalk reads buf kH2SniffMaxFrames 0 0 .zero

end Obi.Ref
