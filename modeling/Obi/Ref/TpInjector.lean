import Obi.Ref.H2TpScan
import Obi.Ref.H2WriteTransaction

/-!
# The HTTP/2 programs of `tpinjector/tpinjector.c`

One outgoing message is handled by a chain of programs linked by tail calls.
What they pass on lives in three places: the message, the per-CPU scratch
(`tailcall_ctx`, `tp_info_mem`), and the storage of the socket. `Chain` is the
three together; a program is a function from a `Chain` and the answers of one
hop to an `Exit` and the `Chain` it leaves. Every statement that follows a
failed tail call returns `SK_PASS`, so a tail call is an exit.

Maps shared with the other tracers can change at any time, so each lookup of
one is an answer of the hop.
-/

namespace Obi.Ref
open Lib

/-- The programs of `extender_jump_table`. -/
inductive Prog where
  | writeMsgTraceparent | findExistingTp | createTp | writeH2Traceparent | createH2Tp
  | findExistingH2Tp | validateH2Tp | detectH2 | sniffH2 | parseExistingTp
deriving DecidableEq, Repr

/-- How a program ends: with a verdict, or in the next program. -/
inductive Exit where
  | pass | drop
  | tailCall (p : Prog)
deriving DecidableEq, Repr

/-- The values of `sk_h2_conn_flag`. -/
inductive H2SockState where
  | none | preface | confirmed | rejected | probation
deriving DecidableEq, Repr

/-- The bits of `sk_h2_flags`. -/
structure H2SkFlags where
  (server appTp : Bool)
deriving DecidableEq, Repr

/-- The two storages of a socket; `none` where no entry was created. -/
structure SkStorage where
  connFlag : Option H2SockState
  h2Flags : Option H2SkFlags
deriving DecidableEq, Repr

/-- `tp_info_pid_t`, without the request type nothing here reads. -/
structure TpInfoPid where
  tp : TpInfo
  pid : Nat
  (valid written : Bool)
deriving DecidableEq

/-- Scratch memory after a `memset`. -/
def TpInfoPid.zero : TpInfoPid := ⟨.zero, 0, false, false⟩

/-- The connection key `p_conn`, as what the maps keyed by it hold during one
send. -/
structure PConn where
  pid : Nat
  (isSslConnection alreadyTrackedSslHttp2 isGoGrpcClientConn : Bool)
deriving DecidableEq, Repr

/-- `tailcall_ctx`. The pair of `parent_tp` and `has_parent_tp` is one option,
and of the egress key only the stream id changes along a chain. -/
structure TailcallCtx where
  pConn : PConn
  parentTp : Option TpInfo
  (streamId h2FrameOffset h2PayloadLen h2HpackOffset h2HpackLen h2ScanPos h2TpCandidatePos : Nat)
  http1TpOffset : Nat
  h2Framing : H2SniffState
  (niter h2Frames h2TpRetries : Nat)
  (goGrpcConn tpPresent scanExhausted : Bool)
  opener : UInt8
deriving DecidableEq

def TailcallCtx.zero : TailcallCtx :=
  { pConn := ⟨0, false, false, false⟩, parentTp := none, streamId := 0, h2FrameOffset := 0
    h2PayloadLen := 0, h2HpackOffset := 0, h2HpackLen := 0, h2ScanPos := 0
    h2TpCandidatePos := 0, http1TpOffset := 0, h2Framing := .zero, niter := 0, h2Frames := 0
    h2TpRetries := 0, goGrpcConn := false, tpPresent := false, scanExhausted := false
    opener := 0 }

/-- What is fixed when the programs are loaded: the bits of `inject_flags`, and
whether the kernel verified the mutator that can roll back. -/
structure Config where
  (injectHttpHeaders injectTcpOptions rollback : Bool)
deriving DecidableEq, Repr

/-- What a chain of programs works on. -/
structure Chain where
  cfg : Config
  msg : SkMsg
  ctx : TailcallCtx
  tpInfo : TpInfoPid
  sk : SkStorage

/-- The pulls of one `h2_headers_opener`. -/
structure OpenerAnswers where
  (window byte : PullAnswer)

/-- The answers one hop gets from helpers and from shared maps. The names are
the call sites': `scan` is the pull of `pull_hpack_window`, `spanId` the one
before a span id is written over, `create` the storage entry made for a new
state. -/
structure HopEnv where
  (tailcallCtxMem tpInfoMem expectedMem : Bool)
  preface : PullAnswer
  settings : ParseAnswers
  frames : Nat → ParseAnswers
  sniff : Nat → PullAnswer
  opener : OpenerAnswers
  (scan spanId : PullAnswer)
  transaction : TransactionAnswers
  http1Pull : PullAnswer
  http1Push : PushAnswer
  http1Join : PullAnswer
  create : H2SockState → Bool
  (createFlags applicationOwned : Bool)
  (outgoing outgoingAgain : Option TpInfoPid)
  outgoingInserted : Bool
  parentTp : Option TpInfo
  newSpanId : ByteVec 8
  newTraceId : ByteVec 16
  sampledFlags : UInt8
  ktime : Nat

/-- Every helper succeeds and maps what it was asked for, and no map holds
anything. -/
def HopEnv.ok : HopEnv :=
  { tailcallCtxMem := true
    tpInfoMem := true
    expectedMem := true
    preface := .full
    settings := ⟨.full, .full⟩
    frames := fun _ => ⟨.full, .full⟩
    sniff := fun _ => .full
    opener := ⟨.full, .full⟩
    scan := .full
    spanId := .full
    transaction :=
      { linearize := .full, preflight := .full, push := .ok (fun _ => 0) none
        write := .full, frame := .full, join := .full
        pop := .ok none, popRetry := .ok none
        restore := .full, restoreRetry := .full }
    http1Pull := .full
    http1Push := .ok (fun _ => 0) none
    http1Join := .full
    create := fun _ => true
    createFlags := true
    applicationOwned := false
    outgoing := none
    outgoingAgain := none
    outgoingInserted := true
    parentTp := none
    newSpanId := sampleTp.spanId
    newTraceId := sampleTp.traceId
    sampledFlags := 1
    ktime := 0 }

/-! ## Socket state -/

variable (s : Chain)

def Chain.h2SockState : H2SockState := s.sk.connFlag.getD .none

/-- `set_h2_sock_state`: an entry that exists is updated, a missing one has to
be created first. -/
def Chain.setH2SockState (env : HopEnv) (state : H2SockState) : Chain :=
  if s.sk.connFlag.isSome || env.create state then
    { s with sk := { s.sk with connFlag := some state } }
  else s

def Chain.isH2Socket : Bool :=
  s.h2SockState == .preface || s.h2SockState == .probation || s.h2SockState == .confirmed

/-- `h2_sk_flag(msg, k_h2_sk_server)`. -/
def Chain.skServer : Bool := (s.sk.h2Flags.map (·.server)).getD false

/-- `h2_sk_flag(msg, k_h2_sk_app_tp)`. -/
def Chain.skAppTp : Bool := (s.sk.h2Flags.map (·.appTp)).getD false

/-- `set_h2_sk_flag`, the flag given as the update it makes. -/
def Chain.setH2SkFlag (env : HopEnv) (set : H2SkFlags → H2SkFlags) : Chain :=
  match s.sk.h2Flags with
  | some flags => { s with sk := { s.sk with h2Flags := some (set flags) } }
  | none =>
    if env.createFlags then
      { s with sk := { s.sk with h2Flags := some (set ⟨false, false⟩) } }
    else s

def Chain.setServer (env : HopEnv) : Chain := s.setH2SkFlag env fun f => { f with server := true }

def Chain.setAppTp (env : HopEnv) : Chain := s.setH2SkFlag env fun f => { f with appTp := true }

/-- `h2_resume_after`: back to `detect_h2` for the next frame of the packet. -/
def h2ResumeAfter (nextPos : Nat) : Exit × Chain :=
  (.tailCall .detectH2, { s with ctx := { s.ctx with
        h2ScanPos := u32 nextPos
        h2Frames := (s.ctx.h2Frames + 1) % 256 } })

/-- `get_tp_info_pid`: port pairs are shared across processes, so an entry
counts only for the process that made it. -/
def getTpInfoPid (found : Option TpInfoPid) (pid : Nat) : Option TpInfoPid :=
  found.filter fun tp => tp.pid == pid

/-! ## Whether a frame may be injected, `tpinjector/inject_policy.h` -/

/-- `h2_inject_verdict_t`. -/
inductive H2InjectVerdict where
  | allow | skipUnreadable | skipNotRequest | skipServerSocket | skipUprobeWrote | skipGoNoTp
  | skipAppPropagates | skipUnscanned
deriving DecidableEq, Repr

/-- `h2_inject_facts_t`; an opener that could not be read is `none`. -/
structure H2InjectFacts where
  opener : Option UInt8
  (skServer frameTpPresent skAppTp uprobeWrote goConnWithoutTp scanIncomplete : Bool)

def h2InjectVerdict (f : H2InjectFacts) : H2InjectVerdict := match f.opener with
  | none => .skipUnreadable
  | some opener =>
    if ¬ h2HpackOpensRequest opener then .skipNotRequest
    else if f.skServer then .skipServerSocket
    else if f.uprobeWrote then .skipUprobeWrote
    else if f.goConnWithoutTp then .skipGoNoTp
    else if f.frameTpPresent || f.skAppTp then .skipAppPropagates
    else if f.scanIncomplete then .skipUnscanned
    else .allow

/-! ## Reading openers and sniffing frames -/

/-- `h2_headers_opener`: the first field byte of a header block, past any size
updates. -/
def h2HeadersOpener (ans : OpenerAnswers) (msg : SkMsg) (hpackOffset msgSize : Nat) :
    Option UInt8 :=
  let windowEnd := u32 (hpackOffset + kH2HpackOpenerWindow)
  match (if windowEnd ≤ msgSize then
      msg.pullView hpackOffset windowEnd kH2HpackOpenerWindow ans.window else none) with
  | some none => none
  | some (some w) =>
    let skip := h2HpackSkipSizeUpdates w kH2HpackOpenerWindow
    if skip ≥ kH2HpackOpenerWindow then none
    else some (w.getD (skip &&& kH2HpackOpenerMask) 0)
  | none =>
    if u32 (hpackOffset + 1) > msgSize then none
    else match msg.pullView hpackOffset (u32 (hpackOffset + 1)) 1 ans.byte with
    | some (some d) =>
      if h2HpackIsSizeUpdate (d.getD 0 0) then none else some (d.getD 0 0)
    | _ => none

/-- `is_http2_preface`, on the four bytes a pull of the head mapped. -/
def isHttp2Preface (d : Option (List UInt8)) : Bool := d == some [0x50, 0x52, 0x49, 0x20]

/-- The loop of `sniff_http2_frames`: `left` frames may still be walked, `i` is
the number walked so far. -/
def sniffWalk (ans : Nat → PullAnswer) (msg : SkMsg) (strict : Bool) :
    (left i pos : Nat) → H2SniffState → (hpackAt : Nat) → H2WalkResult × Nat
  | 0, _, pos, st, hpackAt => (h2SniffWalkResult st pos msg.size, hpackAt)
  | left + 1, i, pos, st, hpackAt =>
    if pos ≥ msg.size then (h2SniffWalkResult st pos msg.size, hpackAt)
    else if u32 (pos + kH2FrameHeaderLen) > msg.size then (.mismatch, hpackAt)
    else match msg.pullView pos (u32 (pos + kH2FrameHeaderLen)) kH2FrameHeaderLen (ans i) with
    | some (some d) => match (if strict then h2SniffFrameHeader st d else some st) with
      | none => (.mismatch, hpackAt)
      | some st' =>
        let hpackAt :=
          if d.getD 3 0 == kH2FrameHeaders && !st.seenHeaders then
            u32 (pos + kH2FrameHeaderLen + h2HpackPrefixLen (d.getD 4 0))
          else hpackAt
        sniffWalk ans msg strict left (i + 1)
          (u32 (pos + kH2FrameHeaderLen + h2FramePayloadLen d)) st' hpackAt
    -- bytes the helpers fail to expose are no evidence against HTTP/2
    | _ => (.unfinished, hpackAt)

/-- `sniff_http2_frames`: the verdict, and the HPACK offset of the first HEADERS
frame, 0 if there was none. -/
def sniffHttp2Frames (ans : Nat → PullAnswer) (msg : SkMsg) (strict : Bool) : H2WalkResult × Nat :=
  sniffWalk ans msg strict kH2SniffMaxFrames 0 0 .zero 0

variable (env : HopEnv)

/-- `sniffed_block_is_h2`: whether the block opens with a pseudo-header. A
response makes the socket a server's. -/
def sniffedBlockIsH2 (s : Chain) (hpackAt : Nat) : Bool × Chain :=
  match h2HeadersOpener env.opener s.msg hpackAt s.msg.size with
  | none => (false, s)
  | some opener =>
    if h2HpackOpensResponse opener then (true, s.setServer env)
    else (h2HpackOpensRequest opener, s)

/-- `obi_packet_extender_sniff_h2`. -/
def sniffH2 (s : Chain) : Exit × Chain :=
  let onProbation := s.h2SockState == .probation
  let (walk, hpackAt) := sniffHttp2Frames env.sniff s.msg (!onProbation)
  if onProbation then
    match walk with
    | .unfinished => (.pass, s)
    | .mismatch => (.pass, s.setH2SockState env .rejected)
    | .tiled => (.tailCall .detectH2, s.setH2SockState env .confirmed)
  else if walk = .tiled ∧ hpackAt ≠ 0 then
    let (isH2, s) := sniffedBlockIsH2 env s hpackAt
    if isH2 then (.pass, s.setH2SockState env .probation) else (.pass, s)
  else (.pass, s)

/-! ## `obi_packet_extender_detect_h2` -/

/-- Where a scan of `detect_h2` stands: the chain, the position, and the socket
state the program holds in a local. -/
structure DetectPoint where
  chain : Chain
  pos : Nat
  state : H2SockState

/-- The preface check of the first hop. An `error` is a return of `SK_PASS`. -/
def detectPreface (s : Chain) : Except Chain DetectPoint :=
  let here : DetectPoint := ⟨s, s.ctx.h2ScanPos, s.h2SockState⟩
  if here.pos = 0 ∧ here.state = .none ∧ s.msg.size ≥ kH2PrefaceCheckLen then
    match s.msg.pullView 0 kH2PrefaceCheckLen kH2PrefaceCheckLen env.preface with
    | none => .ok here
    | some d =>
      if isHttp2Preface d then
        let s := s.setH2SockState env .preface
        if s.msg.size ≥ kH2PrefaceLen + kH2FrameHeaderLen then
          .ok ⟨s, kH2PrefaceLen, .preface⟩
        else .error s
      else .ok here
  else .ok here

/-- The SETTINGS frame a preface has to be followed by. -/
def detectSettings (p : DetectPoint) : Except Chain DetectPoint :=
  if p.state = .preface then
    match parseH2FrameAt env.settings p.chain.msg p.pos p.chain.msg.size with
    | none => .error p.chain
    | some sf =>
      if sf.ftype ≠ kH2FrameSettings then
        .error (p.chain.setH2SockState env .rejected)
      else
        let s := p.chain.setH2SockState env .confirmed
        let pos := u32 (p.pos + kH2FrameHeaderLen + sf.payloadLen)
        if s.msg.size < kH2FrameHeaderLen ∨ pos ≥ s.msg.size then .error s
        else .ok ⟨s, pos, .confirmed⟩
  else .ok p

/-- A HEADERS frame that ends its block: hand it to the inject chain, or go on
to the next frame. -/
def detectHeaders (s : Chain) (pos : Nat) (f : H2FrameInfo) : Exit × Chain :=
  let opener := h2HeadersOpener env.opener s.msg f.hpackOffset s.msg.size
  let s := if opener.any h2HpackOpensResponse then s.setServer env else s
  let nextPos := pos + kH2FrameHeaderLen + f.payloadLen
  let facts : H2InjectFacts :=
    { opener := opener
      skServer := s.skServer
      frameTpPresent := false
      skAppTp := false
      uprobeWrote := false
      goConnWithoutTp := false
      scanIncomplete := false }
  if h2InjectVerdict facts ≠ .allow then h2ResumeAfter s nextPos
  else if env.applicationOwned then h2ResumeAfter s nextPos
  else
    let s := { s with ctx := { s.ctx with
      streamId := f.streamId
      h2FrameOffset := pos
      h2PayloadLen := f.payloadLen
      h2HpackOffset := f.hpackOffset
      h2HpackLen := f.hpackLen
      tpPresent := false
      scanExhausted := false
      h2TpRetries := 0
      opener := opener.getD 0 } }
    if (getTpInfoPid env.outgoing s.ctx.pConn.pid).any fun tp => tp.valid && tp.written then
      h2ResumeAfter s nextPos
    else
      (.tailCall .findExistingH2Tp, { s with ctx := { s.ctx with h2TpCandidatePos := 0 } })

/-- The frame loop: `left` frames may still be looked at in this hop. -/
def detectFrames (env : HopEnv) : (left i : Nat) → Chain → (pos : Nat) → Exit × Chain
  | 0, _, s, pos =>
    -- more frames than one pass can walk
    if pos < s.msg.size then h2ResumeAfter s pos else (.pass, s)
  | left + 1, i, s, pos => match parseH2FrameAt (env.frames i) s.msg pos s.msg.size with
    | none => (.pass, s)
    | some f =>
      match h2SniffCheckFrame s.ctx.h2Framing f.payloadLen f.ftype f.flags f.rBit f.streamId with
      | none => (.pass, s)
      | some framing =>
        let s := { s with ctx := { s.ctx with h2Framing := framing } }
        if f.isHeadersEnd then detectHeaders env s pos f
        else
          detectFrames env left (i + 1) s (u32 (pos + kH2FrameHeaderLen + f.payloadLen))

/-- `obi_packet_extender_detect_h2`. -/
def detectH2 (s : Chain) : Exit × Chain :=
  if ¬ env.tailcallCtxMem then (.pass, s)
  else if s.ctx.h2Frames ≥ kH2MaxFramesPerPacket then (.pass, s)
  else if s.h2SockState = .rejected then (.pass, s)
  else if s.ctx.h2ScanPos = 0 ∧ s.ctx.pConn.isSslConnection then
    (.pass, s.setH2SockState env .rejected)
  else if s.h2SockState = .probation then (.tailCall .sniffH2, s)
  else match detectPreface env s with
  | .error s => (.pass, s)
  | .ok p =>
    if p.chain.msg.size < kH2FrameHeaderLen ∨ p.pos ≥ p.chain.msg.size then
      (.pass, p.chain)
    else match detectSettings env p with
    | .error s => (.pass, s)
    | .ok p =>
      if p.state ≠ .confirmed then (.pass, p.chain)
      else if p.chain.skServer then (.pass, p.chain)
      else detectFrames env kH2MaxFrameScan 0 p.chain p.pos

/-! ## Looking for a traceparent the frame already carries -/

/-- `pull_hpack_window` and the pointers it leaves: every byte mapped from
`hpackStart` on. `none` is a failed pull or a null pointer. -/
def pullHpackWindow (ans : PullAnswer) (msg : SkMsg) (hpackStart hpackLen : Nat) :
    Option (List UInt8) :=
  if hpackLen < kH2TpNeedNameHuffman then none
  else
    let pullLen := min hpackLen (kH2MaxHpackScan + kH2TpHpackSize)
    match msg.pullData hpackStart (u32 (hpackStart + pullLen)) ans with
    | none => none
    | some msg => msg.mapped

/-- The loop of `find_first_h2_tp_candidate`, over the mapped bytes. -/
def findCandidateFrom (data : List UInt8) (hpackLen : Nat) : (left i : Nat) → Nat
  | 0, _ => kH2MaxHpackScan
  | left + 1, i =>
    if i + kH2TpNeedNameHuffman > hpackLen then kH2MaxHpackScan
    else if i + kH2TpNeedNameHuffman > data.length then kH2MaxHpackScan
    else if h2TpIsCandidate (data.getD i 0) (data.getD (i + 1) 0) (data.getD (i + 2) 0) then i
    else findCandidateFrom data hpackLen left (i + 1)

/-- `find_first_h2_tp_candidate`: an offset, or `k_h2_max_hpack_scan`. -/
def findFirstH2TpCandidate (ans : PullAnswer) (msg : SkMsg) (hpackStart hpackLen : Nat) : Nat :=
  match pullHpackWindow ans msg hpackStart hpackLen with
  | none => kH2MaxHpackScan
  | some data => findCandidateFrom data hpackLen kH2MaxHpackScan 0

def Chain.setCandidate (pos : Nat) : Chain :=
  { s with ctx := { s.ctx with h2TpCandidatePos := pos } }

/-- `obi_packet_extender_find_existing_h2_tp`. -/
def findExistingH2Tp (s : Chain) : Exit × Chain :=
  if ¬ env.tailcallCtxMem then (.pass, s)
  else
    let scanStart := s.ctx.h2TpCandidatePos
    if scanStart ≥ kH2MaxHpackScan ∨ scanStart ≥ s.ctx.h2HpackLen then
      (.tailCall .validateH2Tp, s.setCandidate kH2MaxHpackScan)
    else
      let maxSearchLen := kH2MaxHpackScan - scanStart + kH2TpHpackHuffmanSize - 1
      let searchLen := min (s.ctx.h2HpackLen - scanStart) maxSearchLen
      let candidate := findFirstH2TpCandidate env.scan s.msg
        (u32 (s.ctx.h2HpackOffset + scanStart)) searchLen
      if candidate < kH2MaxHpackScan ∧ scanStart + candidate < kH2MaxHpackScan then
        (.tailCall .validateH2Tp, s.setCandidate (scanStart + candidate))
      else (.tailCall .validateH2Tp, s.setCandidate kH2MaxHpackScan)

/-- `apply_parent_tp`: whether the span id has to be written over, and the
context with the parent stitched in. -/
def applyParentTp (parent : Option TpInfo) (newSpanId : ByteVec 8) (tp : TpInfo) : Bool × TpInfo :=
  match parent with
  | none => (false, tp)
  | some parent =>
    if tp.traceId ≠ parent.traceId then (false, tp)
    else
      let tp := { tp with parentId := parent.spanId }
      if tp.spanId ≠ parent.parentId then (false, tp)
      else (true, { tp with spanId := newSpanId })


/-- The span id of a forwarded header written over in place, when the message
lets it be mapped. -/
def overwriteSpanId (ans : PullAnswer) (msg : SkMsg) (spanIdOffset : Nat)
    (spanId : ByteVec 8) : SkMsg :=
  match msg.pullData spanIdOffset (u32 (spanIdOffset + 16)) ans with
  | none => msg
  | some msg => match msg.view 16 with
    | none => msg
    | some _ => msg.store 0 (encodeHex spanId.val)

/-- A traceparent the frame carries and we can read: adopt it and go on to the
next frame. -/
def adoptH2Tp (s : Chain) (off : Nat) (tp : TpInfo) : Exit × Chain :=
  let (overwrite, tp) := applyParentTp env.parentTp env.newSpanId { tp with parentId := zeroId 8 }
  let spanIdOffset := u32 (s.ctx.h2HpackOffset + s.ctx.h2TpCandidatePos + off)
  let msg :=
    if overwrite then overwriteSpanId env.spanId s.msg spanIdOffset tp.spanId else s.msg
  let s := { s with
    msg := msg
    ctx := { s.ctx with parentTp := env.parentTp }
    tpInfo := ⟨{ tp with ts := env.ktime }, s.ctx.pConn.pid, true, true⟩ }
  h2ResumeAfter s (s.ctx.h2FrameOffset + kH2FrameHeaderLen + s.ctx.h2PayloadLen)

/-- A candidate that is no traceparent: look again from `next` on, as long as
there is something left and a retry to spend. -/
def retryH2Tp (next : Nat) : Exit × Chain :=
  if next ≥ kH2MaxHpackScan then (.tailCall .createH2Tp, s)
  else if s.ctx.h2TpRetries + 1 ≥ kH2MaxTpRetries then
    (.tailCall .createH2Tp, { s with ctx := { s.ctx with scanExhausted := true } })
  else
    (.tailCall .findExistingH2Tp, { s with ctx := { s.ctx with
          h2TpRetries := (s.ctx.h2TpRetries + 1) % 256
          h2TpCandidatePos := next } })

/-- `obi_packet_extender_validate_h2_tp`. -/
def validateH2TpProg (s : Chain) : Exit × Chain :=
  if ¬ env.tailcallCtxMem then (.pass, s)
  else
    let target := s.ctx.h2TpCandidatePos
    if target ≥ kH2MaxHpackScan then (.tailCall .createH2Tp, s)
    else if ¬ env.tpInfoMem then (.pass, s)
    else if target ≥ s.ctx.h2HpackLen then (.tailCall .createH2Tp, s)
    else match pullHpackWindow env.scan s.msg (u32 (s.ctx.h2HpackOffset + target))
        (s.ctx.h2HpackLen - target) with
    | none => (.tailCall .createH2Tp, s)
    | some data =>
      if kH2TpNeedNameHuffman > data.length then (.tailCall .createH2Tp, s)
      else match h2TpClassify data with
      | .none => retryH2Tp s (target + 1)
      | .present =>
        (.tailCall .createH2Tp, { s with ctx := { s.ctx with tpPresent := true } }.setAppTp env)
      | .adoptable =>
        if data.getD 1 0 == kH2NlbPlain then
          match validateH2TpPlain data s.tpInfo.tp with
          | some (off, tp) => adoptH2Tp env s off tp
          | none => retryH2Tp s (target + kH2TpHpackSize)
        else match validateH2TpHuffman data s.tpInfo.tp with
        | some (off, tp) => adoptH2Tp env s off tp
        | none => retryH2Tp s (target + kH2TpHpackHuffmanSize)

/-! ## Creating and writing a traceparent -/

/-- `create_trace_info`, with the parent the lookup gave. -/
def createTraceInfo (pid : Nat) (ts : Nat) : TpInfoPid :=
  let tp : TpInfo := match env.parentTp with
    | some parent =>
      { traceId := parent.traceId, spanId := env.newSpanId, parentId := parent.spanId,
        ts := ts, flags := parent.flags }
    | none =>
      { traceId := env.newTraceId, spanId := env.newSpanId, parentId := zeroId 8,
        ts := ts, flags := env.sampledFlags }
  ⟨tp, pid, true, false⟩

def validTrace (traceId : ByteVec 16) : Bool := traceId.val.any (· != 0)

/-- The context to write: the one stored for the stream, or a new one unless
someone else publishes one first. -/
def chooseH2Tp (s : Chain) (existing : Option TpInfoPid) : Chain := match existing with
  | some tp => { s with tpInfo := tp }
  | none =>
    let made := createTraceInfo env s.ctx.pConn.pid s.tpInfo.tp.ts
    let tp :=
      if env.outgoingInserted then made
      else (getTpInfoPid env.outgoingAgain s.ctx.pConn.pid).getD made
    { s with ctx := { s.ctx with parentTp := env.parentTp }, tpInfo := tp }

/-- `obi_packet_extender_create_h2_tp`. -/
def createH2Tp (s : Chain) : Exit × Chain :=
  if ¬ env.tailcallCtxMem ∨ ¬ env.tpInfoMem then (.pass, s)
  else
    let s := { s with tpInfo := .zero }
    let existing := (getTpInfoPid env.outgoing s.ctx.pConn.pid).filter fun tp =>
      tp.valid && validTrace tp.tp.traceId
    let facts : H2InjectFacts :=
      { opener := some s.ctx.opener
        skServer := s.skServer
        frameTpPresent := s.ctx.tpPresent
        skAppTp := s.skAppTp
        uprobeWrote := existing.any (·.written)
        goConnWithoutTp := existing.isNone && s.ctx.goGrpcConn
        scanIncomplete := s.ctx.scanExhausted || decide (s.ctx.h2HpackLen > kH2MaxHpackScan) }
    if h2InjectVerdict facts ≠ .allow then
      h2ResumeAfter s (s.ctx.h2FrameOffset + kH2FrameHeaderLen + s.ctx.h2PayloadLen)
    else
      let s := chooseH2Tp env s existing
      if s.cfg.injectHttpHeaders then (.tailCall .writeH2Traceparent, s) else (.pass, s)

/-- The field `write_h2_tp` prepares in its scratch buffer. -/
def h2WriteExpected (tp : TpInfo) : ByteVec kH2TpHpackSize :=
  ⟨makeH2TpHpack tp, length_makeH2TpHpack tp⟩

/-- The transaction `write_h2_tp` runs for the frame of the context. -/
def writeH2Transaction (s : Chain) : H2SocketTransactionOutcome × SkMsg :=
  h2WriteSocketTransaction env.transaction s.msg s.ctx.h2FrameOffset s.ctx.h2PayloadLen
    (u32 (s.ctx.h2HpackOffset + s.ctx.h2HpackLen)) (some (h2WriteExpected s.tpInfo.tp))

/-- `obi_packet_extender_write_h2_tp`, or the program loaded in its place on
kernels that cannot verify the rollback. -/
def writeH2Tp (s : Chain) : Exit × Chain :=
  if ¬ env.tailcallCtxMem then (.pass, s)
  else
    let nextPos := s.ctx.h2FrameOffset + kH2FrameHeaderLen + s.ctx.h2PayloadLen
    if ¬ s.cfg.rollback then h2ResumeAfter s nextPos
    else if ¬ env.tpInfoMem then (.pass, s)
    else if u32 (s.ctx.h2PayloadLen + kH2TpHpackSize) > kH2DefaultMaxFrameSize then (.pass, s)
    else if ¬ env.expectedMem then (.pass, s)
    else match writeH2Transaction env s with
    | (.rollbackUncertain, msg) => (.drop, { s with msg := msg })
    | (.committed, msg) =>
      h2ResumeAfter { s with msg := msg, tpInfo := { s.tpInfo with written := true } }
        (nextPos + kH2TpHpackSize)
    | (_, msg) => h2ResumeAfter { s with msg := msg } nextPos

end Obi.Ref
