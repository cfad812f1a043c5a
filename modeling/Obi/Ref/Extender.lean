import Obi.Lib.Machine
import Obi.Ref.Http1Inject
import Obi.Ref.TpInjector

/-!
# The extender: entry program, HTTP/1 programs and the jump table

`obi_packet_extender` runs for every message of an enrolled socket and decides
which chain the message goes down. `runProg` is the jump table, `hops` the
programs a send runs after the entry program under the kernel's limit on tail
calls, and `storageAfter` what a whole send leaves behind: the storage of its
socket is all that outlives it.
-/

namespace Obi.Ref
open Lib

/-! ## The HTTP/1 programs -/

@[simp] def kHttp1MaxScanIters : Nat := 4
@[simp] def kHttp1ScanChunkSize : Nat := 1024
@[simp] def tpTidPrefixSize : Nat := 16

/-- `is_traceparent`: the name in either of its two capitalisations. -/
def isTraceparent (p : List UInt8) : Bool :=
  (p.getD 0 0 == 0x54 || p.getD 0 0 == 0x74) && slice p 1 4 == [0x72, 0x61, 0x63, 0x65] &&
    (p.getD 5 0 == 0x70 || p.getD 5 0 == 0x50) &&
    slice p 6 7 == [0x61, 0x72, 0x65, 0x6e, 0x74, 0x3a, 0x20]

def isEoh (p : List UInt8) : Bool := slice p 0 4 == [0x0d, 0x0a, 0x0d, 0x0a]

/-- What one chunk of the header scan comes to. -/
inductive Http1Scan where
  | endOfHeaders
  | found (i : Nat)
  | more
deriving DecidableEq, Repr

/-- The scan loop of `find_existing_tp`: `ptr` is the mapped bytes from the
current position on, `left` the positions this chunk still covers. -/
def http1ScanFrom : (left i : Nat) → (ptr : List UInt8) → Http1Scan
  | 0, _, _ => .more
  | left + 1, i, ptr =>
    if tpSize + 1 > ptr.length ∨ isEoh ptr then .endOfHeaders
    else if isTraceparent ptr then .found i
    else http1ScanFrom left (i + 1) (ptr.drop 1)

/-- `obi_packet_extender_find_existing_tp`. -/
def findExistingTp (env : HopEnv) (s : Chain) : Exit × Chain :=
  if ¬ env.tailcallCtxMem then (.pass, s)
  else
    let niter := s.ctx.niter
    if niter ≥ kHttp1MaxScanIters then (.pass, s)
    else
      let ptr := (s.msg.mapped.getD []).drop (niter * kHttp1ScanChunkSize)
      if ptr.length < 1 then (.pass, s)
      else match http1ScanFrom (min ptr.length kHttp1ScanChunkSize) 0 ptr with
      | .endOfHeaders => (.tailCall .createTp, s)
      | .found i =>
        (.tailCall .parseExistingTp, { s with ctx := { s.ctx with
              http1TpOffset := niter * kHttp1ScanChunkSize + i } })
      | .more =>
        let s := { s with ctx := { s.ctx with niter := niter + 1 } }
        if s.ctx.niter < kHttp1MaxScanIters then (.tailCall .findExistingTp, s)
        else (.tailCall .createTp, s)

/-- The value of a header line at `ptr`: `none` where a separator or the line
end is out of place. -/
def parseTpLine (ptr : List UInt8) (tp : TpInfo) : Option TpInfo :=
  let tp := { tp with traceId := decodeHex 16 (ptr.drop tpTidPrefixSize) }
  if ptr.getD 48 0 ≠ 0x2d then none
  else
    let tp := { tp with spanId := decodeHex 8 (ptr.drop 49) }
    if ptr.getD 65 0 ≠ 0x2d then none
    else
      let tp := { tp with flags := ((decodeHex 1 (ptr.drop 66)).val).getD 0 0 }
      if ptr.getD 68 0 ≠ 0x0d ∨ ptr.getD 69 0 ≠ 0x0a then none else some tp

variable (env : HopEnv)

/-- `obi_packet_extender_parse_existing_tp`. -/
def parseExistingTp (s : Chain) : Exit × Chain :=
  if ¬ env.tailcallCtxMem ∨ ¬ env.tpInfoMem then (.pass, s)
  else
    let offset := min s.ctx.http1TpOffset (kHttp1MaxScanIters * kHttp1ScanChunkSize - 1)
    let ptr := (s.msg.mapped.getD []).drop offset
    if tpSize + 1 > ptr.length ∨ ¬ isTraceparent ptr then (.pass, s)
    else match parseTpLine ptr s.tpInfo.tp with
    | none => (.pass, s)
    | some tp =>
      let (overwrite, tp) := applyParentTp env.parentTp env.newSpanId
        { tp with ts := env.ktime, parentId := zeroId 8 }
      let msg :=
        if overwrite then s.msg.store (offset + 49) (encodeHex tp.spanId.val) else s.msg
      (.pass, { s with
          msg := msg
          ctx := { s.ctx with parentTp := env.parentTp }
          tpInfo := ⟨tp, s.ctx.pConn.pid, true, true⟩ })

/-- `obi_packet_extender_create_tp`. -/
def createTp (s : Chain) : Exit × Chain :=
  if ¬ env.tailcallCtxMem ∨ ¬ env.tpInfoMem then (.pass, s)
  else
    let made := createTraceInfo env s.ctx.pConn.pid s.tpInfo.tp.ts
    let s := { s with
      ctx := { s.ctx with parentTp := env.parentTp }
      tpInfo := { made with written := true } }
    if s.cfg.injectHttpHeaders then (.tailCall .writeMsgTraceparent, s) else (.pass, s)

/-- `obi_packet_extender_write_msg_tp`. -/
def writeMsgTp (s : Chain) : Exit × Chain :=
  if ¬ env.tpInfoMem then (.pass, s)
  else
    let msg := (s.msg.pullData 0 s.msg.size env.http1Pull).getD s.msg
    (.pass, { s with
        msg := (writeMsgTraceparent ⟨env.http1Push, env.http1Join⟩ msg s.tpInfo.tp).2 })

/-! ## The jump table -/

/-- `extender_jump_table`. -/
def runProg (p : Prog) (s : Chain) : Exit × Chain := match p with
  | .writeMsgTraceparent => writeMsgTp env s
  | .findExistingTp => findExistingTp env s
  | .createTp => createTp env s
  | .writeH2Traceparent => writeH2Tp env s
  | .createH2Tp => createH2Tp env s
  | .findExistingH2Tp => findExistingH2Tp env s
  | .validateH2Tp => validateH2TpProg env s
  | .detectH2 => detectH2 env s
  | .sniffH2 => sniffH2 env s
  | .parseExistingTp => parseExistingTp env s

/-- One tail call: the program entered and the chain it starts from. -/
def chainStep (c : Prog × Chain) : Option (Prog × Chain) := match runProg env c.1 c.2 with
  | (.tailCall q, s) => some (q, s)
  | _ => none

/-! ## The entry program -/

@[simp] def minHttpSize : Nat := 12

/-- One send: the message with the window it arrives with, what is known about
its connection, the scratch memory other sends left behind, and the answers
the entry program gets. -/
structure Send where
  msg : SkMsg
  pConn : PConn
  ctx : TailcallCtx
  tpInfo : TpInfoPid
  (tailcallCtxMem tpInfoMem : Bool)
  outgoing : Option TpInfoPid
  pullExisting : PullAnswer
  (fillExisting isHttpExisting validPid : Bool)
  pull : PullAnswer
  (fill isHttp : Bool)
  preface : PullAnswer
  hop : Nat → HopEnv

/-- `fill_msg_buffers`: nothing to fill from, or a map that cannot take it. -/
def fillMsgBuffers (msg : SkMsg) (pConn : PConn) (ok : Bool) : Bool :=
  !(msg.size == 0 || pConn.isSslConnection) && (msg.view 1).isSome && ok

/-- `wrap_http2_traceparent`. -/
def wrapHttp2Traceparent (send : Send) (s : Chain) : Exit :=
  if s.msg.size < kH2FrameHeaderLen then .pass
  else if s.h2SockState = .rejected then .pass
  else if s.isH2Socket then .tailCall .detectH2
  else if s.msg.size < kH2PrefaceCheckLen then .pass
  else match s.msg.pullView 0 kH2PrefaceCheckLen kH2PrefaceCheckLen send.preface with
  | none => .pass
  | some d =>
    if isHttp2Preface d then .tailCall .detectH2
    -- known-SSL conns carry ciphertext here
    else if s.ctx.pConn.alreadyTrackedSslHttp2 then .pass
    else .tailCall .sniffH2

/-- `handle_existing_tp_pid`: `some` exit when it settles the message. -/
def handleExistingTpPid (send : Send) (s : Chain) (tpPid : TpInfoPid) : Option Exit × Chain :=
  if ¬ tpPid.valid then (some .pass, s)
  else
    let s := { s with msg := (s.msg.pullData 0 s.msg.size send.pullExisting).getD s.msg }
    if ¬ fillMsgBuffers s.msg s.ctx.pConn send.fillExisting then (none, s)
    else if send.isHttpExisting then
      if s.cfg.injectHttpHeaders ∧ send.tpInfoMem then
        (some (.tailCall .writeMsgTraceparent), { s with tpInfo := { tpPid with written := true } })
      else (some .pass, s)
    else (none, s)

/-- `obi_packet_extender` past the connection-scoped context. -/
def dispatch (send : Send) (s : Chain) : Exit × Chain :=
  if s.ctx.pConn.isGoGrpcClientConn then
    (.tailCall .detectH2, { s with
      msg := (s.msg.pullData 0 s.msg.size send.pull).getD s.msg
      ctx := { s.ctx with goGrpcConn := true } })
  else if ¬ send.validPid then (.pass, s)
  else
    let s := { s with msg := (s.msg.pullData 0 s.msg.size send.pull).getD s.msg }
    if s.isH2Socket then (.tailCall .detectH2, s)
    else if ¬ fillMsgBuffers s.msg s.ctx.pConn send.fill ∨ s.msg.size ≤ minHttpSize then
      (.pass, s)
    else if send.isHttp then (.tailCall .findExistingTp, s)
    else (wrapHttp2Traceparent send s, s)

/-- `obi_packet_extender`. -/
def obiPacketExtender (cfg : Config) (send : Send) (sk : SkStorage) : Exit × Chain :=
  let s : Chain := ⟨cfg, send.msg, send.ctx, send.tpInfo, sk⟩
  if ¬ (cfg.injectHttpHeaders || cfg.injectTcpOptions) then (.pass, s)
  else if ¬ send.tailcallCtxMem then (.pass, s)
  else
    let s := { s with ctx := { s.ctx with
      pConn := send.pConn
      niter := 0
      h2ScanPos := 0
      h2Frames := 0
      h2TpRetries := 0
      h2Framing := .zero
      goGrpcConn := false } }
    match getTpInfoPid send.outgoing s.ctx.pConn.pid with
    | none => dispatch send s
    | some tpPid =>
      -- HTTP/2 carries per-stream traceparents in HPACK
      if s.isH2Socket then dispatch send s
      else match handleExistingTpPid send s tpPid with
      | (some exit, s) => (exit, s)
      | (none, s) => dispatch send s

/-! ## A send under the kernel's limit on tail calls -/

/-- The kernel's limit, `MAX_TAIL_CALL_CNT`. -/
@[simp] def maxTailCallCnt : Nat := 33

/-- A program run after the entry program: its answers, and what it started
from. -/
abbrev Hop := HopEnv × Prog × Chain

/-- The chain a hop leaves. -/
def Hop.after (h : Hop) : Chain := (runProg h.1 h.2.1 h.2.2).2

/-- The programs tail-called after the entry program, at most `limit`. -/
def hops (limit : Nat) (cfg : Config) (send : Send) (sk : SkStorage) : List Hop :=
  match obiPacketExtender cfg send sk with
  | (.tailCall p, s) => visited chainStep send.hop limit 0 (p, s)
  | _ => []

/-- The storage a send leaves on its socket. -/
def storageAfter (cfg : Config) (send : Send) (sk : SkStorage) : SkStorage :=
  match (hops maxTailCallCnt cfg send sk).getLast? with
  | some h => (Hop.after h).sk
  | none => (obiPacketExtender cfg send sk).2.sk

/-! ## The sends of a socket -/

/-- One send of a socket, with the programs it ran. -/
structure SendRecord where
  send : Send
  hops : List Hop

/-- The sends of one socket, one after the other. -/
def sendRecords (cfg : Config) : SkStorage → List Send → List SendRecord
  | _, [] => []
  | sk, send :: rest =>
    ⟨send, hops maxTailCallCnt cfg send sk⟩ :: sendRecords cfg (storageAfter cfg send sk) rest

end Obi.Ref
