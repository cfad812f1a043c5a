import Obi.Lib.Table
import Obi.Ref.H2FrameScan
import Obi.Ref.TpInjector

/-!
# Server requests by trace, `common/http_trace_parent.h`

`http_server_trace_index` has one reference for each process and trace id, to a request
that is looked up again in the maps of ongoing requests. Those maps are written by the
rest of the tracer; the fields kept here are the ones the index reads. No map loses
entries by itself. Of a parent the request type and `response_sent`, which are always the
same, are left out.
-/

namespace Obi.Ref
open Lib

/-- `pid_connection_info_t`. -/
structure PidConnectionInfo where
  conn : ConnectionInfo
  pid : Nat
deriving DecidableEq

/-- `http2_conn_stream_t`. -/
structure Http2ConnStream where
  pidConn : PidConnectionInfo
  streamId : Nat
deriving DecidableEq

/-- `http_server_trace_key_t`. -/
structure HttpServerTraceKey where
  traceId : ByteVec 16
  pid : Nat
deriving DecidableEq

/-- `http_server_trace_ref_t`. -/
structure HttpServerTraceRef where
  stream : Http2ConnStream
  spanId : ByteVec 8
  ambiguous : Bool
deriving DecidableEq

@[simp] def kHttpResponseParsed : UInt8 := 0

/-- What the index reads of an `http2_grpc_request_t`. -/
structure OngoingHttp2Grpc where
  type : UInt8
  (newConnId startMonotimeNs endMonotimeNs : Nat)
  tp : TpInfo

/-- What the index reads of an `http_info_t`. -/
structure OngoingHttp where
  type : UInt8
  submitted : Bool
  status : Nat
  responseObservation : UInt8
  startMonotimeNs : Nat
  tp : TpInfo

def stillReading (info : OngoingHttp) : Bool :=
  info.status == 0 && info.responseObservation == kHttpResponseParsed && info.startMonotimeNs != 0

/-- The maps of ongoing requests; of a connection the id. -/
structure OngoingMaps where
  ongoingHttp2Grpc : Http2ConnStream → Option OngoingHttp2Grpc
  ongoingHttp2Connections : PidConnectionInfo → Option Nat
  ongoingHttp : PidConnectionInfo → Option OngoingHttp

abbrev HttpServerTraceIndex := Table HttpServerTraceKey HttpServerTraceRef

def validSpan (spanId : ByteVec 8) : Bool := spanId.val.any (· != 0)

def httpServerTraceKey (pid : Nat) (traceId : ByteVec 16) : HttpServerTraceKey := ⟨traceId, pid⟩

/-- Server spans get a fresh id for each request. -/
def indexesRequest (ref : HttpServerTraceRef) (spanId : ByteVec 8) : Bool := ref.spanId == spanId

variable (maps : OngoingMaps)

/-- The request at a reference, whichever it is by now. -/
def referencedTp (ref : HttpServerTraceRef) : Option TpInfo :=
  if ref.stream.streamId ≠ 0 then
    match maps.ongoingHttp2Grpc ref.stream, maps.ongoingHttp2Connections ref.stream.pidConn with
    | some server, some connId =>
      if server.newConnId ≠ connId ∨ server.type ≠ kEventTypeHttpRequest ∨
          server.endMonotimeNs ≠ 0 ∨ server.startMonotimeNs = 0 then none
      else some server.tp
    | _, _ => none
  else match maps.ongoingHttp ref.stream.pidConn with
  | some server =>
    if server.type ≠ kEventTypeHttpRequest ∨ server.submitted ∨ ¬ stillReading server then none
    else some server.tp
  | none => none

/-- `indexed_server_tp`: the connection or stream may already carry a newer request. -/
def indexedServerTp (ref : HttpServerTraceRef) : Option TpInfo := match referencedTp maps ref with
  | none => none
  | some tp => if indexesRequest ref tp.spanId then some tp else none

variable (index : HttpServerTraceIndex)

def indexHttpServerContext (stream : Http2ConnStream) (tp : TpInfo) : HttpServerTraceIndex :=
  if ¬ validTrace tp.traceId ∨ ¬ validSpan tp.spanId then index
  else
    let key := httpServerTraceKey stream.pidConn.pid tp.traceId
    let ref : HttpServerTraceRef := ⟨stream, tp.spanId, false⟩
    match index.lookup key with
    | none => index.insert key ref
    | some existing =>
      if indexesRequest existing tp.spanId then index
      else if ¬ existing.ambiguous ∧ indexedServerTp maps existing = none then
        index.insert key ref
      -- it stays ambiguous
      else index.insert key { existing with ambiguous := true }

def unindexHttpServerTrace (pid : Nat) (tp : TpInfo) : HttpServerTraceIndex :=
  let key := httpServerTraceKey pid tp.traceId
  match index.lookup key with
  | none => index
  | some ref => if ¬ ref.ambiguous ∧ indexesRequest ref tp.spanId then index.erase key else index

/-- `find_http_server_trace`; `backupMem` says that there is scratch memory. -/
def findHttpServerTrace (backupMem : Bool) (pid : Nat) (wireTp : TpInfo) : Option TpInfoPid :=
  match index.lookup (httpServerTraceKey pid wireTp.traceId) with
  | none => none
  | some ref =>
    if ref.ambiguous then none
    else match indexedServerTp maps ref with
    | none => none
    | some serverTp =>
      if serverTp.traceId ≠ wireTp.traceId then none
      else if ¬ backupMem then none
      else some { tp := serverTp, pid := pid, valid := true, written := false }

/-! ## Runs -/

/-- A server request: where it is, and its context. -/
structure ServerRequest where
  stream : Http2ConnStream
  tp : TpInfo
deriving DecidableEq

def ServerRequest.ref (r : ServerRequest) : HttpServerTraceRef := ⟨r.stream, r.tp.spanId, false⟩

def ServerRequest.key (r : ServerRequest) : HttpServerTraceKey :=
  httpServerTraceKey r.stream.pidConn.pid r.tp.traceId

/-- What happens: the maps of ongoing requests change, by a request that starts or ends or
by another one on its connection, and requests are indexed and unindexed. -/
inductive TraceIndexEvent
  | ongoing (maps : OngoingMaps)
  | index (r : ServerRequest)
  | unindex (r : ServerRequest)

/-- The maps, and the requests that were indexed so far. -/
structure TraceIndexState where
  maps : OngoingMaps
  index : HttpServerTraceIndex
  indexed : List ServerRequest

def TraceIndexState.start : TraceIndexState := ⟨maps, ∅, []⟩

def TraceIndexState.step (s : TraceIndexState) : TraceIndexEvent → TraceIndexState
  | .ongoing maps => { s with maps := maps }
  | .index r =>
    { s with
      index := indexHttpServerContext s.maps s.index r.stream r.tp
      indexed :=
        if validTrace r.tp.traceId && validSpan r.tp.spanId then r :: s.indexed
        else s.indexed }
  | .unindex r => { s with index := unindexHttpServerTrace s.index r.stream.pidConn.pid r.tp }

end Obi.Ref
