import Obi.Ref.SliceReader

/-!
# The SunRPC parser

ONC RPC over TCP: a record is a sequence of fragments, each behind a word with
its length, whose top bit marks the last one; a record holds a CALL or a REPLY.
The fragments of a record are kept as slices of the reader until the last of them
was read.
-/

namespace Obi.Ref.SunRpc
open Lib SliceParser

def rpcVersion : UInt32 := 2
def msgCall : UInt32 := 0
def msgReply : UInt32 := 1
def replyDenied : UInt32 := 1
def rejectRPCMismatch : UInt32 := 0
def rejectAuthError : UInt32 := 1
def maxAuthStat : UInt32 := 13
def rmLastFrag : Nat := 0x80000000
def maxRecordSize : Nat := 1 <<< 20
def maxRecordFragments : Nat := 64
def maxMessagesRead : Nat := 32

inductive SunRpcError
  | notSunRPC | truncatedRecord | invalidRPC
  | read (err : ReaderError)
deriving DecidableEq

/-- The text of the errors of this package. -/
def SunRpcError.text : SunRpcError → Option String
  | .notSunRPC => some "not SunRPC"
  | .truncatedRecord => some "truncated SunRPC record"
  | .invalidRPC => some "invalid SunRPC message"
  | .read _ => none

structure CallInfo where
  (xid program version procedure authFlavor : UInt32)
deriving DecidableEq, Repr

structure ReplyInfo where
  (xid acceptStat : UInt32)
  (matchCallXid denied : Bool)
deriving DecidableEq, Repr

structure Result where
  looksLikeSunRPC : Bool
  call : Option CallInfo
  reply : Option ReplyInfo
deriving DecidableEq, Repr

def Result.empty : Result := ⟨false, none, none⟩

/-! ## Messages -/

/-- `binary.BigEndian.Uint32(b[at:at+4])`. -/
def uint32At (b : List UInt8) (i : Nat) : UInt32 := UInt32.ofNat (bigEndian ((b.drop i).take 4))

def programName (prog : UInt32) : String := match prog.toNat with
  | 100000 => "portmapper"
  | 100001 => "rstat"
  | 100002 => "rusers"
  | 100003 => "nfs"
  | 100007 => "ypbind"
  | 100005 => "mount"
  | 100227 => "nfsacl"
  | 100021 => "nlockmgr"
  | _ => ""

def validProgram (prog : UInt32) : Bool :=
  if prog = 0 ∨ 0x40000000 ≤ prog then false
  else if programName prog ≠ "" then true
  else (100000 ≤ prog ∧ prog ≤ 101000) ∨ (0x20000000 ≤ prog ∧ prog ≤ 0x2fffffff)

/-- `AUTH_NULL` to `RPCSEC_GSS`. -/
def validAuthFlavor (flavor : UInt32) : Bool := [0, 1, 2, 3, 4, 5, 6].contains flavor

/-- The flavor, and the bytes the credentials take. -/
def readOpaqueAuth (b : List UInt8) : Except SunRpcError (UInt32 × Nat) :=
  if b.length < 8 then .error .truncatedRecord
  else
    let length := (uint32At b 4).toNat
    let padded := (length + 3) / 4 * 4
    if b.length < 8 + padded then .error .truncatedRecord else .ok (uint32At b 0, 8 + padded)

/-- The body of a CALL; `none` is a body that does not look like one. -/
def parseCall (xid : UInt32) (body : List UInt8) : Except SunRpcError (Option CallInfo) :=
  if body.length < 24 then .ok none
  else if uint32At body 0 ≠ rpcVersion then .ok none
  else
    let prog := uint32At body 4
    let vers := uint32At body 8
    let proc := uint32At body 12
    if !validProgram prog ∨ vers = 0 ∨ proc > 0xffff then .ok none
    else match readOpaqueAuth (body.drop 16) with
    | .error err => .error err
    | .ok (flavor, n) =>
      if !validAuthFlavor flavor then .ok none
      else match readOpaqueAuth (body.drop (16 + n)) with
      | .error err => .error err
      | .ok (verfFlavor, n') =>
        if !validAuthFlavor verfFlavor then .ok none
        else if 16 + n + n' > body.length then .ok none
        else .ok (some ⟨xid, prog, vers, proc, flavor⟩)

def validateRejectedReply (body : List UInt8) : Bool :=
  if body.length < 4 then false
  else
    let rejectStat := uint32At body 0
    if rejectStat = rejectRPCMismatch then decide (12 ≤ body.length)
    else if rejectStat = rejectAuthError then
      if body.length < 8 then false else decide (uint32At body 4 ≤ maxAuthStat)
    else false

def parseReply (xid : UInt32) (body : List UInt8) : Except SunRpcError (Option ReplyInfo) :=
  if body.length < 4 then .ok none
  else
    let replyStat := uint32At body 0
    if replyStat > replyDenied then .ok none
    else if replyStat = replyDenied then
      if !validateRejectedReply (body.drop 4) then .ok none else .ok (some ⟨xid, 0, false, true⟩)
    else match readOpaqueAuth (body.drop 4) with
    | .error err => .error err
    | .ok (verfFlavor, n) =>
      if !validAuthFlavor verfFlavor then .ok none
      else if body.length < 4 + n + 4 then .ok none
      else
        let acceptStat := uint32At body (4 + n)
        if acceptStat > 5 then .ok none else .ok (some ⟨xid, acceptStat, false, false⟩)

/-- What a record holds, if it looks like SunRPC. -/
def parseRPCRecord (record : List UInt8) : Except SunRpcError (Option (CallInfo ⊕ ReplyInfo)) :=
  if record.length < 8 then .ok none
  else
    let xid := uint32At record 0
    let msgType := uint32At record 4
    if msgType = msgCall then
      match parseCall xid (record.drop 8) with
      | .error err => .error err
      | .ok call => .ok (call.map .inl)
    else if msgType = msgReply then
      match parseReply xid (record.drop 8) with
      | .error err => .error err
      | .ok reply => .ok (reply.map .inr)
    else .ok none

/-! ## Records -/

/-- The bytes of the parts, copied when the last of them was read. -/
def joinParts : List (Slice UInt8) → SliceParser (List UInt8)
  | [] => return []
  | part :: parts => do
      let b ← load part
      let rest ← joinParts parts
      return b ++ rest

/-- The loop over the fragments of a record, which ends by itself at a fragment
too many. -/
def fragmentsLoop : Nat → List (Slice UInt8) → Nat → SliceParser (Except SunRpcError (List UInt8))
  | 0, _, _ => return .error .notSunRPC
  | rounds + 1, parts, total => do
      match ← readScalar .u32be with
      | .error err =>
        if parts.length = 0 then return .error (.read err) else return .error .truncatedRecord
      | .ok hdr =>
        let hdr := hdr.toNat
        let last := rmLastFrag ≤ hdr
        let length := hdr % rmLastFrag
        if maxRecordFragments ≤ parts.length then return .error .notSunRPC
        else if length > maxRecordSize ∨ total + length > maxRecordSize then
          return .error .notSunRPC
        else match ← readN length with
        | .error _ => return .error .truncatedRecord
        | .ok fragment =>
          if last then
            let record ← joinParts (parts ++ [fragment])
            return .ok record
          else fragmentsLoop rounds (parts ++ [fragment]) (total + length)

def readRecord : SliceParser (Except SunRpcError (List UInt8)) :=
  fragmentsLoop (maxRecordFragments + 1) [] 0

/-! ## Captures -/

/-- The result with another message. -/
def Result.note (out : Result) (m : CallInfo ⊕ ReplyInfo) : Result := match m with
  | .inl call => { out with looksLikeSunRPC := true, call := some (out.call.getD call) }
  | .inr reply =>
    let isMatch := out.call.any fun call => reply.xid == call.xid
    if out.reply.isNone || isMatch then
      { out with looksLikeSunRPC := true, reply := some { reply with matchCallXid := isMatch } }
    else { out with looksLikeSunRPC := true }

def Result.answered (out : Result) : Bool := out.call.isSome && out.reply.any ReplyInfo.matchCallXid

def finish (out : Result) : Result × Option SunRpcError :=
  if out.looksLikeSunRPC then (out, none) else (.empty, some .notSunRPC)

def messagesLoop (firstRecordOnly : Bool) : Nat → Result → SliceParser (Result × Option SunRpcError)
  | 0, out => return finish out
  | rounds + 1, out => do
      let remaining ← remaining
      if remaining < 4 then return finish out
      else match ← readRecord with
      | .error err =>
        if out.looksLikeSunRPC then return (out, none)
        else if !firstRecordOnly && err = .truncatedRecord then
          return (.empty, some .notSunRPC)
        else return (.empty, some err)
      | .ok [] => messagesLoop firstRecordOnly rounds out
      | .ok record => match parseRPCRecord record with
        | .error err =>
          if out.looksLikeSunRPC then return (out, none) else return (.empty, some err)
        | .ok none =>
          if out.looksLikeSunRPC then return (out, none)
          else return (.empty, some .notSunRPC)
        | .ok (some m) =>
          let out := out.note m
          if firstRecordOnly || out.answered then return finish out
          else messagesLoop firstRecordOnly rounds out

def parseMessages (firstRecordOnly : Bool) : SliceParser (Result × Option SunRpcError) := do
  let remaining ← remaining
  if remaining < 4 then return (.empty, some .notSunRPC)
  else messagesLoop firstRecordOnly maxMessagesRead .empty

def parse : SliceParser (Result × Option SunRpcError) := parseMessages false

end Obi.Ref.SunRpc
