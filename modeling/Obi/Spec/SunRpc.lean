import Obi.Ref.SunRpc
import Obi.Spec.Tape

/-!
# ONC RPC messages

The CALL and REPLY messages of RFC 5531 and their division into fragments, with
what is to be reported of a list of them. The fragments of a record are copied
when all of them were read; until then none may be written over in the scratch
memory.
-/

namespace Obi.Spec.SunRpc
open Lib Ref Ref.SunRpc

/-! ## Messages -/

/-- A word in XDR. -/
def word (v : UInt32) : List UInt8 :=
  [UInt8.ofNat (v.toNat / 2 ^ 24), UInt8.ofNat (v.toNat / 2 ^ 16), UInt8.ofNat (v.toNat / 2 ^ 8),
    UInt8.ofNat v.toNat]

/-- Credentials or a verifier. -/
structure OpaqueAuth where
  flavor : UInt32
  body : List UInt8
  short : body.length ≤ 400

def OpaqueAuth.bytes (a : OpaqueAuth) : List UInt8 :=
  word a.flavor ++ (word (UInt32.ofNat a.body.length) ++
    (a.body ++ List.replicate ((4 - a.body.length % 4) % 4) 0))

/-- Why a call was denied. -/
inductive Rejected
  | rpcMismatch (low high : UInt32)
  | authError (stat : Fin 15)

inductive RpcMessage
  | call (xid prog vers proc : UInt32) (cred verf : OpaqueAuth) (args : List UInt8)
  | accepted (xid : UInt32) (verf : OpaqueAuth) (stat : Fin 6) (results : List UInt8)
  | denied (xid : UInt32) (why : Rejected)

namespace RpcMessage

def bytes : RpcMessage → List UInt8
  | .call xid prog vers proc cred verf args =>
    word xid ++ (word msgCall ++ (word rpcVersion ++ (word prog ++ (word vers ++ (word proc ++
      (cred.bytes ++ (verf.bytes ++ args)))))))
  | .accepted xid verf stat results =>
    word xid ++ (word msgReply ++ (word 0 ++
      (verf.bytes ++ (word (UInt32.ofNat stat.val) ++ results))))
  | .denied xid (.rpcMismatch low high) =>
    word xid ++ (word msgReply ++ (word replyDenied ++
      (word rejectRPCMismatch ++ (word low ++ word high))))
  | .denied xid (.authError stat) =>
    word xid ++ (word msgReply ++ (word replyDenied ++
      (word rejectAuthError ++ word (UInt32.ofNat stat.val))))

/-- The program and the flavors are ones the parser knows. -/
def Known : RpcMessage → Prop
  | .call _ prog _ _ cred verf _ =>
    validProgram prog = true ∧ validAuthFlavor cred.flavor = true ∧
      validAuthFlavor verf.flavor = true
  | .accepted _ verf _ _ => validAuthFlavor verf.flavor = true
  | .denied _ _ => True

/-- The numbers are in the ranges the parser looks for. -/
def InRange : RpcMessage → Prop
  | .call _ _ vers proc _ _ _ => vers ≠ 0 ∧ proc ≤ 0xffff
  | .denied _ (.authError stat) => stat.val ≤ 13
  | _ => True

/-- What is to be reported of it. -/
def info : RpcMessage → CallInfo ⊕ ReplyInfo
  | .call xid prog vers proc cred _ _ => .inl ⟨xid, prog, vers, proc, cred.flavor⟩
  | .accepted xid _ stat _ => .inr ⟨xid, UInt32.ofNat stat.val, false, false⟩
  | .denied xid _ => .inr ⟨xid, 0, false, true⟩

end RpcMessage

/-! ## Reports -/

def callOf : CallInfo ⊕ ReplyInfo → Option CallInfo
  | .inl call => some call
  | .inr _ => none

def replyOf : CallInfo ⊕ ReplyInfo → Option ReplyInfo
  | .inl _ => none
  | .inr reply => some reply

/-- The first REPLY to this CALL. -/
def answerTo (call : CallInfo) (infos : List (CallInfo ⊕ ReplyInfo)) : Option ReplyInfo :=
  infos.findSome? fun m => (replyOf m).filter fun reply => reply.xid == call.xid

/-- The messages behind the first CALL. -/
def behindCall : List (CallInfo ⊕ ReplyInfo) → List (CallInfo ⊕ ReplyInfo)
  | [] => []
  | .inl _ :: infos => infos
  | .inr _ :: infos => behindCall infos

/-- The REPLY to be reported: the first one behind the first CALL that has its
xid, or else the first one of all. -/
def replyReport (infos : List (CallInfo ⊕ ReplyInfo)) : Option ReplyInfo :=
  match (infos.findSome? callOf).bind fun call => answerTo call (behindCall infos) with
  | some reply => some { reply with matchCallXid := true }
  | none => infos.findSome? replyOf

def report (infos : List (CallInfo ⊕ ReplyInfo)) : Result × Option SunRpcError :=
  if infos = [] then (.empty, some .notSunRPC)
  else (⟨true, infos.findSome? callOf, replyReport infos⟩, none)

/-! ## Records -/

/-- The word in front of a fragment. -/
def marker (last : Bool) (fragment : List UInt8) : List UInt8 :=
  word (UInt32.ofNat ((if last then rmLastFrag else 0) + fragment.length))

def recordWire : List (List UInt8) → List UInt8
  | [] => []
  | [fragment] => marker true fragment ++ fragment
  | fragment :: next :: rest => marker false fragment ++ (fragment ++ recordWire (next :: rest))

/-- A message divided into fragments. -/
structure Record where
  message : RpcMessage
  fragments : List (List UInt8)
  known : message.Known
  divided : fragments ≠ []
  few : fragments.length < maxRecordFragments
  joined : fragments.flatten = message.bytes
  small : message.bytes.length ≤ maxRecordSize

def recordsWire (records : List Record) : List UInt8 :=
  records.flatMap fun r => recordWire r.fragments

/-! ## Fragments in the scratch memory -/

/-- The memory and whether a fragment that is still needed lies in the block in
use. -/
structure Held where
  cap : Nat
  exposed : Bool

variable (crosses : Nat → Nat → Bool)

/-- The `n` bytes at `pos` are not written over a fragment that is needed. -/
def Held.Spares (pos n : Nat) (h : Held) : Prop :=
  crosses pos n = true → h.exposed = true → h.cap < n

instance (crosses : Nat → Nat → Bool) (pos n : Nat) (h : Held) :
    Decidable (h.Spares crosses pos n) := inferInstanceAs (Decidable (_ → _ → _))

/-- The memory after they were read, and needed from then on or not. -/
def Held.read (pos n : Nat) (needed : Bool) (h : Held) : Held :=
  if crosses pos n then ⟨max h.cap n, needed⟩ else h

/-- The memory after a fragment with the word in front of it. -/
def Held.fragment (pos n : Nat) (h : Held) : Held :=
  let h := h.read crosses pos 4 false
  if n = 0 then h else h.read crosses (pos + 4) n true

/-- No fragment of a record is written over before the last one was read. -/
def FragmentsKept (crosses : Nat → Nat → Bool) : Nat → Held → List (List UInt8) → Prop
  | _, _, [] => True
  | pos, h, fragment :: rest =>
    h.Spares crosses pos 4 ∧
      (fragment ≠ [] → (h.read crosses pos 4 false).Spares crosses (pos + 4) fragment.length) ∧
      FragmentsKept crosses (pos + 4 + fragment.length)
        (h.fragment crosses pos fragment.length) rest

instance FragmentsKept.decidable (crosses : Nat → Nat → Bool) :
    (pos : Nat) → (h : Held) → (fragments : List (List UInt8)) →
      Decidable (FragmentsKept crosses pos h fragments)
  | _, _, [] => .isTrue trivial
  | pos, h, fragment :: rest =>
    have := FragmentsKept.decidable crosses (pos + 4 + fragment.length)
      (h.fragment crosses pos fragment.length) rest
    inferInstanceAs (Decidable (_ ∧ _ ∧ _))

def heldAfter (crosses : Nat → Nat → Bool) : Nat → Held → List (List UInt8) → Held
  | _, h, [] => h
  | pos, h, fragment :: rest =>
    heldAfter crosses (pos + 4 + fragment.length) (h.fragment crosses pos fragment.length) rest

/-- The same for a list of records: between records nothing is needed. -/
def RecordsKept (crosses : Nat → Nat → Bool) : Nat → Nat → List Record → Prop
  | _, _, [] => True
  | pos, cap, r :: rest =>
    FragmentsKept crosses pos ⟨cap, false⟩ r.fragments ∧
      RecordsKept crosses (pos + (recordWire r.fragments).length)
        (heldAfter crosses pos ⟨cap, false⟩ r.fragments).cap rest

instance RecordsKept.decidable (crosses : Nat → Nat → Bool) :
    (pos cap : Nat) → (records : List Record) → Decidable (RecordsKept crosses pos cap records)
  | _, _, [] => .isTrue trivial
  | pos, cap, r :: rest =>
    have := RecordsKept.decidable crosses (pos + (recordWire r.fragments).length)
      (heldAfter crosses pos ⟨cap, false⟩ r.fragments).cap rest
    inferInstanceAs (Decidable (_ ∧ _))

end Obi.Spec.SunRpc
