import Obi.Ref.H2Parse
import Obi.Ref.TpInfo

/-!
# The socket-message transaction, `tpinjector/h2_write_transaction.h`

`h2_write_socket_transaction` inserts one complete HPACK field and publishes
the new frame length, with every fallible helper call before the length store.
A call that fails after the insertion starts the rollback of
`h2_restore_socket_message`, which retries each of its two helpers once.
-/

namespace Obi.Ref
open Lib

/-- `h2_socket_transaction_outcome_t`. -/
inductive H2SocketTransactionOutcome where
  | noMutation | committed | rollbackVerified | rollbackUncertain
deriving DecidableEq, Repr

@[simp] def kH2FrameLenFieldSize : Nat := 3

/-- The answers to the helper calls of one transaction, by call site. -/
structure TransactionAnswers where
  (linearize preflight : PullAnswer)
  push : PushAnswer
  (write frame join : PullAnswer)
  (pop popRetry : PopAnswer)
  (restore restoreRetry : PullAnswer)

/-- The three bytes of a frame length. -/
def h2FrameLenBytes (len : Nat) : List UInt8 :=
  [UInt8.ofNat (len / 65536), UInt8.ofNat (len / 256), UInt8.ofNat len]

def h2FrameLenBytesAre (data : List UInt8) (expected : Nat) : Bool :=
  data.getD 0 0 == UInt8.ofNat (expected / 65536) &&
    data.getD 1 0 == UInt8.ofNat (expected / 256) &&
    data.getD 2 0 == UInt8.ofNat expected

/-- Stores the length at the start of the window. -/
def h2StoreFrameLen (msg : SkMsg) (len : Nat) : SkMsg := msg.store 0 (h2FrameLenBytes len)

variable (ans : TransactionAnswers)

/-- `h2_restore_socket_message`: whether the rollback is verified, and the
message it leaves. -/
def h2RestoreSocketMessage (msg : SkMsg)
    (originalSize frameOffset payloadLen injectOffset : Nat) : Bool × SkMsg :=
  match (msg.popData injectOffset kH2TpHpackSize ans.pop).or
      (msg.popData injectOffset kH2TpHpackSize ans.popRetry) with
  | none => (false, msg)
  | some msg =>
    if msg.size ≠ originalSize then (false, msg)
    else
      let lenEnd := u32 (frameOffset + kH2FrameLenFieldSize)
      match (msg.pullData frameOffset lenEnd ans.restore).or
          (msg.pullData frameOffset lenEnd ans.restoreRetry) with
      | none => (false, msg)
      | some msg => match msg.view kH2FrameLenFieldSize with
        | none => (false, msg)
        | some _ =>
          let msg := h2StoreFrameLen msg payloadLen
          (h2FrameLenBytesAre ((msg.view kH2FrameLenFieldSize).getD []) payloadLen, msg)

/-- The outcome a transaction reports for its rollback. -/
def rollbackOutcome (r : Bool × SkMsg) : H2SocketTransactionOutcome × SkMsg :=
  (if r.1 then .rollbackVerified else .rollbackUncertain, r.2)

/-- The arguments a transaction refuses before it calls any helper. -/
def transactionRefuses (originalSize frameOffset payloadLen injectOffset : Nat) : Bool :=
  payloadLen > kH2DefaultMaxFrameSize - kH2TpHpackSize || frameOffset > originalSize ||
    originalSize - frameOffset < kH2FrameHeaderLen ||
    payloadLen > originalSize - frameOffset - kH2FrameHeaderLen ||
    injectOffset < u32 (frameOffset + kH2FrameHeaderLen) ||
    injectOffset > u32 (frameOffset + kH2FrameHeaderLen + payloadLen) ||
    originalSize > 4294967295 - kH2TpHpackSize

/-- The transaction from the push on: fill the room, then publish the length.
Every failure here has bytes to take out again. -/
def h2FillAndCommit (msg : SkMsg) (originalSize frameOffset payloadLen injectOffset : Nat)
    (expected : ByteVec kH2TpHpackSize) : H2SocketTransactionOutcome × SkMsg :=
  let restore (m : SkMsg) : H2SocketTransactionOutcome × SkMsg :=
    rollbackOutcome (h2RestoreSocketMessage ans m originalSize frameOffset payloadLen injectOffset)
  match msg.pullData injectOffset (u32 (injectOffset + kH2TpHpackSize)) ans.write with
  | none => restore msg
  | some msg =>
  match msg.view kH2TpHpackSize with
  | none => restore msg
  | some _ =>
  let msg := msg.store 0 expected.val
  match msg.pullData frameOffset (u32 (frameOffset + kH2FrameLenFieldSize)) ans.frame with
  | none => restore msg
  | some msg =>
  match msg.view kH2FrameLenFieldSize with
  | none => restore msg
  | some _ =>
  -- the commit point: every fallible helper has run
  let msg := h2StoreFrameLen msg (payloadLen + kH2TpHpackSize)
  (.committed, (msg.pullData 0 (u32 (originalSize + kH2TpHpackSize)) ans.join).getD msg)

/-- `h2_write_socket_transaction`; a null `expected` is `none`. -/
def h2WriteSocketTransaction (msg : SkMsg) (frameOffset payloadLen injectOffset : Nat)
    (expected : Option (ByteVec kH2TpHpackSize)) :
    H2SocketTransactionOutcome × SkMsg :=
  let originalSize := msg.size
  match expected with
  | none => (.noMutation, msg)
  | some field =>
  if transactionRefuses originalSize frameOffset payloadLen injectOffset then
    (.noMutation, msg)
  else
  match msg.pullData 0 originalSize ans.linearize with
  | none => (.noMutation, msg)
  | some msg =>
  match msg.pullData frameOffset (u32 (frameOffset + kH2FrameLenFieldSize)) ans.preflight with
  | none => (.noMutation, msg)
  | some msg =>
  match msg.view kH2FrameLenFieldSize with
  | none => (.noMutation, msg)
  | some frame =>
  if ¬ h2FrameLenBytesAre frame payloadLen then (.noMutation, msg)
  else
  match msg.pushData injectOffset kH2TpHpackSize ans.push with
  | none => (.noMutation, msg)
  | some msg =>
  h2FillAndCommit ans msg originalSize frameOffset payloadLen injectOffset field

end Obi.Ref
