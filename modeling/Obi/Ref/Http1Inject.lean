import Obi.Ref.SkMsg
import Obi.Ref.TpInfo

/-!
# Writing the HTTP/1 header line

`write_msg_traceparent` of `tpinjector.c` and the byte search of
`common/tc_common.h` it rests on. The offsets it computes are offsets from
`msg->data`, and it uses them as offsets into the message: on the HTTP/1 path
every pull starts at byte 0, and so does the window the kernel hands over.
-/

namespace Obi.Ref
open Lib

@[simp] def maxInlineLen : Nat := 0x3ff

/-- The loop of `memchar_pos` over the mapped bytes. A position counts only
while the byte after it is mapped too. -/
def memcharPosFrom (haystack : List UInt8) (needle : UInt8) : (left i : Nat) → Option Nat
  | 0, _ => none
  | left + 1, i =>
    if i + 2 > haystack.length then none
    else if haystack.getD i 0 = needle then some i
    else memcharPosFrom haystack needle left (i + 1)

/-- `find_first_pos_of`; `none` is `INVALID_POS`. -/
def findFirstPosOf (data : Option (List UInt8)) (ch : UInt8) : Option Nat := match data with
  | none => none
  | some haystack => memcharPosFrom haystack ch maxInlineLen 0

/-- The helper calls of one `extend_and_write_tp`. -/
structure Http1Answers where
  push : PushAnswer
  join : PullAnswer

/-- `extend_and_write_tp`. -/
def extendAndWriteTp (ans : Http1Answers) (msg : SkMsg) (offset : Nat) (tp : TpInfo) :
    Bool × SkMsg :=
  match msg.pushData offset tpSize ans.push with
  | none => (false, msg)
  | some msg =>
    -- the result of this pull is not looked at
    let msg := (msg.pullData 0 msg.size ans.join).getD msg
    match msg.view (offset + tpSize + 1) with
    | none => (false, msg)
    | some _ => (true, msg.store offset (makeTpString tp))

/-- `write_msg_traceparent`. -/
def writeMsgTraceparent (ans : Http1Answers) (msg : SkMsg) (tp : TpInfo) : Bool × SkMsg :=
  match findFirstPosOf msg.mapped 0x0a with
  | none => (false, msg)
  | some newlinePos => extendAndWriteTp ans msg (newlinePos + 1) tp

end Obi.Ref
