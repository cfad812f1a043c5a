import Obi.Lib.Loop
import Obi.Ref.Extender

/-!
# The two scanners of `common/trace_util.h`

Kernels with `bpf_loop` run one, older ones the other. A buffer is the memory from its
first byte on; `buf_len` of its bytes were read into it.
-/

namespace Obi.Ref
open Lib

@[simp] def traceBufSize : Nat := 1024
@[simp] def traceParentHeaderLen : Nat := 68
@[simp] def kTpPosNotFound : Nat := 0xffffffff
@[simp] def kTpMaxScanLoops : Nat := traceBufSize - traceParentHeaderLen
@[simp] def kBesteffortMaxLoops : Nat := 350

/-- The length of `traceparent: `. -/
@[simp] def tpHeaderNameLen : Nat := 13

/-- `valid_traceparent`: only the structure. -/
def validTraceparent (p : List UInt8) : Bool :=
  p.getD (tpHeaderNameLen + kTpValDash1) 0 == 0x2d &&
    p.getD (tpHeaderNameLen + kTpValDash2) 0 == 0x2d &&
    p.getD (tpHeaderNameLen + kTpValDash3) 0 == 0x2d

/-- `tp_match`, the state being the position found. -/
def tpMatch (buf : List UInt8) (index pos : Nat) : Bool × Nat :=
  if index ≥ traceBufSize - traceParentHeaderLen then (true, pos)
  else if isTraceparent (buf.drop index) && validTraceparent (buf.drop index) then (true, index)
  else (false, pos)

def traceparentScanLoopCount (bufLen : Nat) : Nat :=
  if bufLen < traceParentHeaderLen then 0
  else min (bufLen - traceParentHeaderLen + 1) kTpMaxScanLoops

/-- `bpf_strstr_tp_loop`; the position instead of the pointer. -/
def bpfStrstrTpLoop (traceparentEnabled : Bool) (buf : List UInt8) (bufLen : Nat) : Option Nat :=
  if ¬ traceparentEnabled then none
  else
    let nrLoops := traceparentScanLoopCount bufLen
    if nrLoops = 0 then none
    else
      let pos := loop nrLoops (tpMatch buf) kTpPosNotFound
      if pos ≠ kTpPosNotFound then
        if pos > traceBufSize - traceParentHeaderLen then none else some pos
      else none

/-- The loop of the older scanner: `buf` is the memory from position `i` on. -/
def legacyScanFrom : (left i : Nat) → (buf : List UInt8) → Option Nat
  | 0, _, _ => none
  | left + 1, i, buf =>
    -- buf is null terminated
    if buf.getD 0 0 = 0 then none
    else if isTraceparent buf then
      -- the value is complete
      if (List.range (traceParentHeaderLen - tpHeaderNameLen)).any
          fun j => buf.getD (tpHeaderNameLen + j) 0 == 0 then none
      else if validTraceparent buf then some i else none
    else legacyScanFrom left (i + 1) (buf.drop 1)

/-- `bpf_strstr_tp_loop__legacy`. -/
def bpfStrstrTpLoopLegacy (traceparentEnabled : Bool) (buf : List UInt8) (bufLen : Nat) :
    Option Nat :=
  if ¬ traceparentEnabled then none
  else if bufLen < traceParentHeaderLen then none
  else legacyScanFrom kBesteffortMaxLoops 0 buf

end Obi.Ref
