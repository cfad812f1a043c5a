import Obi.Lib.Connected
import Obi.Ref.Queue

/-!
# What a pipeline of queues delivers

The calls made so far say which queues are connected, which channels subscribe
to which queue, and so what every channel holds: a message goes once to every
channel of the queues connected to the one it is sent to. There are no sinks
here and nothing is moved; connection is read off the bypasses.
-/

namespace Obi.Spec
open Lib Ref.Msg
variable {T : Type}

structure Wiring (T : Type) where
  queueCount : Nat
  /-- The marks a queue waits for before it is closed. -/
  remaining : QueueId → Int
  bypasses : List (QueueId × QueueId)
  /-- The queues of the groups that were closed. -/
  closed : Set QueueId
  chanCount : Nat
  /-- The queue a channel subscribes to. -/
  owner : ChanId → QueueId
  sent : ChanId → List T
  closes : ChanId → Nat

namespace Wiring

def empty : Wiring T where
  queueCount := 0
  remaining _ := 0
  bypasses := []
  closed := ∅
  chanCount := 0
  owner _ := 0
  sent _ := []
  closes _ := 0

variable (w : Wiring T)

/-- The channel subscribes to a queue of the group of `q`. -/
def Reaches (q : QueueId) (c : ChanId) : Prop :=
  c < w.chanCount ∧ Connected w.bypasses q (w.owner c)

open Classical in
noncomputable def closeGroup (q : QueueId) : Wiring T :=
  { w with
    closed := {x | x ∈ w.closed ∨ Connected w.bypasses q x}
    closes := fun c => if w.Reaches q c then w.closes c + 1 else w.closes c }

open Classical in
noncomputable def step : Call T → Wiring T
  | .newQueue cfg =>
    { w with
      queueCount := w.queueCount + 1
      remaining := Function.update w.remaining w.queueCount cfg.closingAttempts }
  | .subscribe q _ =>
    { w with
      chanCount := w.chanCount + 1
      owner := Function.update w.owner w.chanCount q
      sent := Function.update w.sent w.chanCount []
      closes := Function.update w.closes w.chanCount 0 }
  | .bypass q dest => { w with bypasses := w.bypasses ++ [(q, dest)] }
  | .send q o _ =>
    { w with sent := fun c => if w.Reaches q c then w.sent c ++ [o] else w.sent c }
  | .close q => w.closeGroup q
  | .markCloseable q =>
    let marked := { w with remaining := Function.update w.remaining q (w.remaining q - 1) }
    if w.remaining q - 1 ≤ 0 then marked.closeGroup q else marked

/-- The queue exists and its group was not closed. -/
def Open (q : QueueId) : Prop := q < w.queueCount ∧ q ∉ w.closed

/-- The call is about queues that exist, of groups that were not closed. -/
def Allows : Call T → Prop
  | .newQueue _ => True
  | .subscribe q _ => w.Open q
  | .bypass q dest => w.Open q ∧ w.Open dest
  | .send q _ _ | .close q | .markCloseable q => w.Open q

end Wiring
end Obi.Spec
