import Obi.Ref.DynamicSelector

/-!
# Allowed application IPs

`DynamicAppIPs` keeps the IPs of the processes and the workloads a view of the
selector has, with the number of times each is in use. Two loops feed it, one
from the channel of added PIDs and one from the channel of removed PIDs.

What the IPs of a process and of the pods of a workload are is passed in.
-/

namespace Obi.Ref
open Lib

/-! ## The tracker -/

structure DynamicAppIPs where
  allowedIPs : Table String Int
  pidToIPs : Table PID (List String)
  workloadToIPs : Table WorkloadKey (List String)

def newDynamicAppIPs : DynamicAppIPs := ⟨∅, ∅, ∅⟩

/-- What is looked up elsewhere: `ResolveContainerIPs`, and `PodIPsForWorkloads` if
there is a store. -/
structure IPSources where
  resolveContainerIPs : PID → List String
  podIPsForWorkload : Option (WorkloadKey → List String)

def incrementIPsLocked (allowedIPs : Table String Int) (ips : List String) : Table String Int :=
  ips.foldl (fun m ip => m.insert ip ((m.lookup ip).getD 0 + 1)) allowedIPs

def decrementIPsLocked (allowedIPs : Table String Int) (ips : List String) : Table String Int :=
  ips.foldl (fun m ip =>
    let n := (m.lookup ip).getD 0 - 1
    if n ≤ 0 then m.erase ip else m.insert ip n) allowedIPs

namespace DynamicAppIPs

variable (src : IPSources) (d : DynamicAppIPs)

/-- One round of `addBatch`, under the lock. -/
def addPID (pid : PID) : DynamicAppIPs :=
  let ips := src.resolveContainerIPs pid
  if ips.isEmpty then d
  else
    let allowedIPs := match d.pidToIPs.lookup pid with
      | none => d.allowedIPs
      | some prevIPs => decrementIPsLocked d.allowedIPs prevIPs
    { d with
      pidToIPs := d.pidToIPs.insert pid ips
      allowedIPs := incrementIPsLocked allowedIPs ips }

def addBatch (pids : List PID) : DynamicAppIPs := pids.foldl (addPID src) d

/-- One round of `removeBatch`. -/
def removePID (pid : PID) : DynamicAppIPs := match d.pidToIPs.lookup pid with
  | none => d
  | some ips =>
    { d with pidToIPs := d.pidToIPs.erase pid, allowedIPs := decrementIPsLocked d.allowedIPs ips }

def removeBatch (pids : List PID) : DynamicAppIPs := pids.foldl removePID d

/-- The selected workloads that have IPs. -/
def workloadIPs (refs : List WorkloadKey) : Table WorkloadKey (List String) :=
  match src.podIPsForWorkload with
  | none => ∅
  | some podIPs =>
    refs.foldl (fun next ref =>
      if (podIPs ref).isEmpty then next else next.insert ref (podIPs ref)) ∅

def refreshWorkloads (refs : List WorkloadKey) (d : DynamicAppIPs) : DynamicAppIPs :=
  let next := workloadIPs src refs
  let allowedIPs := d.workloadToIPs.entries.foldl (fun m e => decrementIPsLocked m e.2) d.allowedIPs
  { d with
    workloadToIPs := next
    allowedIPs := next.entries.foldl (fun m e => incrementIPsLocked m e.2) allowedIPs }

end DynamicAppIPs

def compareK8sWorkloadRef (a b : WorkloadKey) : Bool :=
  if a.kind ≠ b.kind then decide (a.kind < b.kind)
  else if a.nameSpace ≠ b.nameSpace then decide (a.nameSpace < b.nameSpace)
  else decide (a.name ≤ b.name)

def DynamicSelector.getWorkloads (d : DynamicSelector) (mask : DynamicPIDSignal) :
    List WorkloadKey :=
  (d.byWorkload.entries.filterMap fun e =>
    if e.2.signals &&& mask ≠ 0 then some e.1 else none).mergeSort compareK8sWorkloadRef

/-! ## The loops -/

/-- A batch on a channel, with the number of the call of the selector it is from. -/
structure PidBatch where
  seq : Nat
  pids : List PID
deriving DecidableEq, Repr

/-- The selector, the tracker of one of its views, and the channels between them.
The loop over the added PIDs has the rest of a batch in hand, since it takes the
lock for each PID anew; a batch of removed PIDs is worked off under the lock. -/
structure AppIPsLoops where
  selector : DynamicSelector
  tracker : DynamicAppIPs
  calls : Nat
  added : List PidBatch
  adding : PidBatch
  removed : List PidBatch

inductive AppIPsEvent
  | call (c : SelectorCall)
  | receiveAdded | addNext | receiveRemoved | refreshWorkloads

namespace AppIPsLoops

/-- `Run` on a selector. -/
def run (src : IPSources) (view : SignalView) (selector : DynamicSelector) : AppIPsLoops where
  selector := selector
  tracker :=
    (newDynamicAppIPs.addBatch src ((selector.getPIDs view.mask).getD [])).refreshWorkloads src
      (selector.getWorkloads view.mask)
  calls := 0
  added := []
  adding := ⟨0, []⟩
  removed := []

/-- `Notify`, which drops an empty batch. -/
def notify (ch : List PidBatch) (seq : Nat) (pids : List PID) : List PidBatch :=
  if pids.isEmpty then ch else ch ++ [⟨seq, pids⟩]

def step (src : IPSources) (view : SignalView) (s : AppIPsLoops) : AppIPsEvent → AppIPsLoops
  | .call c =>
    let (selector, notices) := s.selector.call c
    { s with
      selector := selector
      calls := s.calls + 1
      added := notify s.added (s.calls + 1) (notices.added view)
      removed := notify s.removed (s.calls + 1) (notices.removed view) }
  | .receiveAdded => match s.adding.pids, s.added with
    | [], batch :: rest => { s with adding := batch, added := rest }
    | _, _ => s
  | .addNext => match s.adding.pids with
    | [] => s
    | pid :: rest =>
      { s with tracker := s.tracker.addPID src pid, adding := { s.adding with pids := rest } }
  | .receiveRemoved => match s.removed with
    | [] => s
    | batch :: rest => { s with tracker := s.tracker.removeBatch batch.pids, removed := rest }
  | .refreshWorkloads =>
    { s with tracker := s.tracker.refreshWorkloads src (s.selector.getWorkloads view.mask) }

end AppIPsLoops
end Obi.Ref
