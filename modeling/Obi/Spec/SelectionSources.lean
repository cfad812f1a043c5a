import Obi.Ref.DynamicSelector

/-!
# Why a PID is selected

What the selector is for, told by its history alone. A caller selects a PID for
some signals and takes signals away again; a workload that a process belongs to
does the same for it. The two kinds of sources do not know of each other: a PID
is selected for a signal as long as one of them still selects it.
-/

namespace Obi.Spec
open Lib Ref

inductive Signal
  | traces | appMetrics | networkMetrics | statsMetrics
deriving DecidableEq, Repr

def Signal.view : Signal → SignalView
  | .traces => .traces
  | .appMetrics => .appMetrics
  | .networkMetrics => .networkMetrics
  | .statsMetrics => .statsMetrics

/-- The signal is one of the mask. -/
def Signal.In (s : Signal) (mask : DynamicPIDSignal) : Prop := mask &&& s.view.mask ≠ 0

inductive SourceEvent
  | added (mask : DynamicPIDSignal) (pids : List PID)
  | removed (mask : DynamicPIDSignal) (pids : List PID)
  | materialized (key : WorkloadKey) (mask : DynamicPIDSignal) (pid : PID)
  | workloadRemoved (key : WorkloadKey) (mask : DynamicPIDSignal)
  | cleared (pids : List PID)
deriving DecidableEq, Repr

namespace SourceEvent

variable (pid : PID) (s : Signal) (key : WorkloadKey)

def Adds : SourceEvent → Prop
  | .added mask pids => pid ∈ pids ∧ s.In mask
  | _ => False

def Removes : SourceEvent → Prop
  | .removed mask pids => pid ∈ pids ∧ s.In mask
  | _ => False

def Materializes : SourceEvent → Prop
  | .materialized w mask p => w = key ∧ p = pid ∧ s.In mask
  | _ => False

def RemovesWorkload : SourceEvent → Prop
  | .removed mask pids => pid ∈ pids ∧ s.In mask
  | .workloadRemoved w mask => w = key ∧ s.In mask
  | .cleared pids => pid ∈ pids
  | _ => False

end SourceEvent

/-- The caller selected the PID for the signal and has not taken it back. -/
def ExplicitlySelected (events : List SourceEvent) (pid : PID) (s : Signal) : Prop :=
  Since (SourceEvent.Adds pid s) (SourceEvent.Removes pid s) events

/-- The workload selected the PID for the signal, and that was not undone. -/
def WorkloadSelected (events : List SourceEvent) (key : WorkloadKey) (pid : PID) (s : Signal) :
    Prop :=
  Since (SourceEvent.Materializes pid s key) (SourceEvent.RemovesWorkload pid s key) events

/-- What a call does to the sources, in the selector it is made on: a process is
told of the workload that is found for it. -/
def sourceEvents (d : DynamicSelector) : SelectorCall → List SourceEvent
  | .addPIDs view pids => [.added view.mask pids]
  | .addPID view pid _ => [.added view.mask [pid]]
  | .removePIDs view pids => [.removed view.mask pids]
  | .addK8sWorkload _ _ _ => []
  | .removeK8sWorkload view parsed => match parsed with
    | none => []
    | some key => [.workloadRemoved key view.mask]
  | .materializeMatchingWorkloads view pid md order =>
    match d.findMatchingWorkload view.mask md order with
    | none => []
    | some (key, r) => [.materialized key r.signals pid]
  | .clearWorkloadSources pids => [.cleared pids]

end Obi.Spec
