import Obi.Ref.Common

/-!
# The dynamic selector

`DynamicSelector` keeps for each PID which signals it is selected for and why:
it was added by hand, or a Kubernetes workload it belongs to was. Six views
look at the record of a PID through a mask and are told when a PID enters or
leaves them.

Go maps are references. A record that is read, changed and not written back
keeps what was changed in its map of workloads and nothing else; a record
without that map has `none` there. What `ParseK8sWorkload` makes of an object,
and the order in which a `range` goes through the workloads, are passed in.
-/

namespace Obi.Ref
open Lib

/-! ## Signals and views -/

abbrev DynamicPIDSignal := BitVec 8

def signalTraces : DynamicPIDSignal := 1
def signalAppMetrics : DynamicPIDSignal := 2
def signalNetworkMetrics : DynamicPIDSignal := 4
def signalStatsMetrics : DynamicPIDSignal := 8

def appSignalMask : DynamicPIDSignal := signalTraces ||| signalAppMetrics

def allSignalMask : DynamicPIDSignal :=
  appSignalMask ||| signalNetworkMetrics ||| signalStatsMetrics

inductive SignalView
  | root | traces | appMetrics | networkMetrics | statsMetrics | appSignals
deriving DecidableEq, Repr

def SignalView.mask : SignalView → DynamicPIDSignal
  | .root => allSignalMask
  | .traces => signalTraces
  | .appMetrics => signalAppMetrics
  | .networkMetrics => signalNetworkMetrics
  | .statsMetrics => signalStatsMetrics
  | .appSignals => appSignalMask

def SignalView.contains (view : SignalView) (mask : DynamicPIDSignal) : Bool :=
  decide (mask &&& view.mask ≠ 0)

/-! ## Records -/

/-- `dynamicPIDAttributes`, and `DynamicOptions`, which it is copied from. -/
structure DynamicPIDAttributes where
  (serviceName serviceNamespace : String)
  resourceAttributes : Table String String

def DynamicPIDAttributes.zero : DynamicPIDAttributes := ⟨"", "", ∅⟩

/-- Equal names and as many attributes, each of them `found` among those of `b`. -/
def DynamicPIDAttributes.same (found : Option String → String → Bool)
    (a b : DynamicPIDAttributes) : Bool :=
  decide (a.serviceName = b.serviceName) && decide (a.serviceNamespace = b.serviceNamespace) &&
    decide (a.resourceAttributes.entries.length = b.resourceAttributes.entries.length) &&
    a.resourceAttributes.entries.all fun e => found (b.resourceAttributes.lookup e.1) e.2

/-- `maps.Equal` compares the attributes. -/
def DynamicPIDAttributes.equal (a b : DynamicPIDAttributes) : Bool :=
  a.same (fun v w => decide (v = some w)) b

/-- A key that is missing has the value `""` here. -/
def attrsEqual (a b : DynamicPIDAttributes) : Bool :=
  a.same (fun v w => decide (v.getD "" = w)) b

structure WorkloadKey where
  (kind nameSpace name : String)
deriving DecidableEq, Repr

structure DynamicPIDRecord where
  signals : DynamicPIDSignal
  attrs : DynamicPIDAttributes
  explicitSignals : DynamicPIDSignal
  fromWorkloads : Option (Table WorkloadKey DynamicPIDSignal)

structure DynamicWorkloadRecord where
  signals : DynamicPIDSignal
  attrs : DynamicPIDAttributes

namespace DynamicPIDRecord

def zero : DynamicPIDRecord := ⟨0, .zero, 0, none⟩

variable (r : DynamicPIDRecord)

def workloads : Table WorkloadKey DynamicPIDSignal := r.fromWorkloads.getD ∅

def recomputedSignals : DynamicPIDSignal :=
  r.workloads.entries.foldl (fun mask e => mask ||| e.2) r.explicitSignals

/-- A source is added: the caller itself, or a workload. -/
def addSource (mask : DynamicPIDSignal) : Option WorkloadKey → DynamicPIDRecord
  | none => { r with explicitSignals := r.explicitSignals ||| mask }
  | some key =>
    { r with
      fromWorkloads := some <| r.workloads.insert key ((r.workloads.lookup key).getD 0 ||| mask) }

/-- What is left of the masks of the workloads; an empty one goes. -/
def clearWorkloads (mask : DynamicPIDSignal) : Option (Table WorkloadKey DynamicPIDSignal) :=
  r.fromWorkloads.map fun m => m.filterMap fun _ ws =>
    if ws &&& ~~~mask = 0 then none else some (ws &&& ~~~mask)

/-- The mask of one workload is cut down. -/
def clearWorkload (key : WorkloadKey) (remaining : DynamicPIDSignal) :
    Option (Table WorkloadKey DynamicPIDSignal) :=
  r.fromWorkloads.map fun m =>
    if remaining = 0 then m.erase key else m.insert key remaining

end DynamicPIDRecord

abbrev PIDRecords := Table PID DynamicPIDRecord

/-- A record that is not written back still shares its map of workloads. -/
def writeThrough (byPID : PIDRecords) (pid : PID)
    (fromWorkloads : Option (Table WorkloadKey DynamicPIDSignal)) : PIDRecords :=
  match byPID.lookup pid with
  | none => byPID
  | some r =>
    if r.fromWorkloads.isSome then byPID.insert pid { r with fromWorkloads := fromWorkloads }
    else byPID

/-! ## The selector -/

structure DynamicSelector where
  byPID : PIDRecords
  byWorkload : Table WorkloadKey DynamicWorkloadRecord

def newDynamicSelector : DynamicSelector := ⟨∅, ∅⟩

/-- The PIDs an operation tells each view of. -/
abbrev ByView := SignalView → List PID

def ByView.append (batch : ByView) (edge : SignalView → Bool) (pid : PID) : ByView :=
  fun view => if edge view then batch view ++ [pid] else batch view

/-- The batches the notifiers of the views get from an operation. -/
structure Notices where
  (added removed : ByView)

def Notices.none : Notices := ⟨fun _ => [], fun _ => []⟩

namespace DynamicSelector

/-! ### Adding -/

variable (d : DynamicSelector) (mask : DynamicPIDSignal) (opts : Option DynamicPIDAttributes)

/-- One round of `addSignalsFrom`. -/
def addSignalsTo
    (src : Option WorkloadKey) (st : PIDRecords × ByView) (pid : PID) : PIDRecords × ByView :=
  let old := (st.1.lookup pid).getD .zero
  let r := { old with attrs := opts.getD old.attrs }.addSource mask src
  let r := { r with signals := r.recomputedSignals }
  if r.signals = old.signals then
    match opts with
    | some _ => (st.1.insert pid r, st.2)
    | none => (writeThrough st.1 pid r.fromWorkloads, st.2)
  else
    (st.1.insert pid r,
      st.2.append (fun view => !view.contains old.signals && view.contains r.signals) pid)

def addSignalsFrom (src : Option WorkloadKey) (pids : List PID) : DynamicSelector × Notices :=
  if pids.isEmpty || mask == 0 then (d, .none)
  else
    let st := pids.foldl (addSignalsTo mask opts src) (d.byPID, fun _ => [])
    ({ d with byPID := st.1 }, { Notices.none with added := st.2 })

def addSignals (pids : List PID) : DynamicSelector × Notices := d.addSignalsFrom mask opts none pids

/-! ### Removing -/

/-- The edge of a record whose mask shrinks. -/
def leaves (old new : DynamicPIDSignal) (view : SignalView) : Bool :=
  view.contains old && !view.contains new

/-- One round of `removeSignals`. -/
def removeSignalsOf (st : PIDRecords × ByView) (pid : PID) : PIDRecords × ByView :=
  match st.1.lookup pid with
  | none => st
  | some old =>
    let r := { old with
      explicitSignals := old.explicitSignals &&& ~~~mask
      fromWorkloads := old.clearWorkloads mask }
    let newMask := r.recomputedSignals
    if newMask = old.signals then (writeThrough st.1 pid r.fromWorkloads, st.2)
    else
      (if newMask = 0 then st.1.erase pid else st.1.insert pid { r with signals := newMask },
        st.2.append (leaves old.signals newMask) pid)

def removeSignals (pids : List PID) : DynamicSelector × Notices :=
  if pids.isEmpty then (d, .none)
  else
    let st := pids.foldl (removeSignalsOf mask) (d.byPID, fun _ => [])
    ({ d with byPID := st.1 }, { Notices.none with removed := st.2 })

/-! ### Workloads -/

variable (key : WorkloadKey)

def addWorkload (opts : Option DynamicPIDAttributes) : DynamicSelector × Notices :=
  if mask = 0 then (d, .none)
  else
    let old := (d.byWorkload.lookup key).getD ⟨0, .zero⟩
    let attrsChanged := opts.any fun attrs => !attrsEqual old.attrs attrs
    let attrs := opts.getD old.attrs
    let byPID :=
      if attrsChanged then
        d.byPID.filterMap fun _ r =>
          some (if (r.workloads.lookup key).isSome then { r with attrs := attrs } else r)
      else d.byPID
    let byWorkload := d.byWorkload.insert key
      ⟨old.signals ||| mask, if attrsChanged then attrs else old.attrs⟩
    (⟨byPID, byWorkload⟩, .none)

/-- What `removeWorkload` makes of a record. -/
def withoutWorkload (r : DynamicPIDRecord) : DynamicPIDRecord := match r.workloads.lookup key with
  | none => r
  | some ws =>
    let r := { r with fromWorkloads := r.clearWorkload key (ws &&& ~~~mask) }
    { r with signals := r.recomputedSignals }

def removeWorkload : DynamicSelector × Notices :=
  if mask = 0 then (d, .none)
  else match d.byWorkload.lookup key with
  | none => (d, .none)
  | some old =>
    let newWorkloadMask := old.signals &&& ~~~mask
    if newWorkloadMask = old.signals then (d, .none)
    else
      let byWorkload :=
        if newWorkloadMask = 0 then d.byWorkload.erase key
        else d.byWorkload.insert key { old with signals := newWorkloadMask }
      let byPID := d.byPID.filterMap fun _ r =>
        if (withoutWorkload mask key r).signals = 0 ∧ (r.workloads.lookup key).isSome then none
        else some (withoutWorkload mask key r)
      let removed : ByView := fun view => d.byPID.entries.filterMap fun e =>
        if leaves e.2.signals (withoutWorkload mask key e.2).signals view then some e.1
        else none
      (⟨byPID, byWorkload⟩, { Notices.none with removed := removed })

/-- One round of `clearWorkloadSources`. -/
def clearSourcesOf (st : PIDRecords × ByView) (pid : PID) : PIDRecords × ByView :=
  match st.1.lookup pid with
  | none => st
  | some old =>
    if old.workloads.entries.isEmpty then st
    else
      let r := { old with fromWorkloads := none }
      let newMask := r.recomputedSignals
      (if newMask = 0 then st.1.erase pid else st.1.insert pid { r with signals := newMask },
        if newMask = old.signals then st.2
        else st.2.append (leaves old.signals newMask) pid)

def clearWorkloadSources (pids : List PID) : DynamicSelector × Notices :=
  if pids.isEmpty then (d, .none)
  else
    let st := pids.foldl clearSourcesOf (d.byPID, fun _ => [])
    ({ d with byPID := st.1 }, { Notices.none with removed := st.2 })

/-! ### Matching processes -/

def metadataAttrForKind (kind : String) : String :=
  if kind = "Deployment" then "k8s_deployment_name"
  else if kind = "StatefulSet" then "k8s_statefulset_name"
  else if kind = "DaemonSet" then "k8s_daemonset_name"
  else if kind = "CronJob" then "k8s_cronjob_name"
  else ""

def workloadMatchesMetadata (md : Option (Table String String)) : Bool := match md with
  | none => false
  | some md =>
    if (md.lookup "k8s_namespace").getD "" ≠ key.nameSpace then false
    else if metadataAttrForKind key.kind = "" then false
    else decide ((md.lookup (metadataAttrForKind key.kind)).getD "" = key.name)

/-- The first workload, in the order given, that the view has and that matches. -/
def findMatchingWorkload (md : Option (Table String String)) (order : List WorkloadKey) :
    Option (WorkloadKey × DynamicWorkloadRecord) :=
  order.findSome? fun key => match d.byWorkload.lookup key with
    | none => none
    | some r =>
      if r.signals &&& mask = 0 then none
      else if workloadMatchesMetadata key md then some (key, r) else none

def materializeMatchingWorkloads (pid : PID)
    (md : Option (Table String String)) (order : List WorkloadKey) :
    DynamicSelector × Notices :=
  match d.findMatchingWorkload mask md order with
  | none => (d, .none)
  | some (key, r) => d.addSignalsFrom r.signals (some r.attrs) (some key) [pid]

/-! ### Lookups -/

def getPIDs : Option (List PID) :=
  let out := d.byPID.entries.filterMap fun e =>
    if e.2.signals &&& mask ≠ 0 then some e.1 else none
  if out.isEmpty then none else some (out.mergeSort (fun a b => decide (a ≤ b)))

def includesPID (pid : PID) : Bool :=
  decide (((d.byPID.lookup pid).getD .zero).signals &&& mask ≠ 0)

end DynamicSelector

/-! ## Calls -/

/-- A call that changes the selector, with what it reads. -/
inductive SelectorCall
  | addPIDs (view : SignalView) (pids : List PID)
  | addPID (view : SignalView) (pid : PID) (opts : DynamicPIDAttributes)
  | removePIDs (view : SignalView) (pids : List PID)
  | addK8sWorkload (view : SignalView) (parsed : Option WorkloadKey) (opts : DynamicPIDAttributes)
  | removeK8sWorkload (view : SignalView) (parsed : Option WorkloadKey)
  | materializeMatchingWorkloads (view : SignalView) (pid : PID)
      (md : Option (Table String String)) (order : List WorkloadKey)
  | clearWorkloadSources (pids : List PID)

def DynamicSelector.call (d : DynamicSelector) : SelectorCall → DynamicSelector × Notices
  | .addPIDs view pids => d.addSignals view.mask none pids
  | .addPID view pid opts => d.addSignals view.mask (some opts) [pid]
  | .removePIDs view pids => d.removeSignals view.mask pids
  | .addK8sWorkload view parsed opts => match parsed with
    | none => (d, .none)
    | some key => d.addWorkload view.mask key (some opts)
  | .removeK8sWorkload view parsed => match parsed with
    | none => (d, .none)
    | some key => d.removeWorkload view.mask key
  | .materializeMatchingWorkloads view pid md order =>
    d.materializeMatchingWorkloads view.mask pid md order
  | .clearWorkloadSources pids => d.clearWorkloadSources pids

end Obi.Ref
