import Obi.Ref.Discover
import Obi.Ref.KubeStore

/-!
# The Kubernetes enricher of the process watcher

`watcherKubeEnricher` hands the processes of containers on once their pod is known,
with the metadata of the pod. It hears of processes on its input and of pods from the
store, which first records a pod and then calls `On`; `On` only queues the pod.

One loop serves both sources. The store and `On` run beside it, so the loop is modelled
by its position: between two steps of the loop the store may record an object and `On`
may queue one. A process is put into the table of its container in one step and its pod
is looked up in the next. What `InfoForPID` answers about a process is passed in, and so
are the labels and annotations of an object, which the model of the store leaves out.
-/

namespace Obi.Ref
open Lib

/-- The errors of `InfoForPID` the enricher tells apart. -/
inductive ContainerError
  | unknownKubeletCgroup | containerNotFound | other

/-- `OwnerLabelName`, as the name of a Prometheus label. -/
def ownerLabelName (kind : String) : String := match kind with
  | "Deployment" => "k8s_deployment_name"
  | "StatefulSet" => "k8s_statefulset_name"
  | "DaemonSet" => "k8s_daemonset_name"
  | "ReplicaSet" => "k8s_replicaset_name"
  | "Job" => "k8s_job_name"
  | "CronJob" => "k8s_cronjob_name"
  | _ => ""

/-- The labels and annotations of the objects. -/
structure ObjectTexts where
  (labels annotations : ObjectMeta → Table String String)

def withMetadata (texts : ObjectTexts) (pp : ProcessAttrs) (info : ObjectMeta)
    (containerID : String) : ProcessAttrs :=
  let ownerName := ((info.pod.bind topOwner).map Owner.name).getD info.name
  let metadata : Table String String :=
    ((AList.insert "k8s_namespace" info.nameSpace ∅).insert "k8s_pod_name" info.name).insert
      "k8s_owner_name" ownerName
  let owners := (info.pod.map PodInfo.owners).getD []
  let metadata := owners.foldl (fun md o => md.insert (ownerLabelName o.kind) o.name) metadata
  let metadata :=
    if containerID = "" then metadata
    else match info.containers.find? fun podContainer => podContainer.id = containerID with
    | none => metadata
    | some podContainer => metadata.insert "k8s_container_name" podContainer.name
  { pp with
    metadata := some metadata
    podLabels := texts.labels info
    podAnnotations := texts.annotations info }

/-- A single, most recent copy of each process of a container. -/
def upsertProcess (procs : List ProcessAttrs) (procInfo : ProcessAttrs) : List ProcessAttrs :=
  match procs with
  | [] => [procInfo]
  | p :: rest => if p.pid = procInfo.pid then procInfo :: rest else p :: upsertProcess rest procInfo

def podEventsBatchSize : Nat := 64

/-- Where the loop of `enrich` is. -/
inductive EnrichLoop
  | idle
  /-- In `drainPodEvents`, with rounds left. -/
  | draining (left : Nat)
  /-- In `enrichProcessEvent`, before the events `rest`. -/
  | enriching (processEvents rest eventsWithMeta : List (Event ProcessAttrs))
  /-- In `onNewProcess`, before the pod of the container is looked up. -/
  | lookingUp (procInfo : ProcessAttrs) (containerID : String)
      (processEvents rest eventsWithMeta : List (Event ProcessAttrs))

structure KubeEnricher where
  store : Store
  containerByPID : Table PID Container.Info
  processByContainer : Table String (List ProcessAttrs)
  podEvents : List (Event ObjectMeta)
  /-- Whether a signal waits in `podEventsReady`. -/
  podEventsReady : Bool
  loop : EnrichLoop
  /-- The batches sent so far. -/
  output : List (List (Event ProcessAttrs))

def newWatcherKubeEnricher : KubeEnricher := ⟨newStore, ∅, ∅, [], false, .idle, []⟩

namespace KubeEnricher

variable (texts : ObjectTexts) (wk : KubeEnricher)

def send (events : List (Event ProcessAttrs)) : KubeEnricher :=
  if events.isEmpty then wk else { wk with output := wk.output ++ [events] }

/-! ## Pods -/

/-- `On` without the signal, which follows it. -/
def on (event : KubeEvent) : KubeEnricher := match event.resource with
  | none => wk
  | some om =>
    if om.pod = none then wk
    else match event.type with
    | .created | .updated => { wk with podEvents := wk.podEvents ++ [⟨.created, om⟩] }
    | .deleted => { wk with podEvents := wk.podEvents ++ [⟨.deleted, om⟩] }
    | .syncFinished => wk

def onNewPod (pod : ObjectMeta) : List (Event ProcessAttrs) :=
  pod.containers.flatMap fun cnt =>
    ((wk.processByContainer.lookup cnt.id).getD []).map fun procInfo =>
      ⟨.created, withMetadata texts procInfo pod cnt.id⟩

def onDeletedContainer (cnt : ContainerInfo) : KubeEnricher :=
  { wk with
    containerByPID := ((wk.processByContainer.lookup cnt.id).getD []).foldl
      (fun m pbc => m.erase pbc.pid) wk.containerByPID
    processByContainer := wk.processByContainer.erase cnt.id }

def onDeletedPod (pod : ObjectMeta) : KubeEnricher := pod.containers.foldl onDeletedContainer wk

def enrichPodEvent (podEvent : Event ObjectMeta) : KubeEnricher := match podEvent.type with
  | .created => wk.send (wk.onNewPod texts podEvent.obj)
  | .deleted => wk.onDeletedPod podEvent.obj
  | _ => wk

/-! ## Processes -/

/-- `getContainerInfo`; `info` is what `InfoForPID` answers. -/
def getContainerInfo (pid : PID) (info : Except ContainerError Container.Info) :
    KubeEnricher × Except ContainerError Container.Info :=
  match wk.containerByPID.lookup pid with
  | some cntInfo => (wk, .ok cntInfo)
  | none => match info with
    | .error err => (wk, .error err)
    | .ok cntInfo =>
      ({ wk with containerByPID := wk.containerByPID.insert pid cntInfo }, .ok cntInfo)

variable (procInfo : ProcessAttrs)

/-- `onNewProcess` up to the lookup of the pod. -/
def onNewProcess (info : Except ContainerError Container.Info)
    (processEvents rest eventsWithMeta : List (Event ProcessAttrs)) : KubeEnricher :=
  match wk.getContainerInfo procInfo.pid info with
  | (wk, .error .other) => { wk with loop := .enriching processEvents rest eventsWithMeta }
  | (wk, .error _) =>
    { wk with loop := .enriching processEvents rest (eventsWithMeta ++ [⟨.created, procInfo⟩]) }
  | (wk, .ok containerInfo) =>
    let procs := (wk.processByContainer.lookup containerInfo.containerID).getD []
    { wk with
      processByContainer :=
        wk.processByContainer.insert containerInfo.containerID (upsertProcess procs procInfo)
      loop := .lookingUp procInfo containerInfo.containerID processEvents rest eventsWithMeta }

/-- The rest of `onNewProcess`. -/
def podLookup (containerID : String)
    (processEvents rest eventsWithMeta : List (Event ProcessAttrs)) : KubeEnricher :=
  match wk.store.podsByContainer.lookup containerID with
  | none => { wk with loop := .enriching processEvents rest eventsWithMeta }
  | some pod =>
    { wk with
      loop := .enriching processEvents rest
        (eventsWithMeta ++ [⟨.created, withMetadata texts procInfo pod containerID⟩]) }

def onProcessTerminate : KubeEnricher :=
  let processByContainer := match wk.containerByPID.lookup procInfo.pid with
    | none => wk.processByContainer
    | some cnt => match wk.processByContainer.lookup cnt.containerID with
      | none => wk.processByContainer
      | some procInfos =>
        let filtered := procInfos.filter fun p => p.pid ≠ procInfo.pid
        if filtered.isEmpty then wk.processByContainer.erase cnt.containerID
        else wk.processByContainer.insert cnt.containerID filtered
  { wk with
    processByContainer := processByContainer
    containerByPID := wk.containerByPID.erase procInfo.pid
    store := wk.store.deleteProcess procInfo.pid }

/-! ## The loop -/

/-- The next step of the loop. -/
def advance (info : Except ContainerError Container.Info) : KubeEnricher := match wk.loop with
  | .idle => wk
  | .draining 0 => { wk with podEventsReady := true, loop := .idle }
  | .draining (left + 1) => match wk.podEvents with
    | [] => { wk with loop := .idle }
    | podEvent :: rest =>
      enrichPodEvent texts { wk with podEvents := rest, loop := .draining left } podEvent
  | .enriching _ [] eventsWithMeta => { wk with loop := .idle }.send eventsWithMeta
  | .enriching processEvents (procEvent :: rest) eventsWithMeta => match procEvent.type with
    | .created => wk.onNewProcess procEvent.obj info processEvents rest eventsWithMeta
    | .deleted | .executableReplaced =>
      { wk.onProcessTerminate procEvent.obj with
        loop := .enriching processEvents rest (eventsWithMeta ++ [procEvent]) }
    | .instanceDeleted | .updated =>
      { wk with loop := .enriching processEvents rest eventsWithMeta }
  | .lookingUp procInfo containerID processEvents rest eventsWithMeta =>
    wk.podLookup texts procInfo containerID processEvents rest eventsWithMeta

end KubeEnricher

/-- What happens to the enricher and to the store it reads. -/
inductive EnrichEvent
  | store (call : StoreCall)
  | on (event : KubeEvent)
  | signalPodEvents
  /-- The loop receives the signal. -/
  | wake
  /-- The loop receives process events. -/
  | receive (processEvents : List (Event ProcessAttrs))
  /-- The loop goes on; the answer of `InfoForPID` is there if it asks. -/
  | advance (info : Except ContainerError Container.Info)

def KubeEnricher.step (texts : ObjectTexts) (wk : KubeEnricher) : EnrichEvent → KubeEnricher
  | .store call => { wk with store := wk.store.call call }
  | .on event => wk.on event
  | .signalPodEvents => { wk with podEventsReady := true }
  | .wake => { wk with podEventsReady := false, loop := .draining podEventsBatchSize }
  | .receive processEvents => { wk with loop := .enriching processEvents processEvents [] }
  | .advance info => wk.advance texts info

end Obi.Ref
