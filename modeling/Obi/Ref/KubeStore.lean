import Obi.Ref.Common

/-!
# The Kubernetes metadata store

`Store` keeps several indices over the objects the informer reports and the
processes discovery finds: by IP, by qualified name, by container, by owner and
by PID namespace. Every event is applied to all of them.

Of a cached object only the metadata is kept: the resource attributes that are
stored beside it are a function of it and no index is read through them. What
`InfoForPID` says about a process is passed in, and so is the entry that a
`range` over a map yields first.
-/

namespace Obi.Ref
open Lib Map2

/-! ## Objects -/

structure ContainerInfo where
  (id name : String)
deriving DecidableEq, Repr

structure Owner where
  (name kind : String)
deriving DecidableEq, Repr

structure PodInfo where
  containers : List ContainerInfo
  owners : List Owner
  finished : Bool
deriving DecidableEq, Repr

structure ObjectMeta where
  (name nameSpace kind : String)
  ips : List String
  pod : Option PodInfo
  statusTimeEpoch : Int
deriving DecidableEq, Repr

structure QualifiedName where
  (name nameSpace kind : String)
deriving DecidableEq, Repr

def qName (om : ObjectMeta) : QualifiedName := ⟨om.name, om.nameSpace, om.kind⟩

def ObjectMeta.containers (om : ObjectMeta) : List ContainerInfo :=
  (om.pod.map PodInfo.containers).getD []

def ObjectMeta.isRunningPod (om : ObjectMeta) : Bool := om.pod.any fun pod => !pod.finished

def ObjectMeta.isFinishedPod (om : ObjectMeta) : Bool := om.pod.any fun pod => pod.finished

/-- A finished pod still reports its IP, which may be a running pod's by now. -/
def keepsIP (current other : ObjectMeta) : Bool :=
  decide (qName current ≠ qName other) && current.isRunningPod && other.isFinishedPod

def topOwner (pod : PodInfo) : Option Owner := pod.owners.getLast?

def ownerID (nameSpace name : String) : String := nameSpace ++ "." ++ name

def fetchOwnerID (om : ObjectMeta) : String :=
  ownerID om.nameSpace (((om.pod.bind topOwner).map Owner.name).getD om.name)

/-- `container.Info`. -/
structure Container.Info where
  containerID : String
  pidNamespace : Nat
deriving DecidableEq, Repr

/-! ## The store -/

structure Store where
  containerIDs : Map2 String PID Container.Info
  containerByPID : Table PID Container.Info
  namespaces : Map2 Nat PID Container.Info
  podsByContainer : Table String ObjectMeta
  containersByOwner : Map2 String String ContainerInfo
  objectMetaByIP : Table String ObjectMeta
  objectMetaByQName : Table QualifiedName ObjectMeta
  cacheSynced : Bool

def newStore : Store := ⟨∅, ∅, ∅, ∅, ∅, ∅, ∅, false⟩

/-- The entry a `range` over the processes of a container yields first. -/
abbrev FirstInfo := Table PID Container.Info → Option Container.Info

namespace Store

/-! ## Processes -/

variable (first : FirstInfo) (s : Store)

/-- `AddProcess`; `info` is what `InfoForPID` answers. -/
def addProcess (pid : PID) (info : Option Container.Info) : Store := match info with
  | none => s
  | some ifp =>
    let s := match s.containerByPID.lookup pid with
      | none => s
      | some previous =>
        { s with
          namespaces := delete s.namespaces previous.pidNamespace pid
          containerIDs := delete s.containerIDs previous.containerID pid }
    { s with
      namespaces := put s.namespaces ifp.pidNamespace pid ifp
      containerIDs := put s.containerIDs ifp.containerID pid ifp
      containerByPID := s.containerByPID.insert pid ifp }

def deleteProcess (pid : PID) : Store := match s.containerByPID.lookup pid with
  | none => s
  | some info =>
    { s with
      containerByPID := s.containerByPID.erase pid
      namespaces := delete s.namespaces info.pidNamespace pid
      containerIDs := delete s.containerIDs info.containerID pid }

/-! ## Objects -/

variable (om : ObjectMeta)

/-- An IP goes to the object unless the one that has it keeps it. -/
def addIP (byIP : Table String ObjectMeta) (ip : String) : Table String ObjectMeta :=
  match byIP.lookup ip with
  | some current => if keepsIP current om then byIP else byIP.insert ip om
  | none => byIP.insert ip om

def addContainer (s : Store) (c : ContainerInfo) : Store :=
  { s with
    podsByContainer := s.podsByContainer.insert c.id om
    namespaces := match s.containerIDs.lookup c.id with
      | none => s.namespaces
      | some infos => infos.entries.foldl (fun m e => put m e.2.pidNamespace e.1 e.2) s.namespaces
    containersByOwner := put s.containersByOwner (fetchOwnerID om) c.id c }

def unlockedAddObjectMeta : Store :=
  let s := { s with
    objectMetaByQName := s.objectMetaByQName.insert (qName om) om
    objectMetaByIP := om.ips.foldl (addIP om) s.objectMetaByIP }
  om.containers.foldl (addContainer om) s

/-- An IP is given up only by the object that has it. -/
def deleteIP (byIP : Table String ObjectMeta) (ip : String) : Table String ObjectMeta :=
  match byIP.lookup ip with
  | some current => if qName current = qName om then byIP.erase ip else byIP
  | none => byIP

def deleteContainer (s : Store) (c : ContainerInfo) : Store :=
  let s := match s.containerIDs.lookup c.id with
    | none => s
    | some infos =>
      { s with
        containerIDs := deleteAll s.containerIDs c.id
        namespaces := match first infos with
          | none => s.namespaces
          | some info => deleteAll s.namespaces info.pidNamespace }
  { s with
    podsByContainer := s.podsByContainer.erase c.id
    containersByOwner := delete s.containersByOwner (fetchOwnerID om) c.id }

def unlockedDeleteObjectMeta : Store :=
  let s := { s with
    objectMetaByQName := s.objectMetaByQName.erase (qName om)
    objectMetaByIP := om.ips.foldl (deleteIP om) s.objectMetaByIP }
  om.containers.foldl (deleteContainer first om) s

/-- The stored version of an object, if there is one, is removed. -/
def deletePrevious : Store := match s.objectMetaByQName.lookup (qName om) with
  | none => s
  | some previousObject => s.unlockedDeleteObjectMeta first previousObject

def addObjectMeta : Store := s.unlockedAddObjectMeta om

def updateObjectMeta : Store := (s.deletePrevious first om).unlockedAddObjectMeta om

def deleteObjectMeta : Store := (s.deletePrevious first om).unlockedDeleteObjectMeta first om

end Store

/-! ## Events -/

inductive EventType
  | created | updated | deleted | syncFinished
deriving DecidableEq, Repr

structure KubeEvent where
  type : EventType
  resource : Option ObjectMeta
deriving DecidableEq, Repr

def Store.on (first : FirstInfo) (s : Store) (event : KubeEvent) : Store :=
  if event.type = .syncFinished then { s with cacheSynced := true }
  else match event.resource with
  | none => s
  | some om => match event.type with
    | .created => s.addObjectMeta om
    | .updated => s.updateObjectMeta first om
    | .deleted => s.deleteObjectMeta first om
    | .syncFinished => s

/-- A call that changes the store, with what it reads. -/
inductive StoreCall
  | addProcess (pid : PID) (info : Option Container.Info)
  | deleteProcess (pid : PID)
  | on (first : FirstInfo) (event : KubeEvent)

def Store.call (s : Store) : StoreCall → Store
  | .addProcess pid info => s.addProcess pid info
  | .deleteProcess pid => s.deleteProcess pid
  | .on first event => s.on first event

/-! ## Lookups -/

namespace Store

def metaByIP (s : Store) (ip : String) : Option ObjectMeta := s.objectMetaByIP.lookup ip

end Store
end Obi.Ref
