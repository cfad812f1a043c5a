import Obi.Ref.Common

/-!
# Processes and events

What the components of the discovery pipeline hand on: processes as the watcher
sees them, what is read of a process before it is matched, and events about both.
-/

namespace Obi.Ref
open Lib

inductive WatchEventType
  | created | deleted | instanceDeleted | executableReplaced | updated
deriving DecidableEq, Repr

structure Event (α : Type) where
  type : WatchEventType
  obj : α

/-- `cacheKey`: the file of an executable. -/
structure CacheKey where
  (dev ino : Nat)
deriving DecidableEq, Repr

structure ProcessAttrs where
  pid : PID
  startTime : Nat
  executable : CacheKey
  openPorts : List Nat
  metadata : Option (Table String String)
  (podLabels podAnnotations : Table String String)
  (processAge detectedType : Int)
  cmdArgs : String

structure ProcessInfo where
  (pid ppid : PID)
  (exePath cmdArgs : String)
  openPorts : List Nat
deriving DecidableEq, Repr

/-- What `processInfo` reads of a process, without its name in the command line. -/
structure ProcReading where
  ppid : PID
  (exePath cmdArgs : String)
deriving DecidableEq, Repr

/-- `processInfo`, with what reading the process yields. -/
def processInfo (read : PID → Except String ProcReading) (pp : ProcessAttrs) :
    Except String ProcessInfo :=
  match read pp.pid with
  | .error err => .error err
  | .ok r => .ok ⟨pp.pid, r.ppid, r.exePath, r.cmdArgs, pp.openPorts⟩

structure SamplerConfig where
  (name arg : String)
deriving DecidableEq, Repr

/-- A process with the criteria it fulfils. -/
structure ProcessMatch (Selector : Type) where
  (criteria logEnricherCriteria : List Selector)
  process : ProcessInfo
  samplerConfig : Option SamplerConfig
  dynamicSelectorPID : PID

end Obi.Ref
