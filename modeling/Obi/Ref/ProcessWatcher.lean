import Obi.Ref.Discover

/-!
# The process watcher

`pollAccounter` compares the processes of each poll with those of the poll before
and tells of the difference. A process is told of when its executable is ready; one
that was not ready is forgotten, so that the next poll takes it for new. A `range`
over a map goes through the table in its order. How old a process is comes from a
field of its `stat` line, which is cut into words with one look at each character.
-/

namespace Obi.Ref
open Lib

structure PidPort where
  pid : PID
  port : Nat
deriving DecidableEq, Repr

structure PollAccounter where
  minProcessAge : Int
  pids : Table PID ProcessAttrs
  rescanPIDs : List PID
  pidPorts : Table PidPort ProcessAttrs
  fetchPorts : Bool

/-- What a call of `snapshot` has worked out so far. -/
structure Snapshot where
  pa : PollAccounter
  events : List (Event ProcessAttrs)
  currentPidPorts : Table PidPort ProcessAttrs
  currentProcs : Table PID ProcessAttrs
  (reportedProcs notReadyProcs : List PID)

def sameProcess (previous proc : ProcessAttrs) : Bool :=
  previous.startTime ≠ 0 && previous.startTime = proc.startTime

def pidReused (previous proc : ProcessAttrs) : Bool :=
  previous.startTime ≠ 0 && proc.startTime ≠ 0 && previous.startTime ≠ proc.startTime

/-- The PID is now another process, or the same with another executable. -/
def replaced (previous proc : ProcessAttrs) : Bool :=
  pidReused previous proc || (proc.executable.ino ≠ 0 && previous.executable ≠ proc.executable)

namespace PollAccounter

def new (minProcessAge : Int) : PollAccounter := ⟨minProcessAge, ∅, [], ∅, true⟩

def forgetPIDs (pa : PollAccounter) (pids : List PID) : PollAccounter :=
  { pa with rescanPIDs := pa.rescanPIDs ++ pids }

def forgetAll (pa : PollAccounter) : PollAccounter := { pa with rescanPIDs := pa.pids.keys }

def processTooNew (pa : PollAccounter) (proc : ProcessAttrs) : Bool :=
  (pa.pids.lookup proc.pid).isNone && (proc.processAge ≠ 0 && proc.processAge < pa.minProcessAge)

end PollAccounter

namespace Snapshot

/-- The part of a round that looks at the process the PID was before; it yields the
process with what could not be read of it this time. -/
def retire (s : Snapshot) (pid : PID) (proc : ProcessAttrs) : Snapshot × ProcessAttrs :=
  match s.pa.pids.lookup pid with
  | none => (s, proc)
  | some previous =>
    let current :=
      if proc.startTime = 0 then { proc with startTime := previous.startTime } else proc
    let currentProcs :=
      if proc.startTime = 0 then s.currentProcs.insert pid current else s.currentProcs
    if replaced previous proc then
      let eventType :=
        if sameProcess previous proc then WatchEventType.executableReplaced else .deleted
      ({ s with
          pa := { s.pa with pids := s.pa.pids.erase pid, fetchPorts := true }
          events := s.events ++ [⟨eventType, previous⟩]
          currentProcs := currentProcs }, current)
    else if current.executable.ino = 0 then
      let current := { current with executable := previous.executable }
      ({ s with currentProcs := currentProcs.insert pid current }, current)
    else ({ s with currentProcs := currentProcs }, current)

variable (executableReady : PID → Bool) (rescan : Bool)

/-- Asks for the executable of a process, once in a snapshot. -/
def ask (s : Snapshot) (pid : PID) : Snapshot × Bool :=
  if pid ∈ s.reportedProcs then (s, false)
  else if executableReady pid then ({ s with reportedProcs := pid :: s.reportedProcs }, true)
  else
    ({ s with
        reportedProcs := pid :: s.reportedProcs
        notReadyProcs := pid :: s.notReadyProcs }, false)

def checkNewProcessConnectionNotification (s : Snapshot) (proc : ProcessAttrs) (port : Nat) :
    Snapshot × Bool :=
  let pp : PidPort := ⟨proc.pid, port⟩
  let s := { s with currentPidPorts := s.currentPidPorts.insert pp proc }
  let existingConnection := (s.pa.pidPorts.lookup pp).isSome
  let existingProcess := (s.pa.pids.lookup proc.pid).isSome
  if rescan || !existingConnection || !existingProcess then s.ask executableReady pp.pid
  else (s, false)

def checkNewProcessNotification (s : Snapshot) (pid : PID) : Snapshot × Bool :=
  let existingProcess := (s.pa.pids.lookup pid).isSome
  if rescan || !existingProcess then s.ask executableReady pid else (s, false)

def created (s : Snapshot) (proc : ProcessAttrs) : Snapshot :=
  { s with events := s.events ++ [⟨.created, proc⟩] }

/-- One round of the loop over the ports of a process. -/
def announceConnection (proc : ProcessAttrs) (s : Snapshot) (port : Nat) : Snapshot :=
  match s.checkNewProcessConnectionNotification executableReady rescan proc port with
  | (s, true) => s.created proc
  | (s, false) => s

/-- The part of a round that tells of a process. -/
def announce (s : Snapshot) (pid : PID) (proc : ProcessAttrs) : Snapshot :=
  if proc.openPorts.isEmpty then
    match s.checkNewProcessNotification executableReady rescan pid with
    | (s, true) =>
      if s.pa.processTooNew proc then { s with notReadyProcs := pid :: s.notReadyProcs }
      else s.created proc
    | (s, false) => s
  else proc.openPorts.foldl (announceConnection executableReady rescan proc) s

end Snapshot

/-- One round of the loop over the processes of a poll. -/
def snapshotProcess (executableReady : PID → Bool) (forceRescan : Bool) (s : Snapshot)
    (entry : Σ _ : PID, ProcessAttrs) : Snapshot :=
  let rescan := decide (entry.1 ∈ s.pa.rescanPIDs) || forceRescan
  let (s, proc) := s.retire entry.1 entry.2
  s.announce executableReady rescan entry.1 proc

namespace PollAccounter

/-- `snapshot`, with the answers of `executableReady`. -/
def snapshot (pa : PollAccounter) (fetchedProcs : Table PID ProcessAttrs) (forceRescan : Bool)
    (executableReady : PID → Bool) : PollAccounter × List (Event ProcessAttrs) :=
  let s := fetchedProcs.entries.foldl (snapshotProcess executableReady forceRescan)
    ⟨pa, [], ∅, fetchedProcs, [], []⟩
  let removed := s.pa.pids.entries.filterMap fun e =>
    if (fetchedProcs.lookup e.1).isSome then none else some ⟨.deleted, e.2⟩
  ({ s.pa with
      pids := s.notReadyProcs.foldl (fun t pid => t.erase pid) s.currentProcs
      pidPorts := s.currentPidPorts.keys.foldl
        (fun t pp => if pp.pid ∈ s.notReadyProcs then t.erase pp else t) s.currentPidPorts
      rescanPIDs := [] }, s.events ++ removed)

end PollAccounter

/-! ## Polls -/

/-- What happens to the watcher: requests to tell of processes again, and polls. -/
inductive WatcherEvent
  | forgetPIDs (pids : List PID)
  | forgetAll
  | snapshot (fetchedProcs : Table PID ProcessAttrs) (forceRescan : Bool)
      (executableReady : PID → Bool)

/-- The watcher with everything it told. -/
structure Watcher where
  pa : PollAccounter
  events : List (Event ProcessAttrs)

def Watcher.init (minProcessAge : Int) : Watcher := ⟨.new minProcessAge, []⟩

def Watcher.step (w : Watcher) : WatcherEvent → Watcher
  | .forgetPIDs pids => { w with pa := w.pa.forgetPIDs pids }
  | .forgetAll => { w with pa := w.pa.forgetAll }
  | .snapshot fetchedProcs forceRescan executableReady =>
    let (pa, events) := w.pa.snapshot fetchedProcs forceRescan executableReady
    ⟨pa, w.events ++ events⟩

/-! ## The fields of `/proc/pid/stat` -/

namespace ProcStat

/-- The closure of `parseProcStatField`: whether the character separates, and `inParens` then. -/
def separates (inParens : Bool) (c : Char) : Bool × Bool :=
  if c = '(' then (true, true)
  else if inParens then if c = ')' then (true, false) else (false, true)
  else (c = ' ', false)

/-- `strings.FieldsFuncSeq`, from the characters of the current word on. -/
def fieldsFunc (inParens : Bool) (word : List Char) : List Char → List (List Char)
  | [] => if word = [] then [] else [word]
  | c :: s => match separates inParens c with
    | (true, inParens) => (if word = [] then [] else [word]) ++ fieldsFunc inParens [] s
    | (false, inParens) => fieldsFunc inParens (word ++ [c]) s

/-- The loop counts the words from 1. -/
def parseProcStatField (buf : List Char) : Nat → List Char
  | 0 => []
  | i + 1 => (fieldsFunc false [] buf).getD i []

end ProcStat

end Obi.Ref
