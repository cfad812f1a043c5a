import Obi.Ref.Discover
import Obi.Ref.DynamicSelector

/-!
# The dynamic matcher

`DynamicMatcher` decides which processes are instrumented when they are selected
at run time. It hears of processes on its input and of PIDs that were taken back
on a channel of the selector, and reads the selector as it is by then.
-/

namespace Obi.Ref
open Lib

/-- `dynamicPIDCriteriaAdapter`, made from the record of a PID. -/
structure DynamicPIDCriteriaAdapter where
  pid : PID
  attrs : DynamicPIDAttributes

abbrev DynamicMatch := ProcessMatch DynamicPIDCriteriaAdapter

/-- The criteria of a PID the view has. -/
def DynamicSelector.selectorForPID (d : DynamicSelector) (view : SignalView) (pid : PID) :
    Option DynamicPIDCriteriaAdapter :=
  if d.includesPID view.mask pid then (d.byPID.lookup pid).map fun r => ⟨pid, r.attrs⟩ else none

structure DynamicMatcher where
  selector : DynamicSelector
  processHistory : Table PID DynamicMatch

/-- What the matcher reads from elsewhere: the process, and the order in which a
`range` goes through the workloads. -/
structure MatcherReads where
  read : PID → Except String ProcReading
  order : List WorkloadKey

namespace DynamicMatcher

variable (view : SignalView) (reads : MatcherReads) (m : DynamicMatcher)

def materialize (pid : PID) (md : Option (Table String String)) : DynamicMatcher :=
  { m with selector := (m.selector.materializeMatchingWorkloads view.mask pid md reads.order).1 }

/-- The match of a selected process, `none` standing for `nil`. -/
def matchDynamicCriteria (obj : ProcessAttrs) (proc : ProcessInfo) :
    DynamicMatcher × Option DynamicMatch :=
  let m := m.materialize view reads proc.pid obj.metadata
  if !m.selector.includesPID view.mask proc.pid then (m, none)
  else match m.selector.selectorForPID view proc.pid with
  | none => (m, none)
  | some selector => (m, some ⟨[selector], [selector], proc, none, proc.pid⟩)

def filterCreated (obj : ProcessAttrs) : DynamicMatcher × Option (Event DynamicMatch) :=
  if (m.processHistory.lookup obj.pid).isSome then
    (m.materialize view reads obj.pid obj.metadata, none)
  else match processInfo reads.read obj with
  | .error _ => (m, none)
  | .ok proc => match m.matchDynamicCriteria view reads obj proc with
    | (m, some processMatch) =>
      ({ m with processHistory := m.processHistory.insert obj.pid processMatch },
        some ⟨.created, processMatch⟩)
    | (m, none) =>
      -- the parent may be tracked
      match m.processHistory.lookup proc.ppid with
      | none => (m, none)
      | some procMatch =>
        let procMatch := { procMatch with process := proc }
        ({ m with processHistory := m.processHistory.insert obj.pid procMatch },
          some ⟨.created, procMatch⟩)

def filterDeleted (obj : ProcessAttrs) (eventType : WatchEventType) :
    DynamicMatcher × Option (Event DynamicMatch) :=
  match m.processHistory.lookup obj.pid with
  | none => (m, none)
  | some procMatch =>
    let selector :=
      if eventType ≠ .executableReplaced then (m.selector.clearWorkloadSources [obj.pid]).1
      else m.selector
    (⟨selector, m.processHistory.erase obj.pid⟩, some ⟨.deleted, procMatch⟩)

/-- One round of `filter`. -/
def filterEvent (st : DynamicMatcher × List (Event DynamicMatch)) (ev : Event ProcessAttrs) :
    DynamicMatcher × List (Event DynamicMatch) :=
  let (m, out) :=
    if ev.type = .deleted ∨ ev.type = .executableReplaced then st.1.filterDeleted ev.obj ev.type
    else st.1.filterCreated view reads ev.obj
  (m, st.2 ++ out.toList)

def filter (events : List (Event ProcessAttrs)) : DynamicMatcher × List (Event DynamicMatch) :=
  events.foldl (filterEvent view reads) (m, [])

/-- The PID is still selected with the attributes of the tracked match. -/
def selectionUnchanged (pid : PID) (tracked : DynamicMatch) : Bool :=
  match m.selector.selectorForPID view pid, tracked.criteria with
  | some current, previous :: _ => previous.attrs.equal current.attrs
  | _, _ => false

/-- One round of `syntheticDeletesForRemovedPIDs`. -/
def syntheticDelete (st : DynamicMatcher × List (Event DynamicMatch)) (pid : PID) :
    DynamicMatcher × List (Event DynamicMatch) :=
  match st.1.processHistory.lookup pid with
  | none => st
  | some procMatch =>
    if st.1.selectionUnchanged view pid procMatch then st
    else
      ({ st.1 with processHistory := st.1.processHistory.erase pid },
        st.2 ++ [⟨.deleted, procMatch⟩])

def syntheticDeletesForRemovedPIDs (removedPIDs : List PID) :
    DynamicMatcher × List (Event DynamicMatch) :=
  removedPIDs.foldl (syntheticDelete view) (m, [])

end DynamicMatcher

/-! ## One live process -/

/-- The matcher with its two channels. A process that entered the view is seen again
by a later poll, which is due until then. -/
structure MatcherLoop where
  matcher : DynamicMatcher
  due : Nat
  input : List (List (Event ProcessAttrs))
  removed : List (List PID)
  output : List (Event DynamicMatch)

/-- What can happen around a process: it is selected and taken back, it is seen by
the poll that is due, and the matcher takes a batch from one of its channels. -/
inductive MatcherEvent
  | addPID (opts : DynamicPIDAttributes)
  | removePIDs
  | rescan (seen : ProcessAttrs)
  | receiveInput (reading : ProcReading) (order : List WorkloadKey)
  | receiveRemoved

namespace MatcherLoop

def init : MatcherLoop := ⟨⟨newDynamicSelector, ∅⟩, 0, [], [], []⟩

def step (view : SignalView) (pid : PID) (s : MatcherLoop) : MatcherEvent → MatcherLoop
  | .addPID opts =>
    let (selector, notices) := s.matcher.selector.call (.addPID view pid opts)
    { s with
      matcher := { s.matcher with selector := selector }
      due := s.due + (notices.added view).length }
  | .removePIDs =>
    let (selector, notices) := s.matcher.selector.call (.removePIDs view [pid])
    { s with
      matcher := { s.matcher with selector := selector }
      removed :=
        if (notices.removed view).isEmpty then s.removed
        else s.removed ++ [notices.removed view] }
  | .rescan seen =>
    if s.due = 0 then s
    else
      { s with
        due := s.due - 1
        input := s.input ++ [[⟨.created, { seen with pid := pid }⟩]] }
  | .receiveInput reading order => match s.input with
    | [] => s
    | batch :: rest =>
      let (m, out) := s.matcher.filter view ⟨fun _ => .ok reading, order⟩ batch
      { s with matcher := m, input := rest, output := s.output ++ out }
  | .receiveRemoved => match s.removed with
    | [] => s
    | batch :: rest =>
      let (m, out) := s.matcher.syntheticDeletesForRemovedPIDs view batch
      { s with matcher := m, removed := rest, output := s.output ++ out }

end MatcherLoop
end Obi.Ref
