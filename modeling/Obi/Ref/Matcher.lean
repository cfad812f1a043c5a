import Obi.Ref.Discover

/-!
# The criteria matcher

`Matcher` decides by configured criteria which processes are instrumented, and
`refresh` replaces the criteria of a running one: it matches every observed process
again in a trial copy of the matcher, gives up without a trace if a setting would
change that cannot, and else takes the copy over and sends what changed.

The model is of a matcher with criteria updates, so `observed` is a map and not nil.
Its maps are shared by reference: a copy of the struct shares them until it is given
maps of its own, so they live in a heap (`GoMaps`) and the struct holds their numbers.
What the methods do to the maps is written over the maps a struct points to.

How a criterion matches a process and how the settings of criteria compare is given
by functions, and so is the order in which a `range` goes through the keys of a map.
-/

namespace Obi.Ref
open Lib

/-- What is asked about processes and criteria. -/
structure MatcherOps (Selector : Type) where
  read : PID → Except String ProcReading
  matchProcess : ProcessAttrs → ProcessInfo → Selector → Bool
  sameCriterion : Selector → Selector → Bool
  /-- `GetOpenPorts().Len()`. -/
  openPorts : Selector → Nat
  /-- `GetSamplerConfig`. -/
  sampler : Selector → Option SamplerConfig
  /-- `sameSettings` of the settings that criteria add up to, and of a criterion. -/
  sameSettings : List Selector → Selector → Bool
  /-- `sameFixedSettings` of the settings that criteria add up to. -/
  sameFixedSettings : List Selector → List Selector → Bool

variable {Selector : Type}

structure ObservedProcess (Selector : Type) where
  attrs : ProcessAttrs
  process : ProcessInfo
  (confirmedCriteria inheritedLogEnricherCriteria : List Selector)

/-- A matcher with the maps it points to. -/
structure Matcher (Selector : Type) where
  (criteria excludeCriteria logEnricherCriteria : List Selector)
  samplerConfig : Option SamplerConfig
  processHistory : Table PID (ProcessMatch Selector)
  observed : Table PID (ObservedProcess Selector)

def ProcessMatch.logEnricherEnabled (pm : ProcessMatch Selector) : Bool :=
  !pm.logEnricherCriteria.isEmpty

/-- The sampler of the last criterion that sets one, or else the match's. -/
def samplingConfig (ops : MatcherOps Selector) (pm : ProcessMatch Selector) :
    Option SamplerConfig :=
  match pm.criteria.foldl (fun acc criterion => (ops.sampler criterion).or acc) none with
  | some sampler => some sampler
  | none => pm.samplerConfig

namespace Matcher

variable (ops : MatcherOps Selector)

/-! ## Matching -/

def containsCriterion (criteria : List Selector) (criterion : Selector) : Bool :=
  criteria.any fun previous => ops.sameCriterion previous criterion

variable (m : Matcher Selector) (pid : PID)

def alreadyMatched : Bool := (m.processHistory.lookup pid).isSome

def confirmedMatch (criterion : Selector) : Bool :=
  containsCriterion ops (((m.observed.lookup pid).map (·.confirmedCriteria)).getD []) criterion

variable (obj : ProcessAttrs) (proc : ProcessInfo)

def isExcluded : Bool := m.excludeCriteria.any fun criterion => ops.matchProcess obj proc criterion

def confirmCriteria (criteria : List Selector) : Matcher Selector :=
  match m.observed.lookup pid with
  | none => m
  | some observed =>
    let criteria := match m.processHistory.lookup pid with
      | none => criteria
      | some previous => criteria.filter fun c => containsCriterion ops previous.criteria c
    { m with
      observed := m.observed.insert pid { observed with confirmedCriteria := criteria } }

/-- The match of a process, `none` standing for `nil`. -/
def matchCriteria (findingCriteria : List Selector) : Option (ProcessMatch Selector) :=
  let criteria := findingCriteria.filter fun criterion =>
    (m.confirmedMatch ops obj.pid criterion || ops.matchProcess obj proc criterion) &&
      !m.isExcluded ops obj proc
  let logEnricherCriteria := m.logEnricherCriteria.filter (ops.matchProcess obj proc)
  let logEnricherCriteria :=
    if logEnricherCriteria.isEmpty && criteria.any (m.confirmedMatch ops obj.pid) then
      ((m.observed.lookup obj.pid).map (·.inheritedLogEnricherCriteria)).getD []
    else logEnricherCriteria
  if criteria.isEmpty then none
  else some ⟨criteria, logEnricherCriteria, proc, m.samplerConfig, 0⟩

/-- The method `processInfo`: what was observed, or else what is read. -/
def observedInfo : Except String ProcessInfo := match m.observed.lookup obj.pid with
  | some observed => .ok observed.process
  | none => processInfo ops.read obj

def filterDeleted : Matcher Selector × Option (Event (ProcessMatch Selector)) :=
  match m.processHistory.lookup obj.pid with
  | none => (m, none)
  | some procMatch =>
    let observed := match m.observed.lookup obj.pid with
      | none => m.observed
      | some observed => m.observed.insert obj.pid
          { observed with confirmedCriteria := [], inheritedLogEnricherCriteria := [] }
    ({ m with processHistory := m.processHistory.erase obj.pid, observed := observed },
      some ⟨.deleted, procMatch⟩)

def inheritLogEnricher (criteria : List Selector) : Matcher Selector :=
  match m.observed.lookup pid with
  | none => m
  | some observed =>
    { m with
      observed := m.observed.insert pid { observed with inheritedLogEnricherCriteria := criteria } }

/-- The process is matched through its parent. -/
def inherit (procMatch : ProcessMatch Selector) :
    Matcher Selector × Option (Event (ProcessMatch Selector)) :=
  let tracked := m.alreadyMatched obj.pid
  let m := (m.confirmCriteria ops obj.pid procMatch.criteria).inheritLogEnricher obj.pid
    procMatch.logEnricherCriteria
  if tracked then (m, none)
  else
    let procMatch := { procMatch with process := proc }
    ({ m with processHistory := m.processHistory.insert obj.pid procMatch },
      some ⟨.created, procMatch⟩)

def filterCreated (findingCriteria : List Selector) :
    Matcher Selector × Option (Event (ProcessMatch Selector)) :=
  let tracked := m.alreadyMatched obj.pid
  match m.observedInfo ops obj with
  | .error _ => (m, none)
  | .ok proc => match m.matchCriteria ops obj proc findingCriteria with
    | some processMatch =>
      let m := m.confirmCriteria ops obj.pid processMatch.criteria
      if tracked then (m, none)
      else
        ({ m with processHistory := m.processHistory.insert obj.pid processMatch },
          some ⟨.created, processMatch⟩)
    | none => match m.processHistory.lookup proc.ppid with
      | some procMatch =>
        if m.isExcluded ops obj proc then
          if tracked then m.filterDeleted obj else (m, none)
        else m.inherit ops obj proc procMatch
      | none => if tracked then m.filterDeleted obj else (m, none)

/-- The process is observed as it is now; what was confirmed of it stays. -/
def observe : Matcher Selector :=
  let observed : ObservedProcess Selector := match m.observed.lookup obj.pid with
    | none => ⟨obj, proc, [], []⟩
    | some observed => { observed with attrs := obj, process := proc }
  { m with observed := m.observed.insert obj.pid observed }

def filterEvent (ev : Event ProcessAttrs) :
    Matcher Selector × Option (Event (ProcessMatch Selector)) :=
  if ev.type = .deleted ∨ ev.type = .executableReplaced then
    { m with observed := m.observed.erase ev.obj.pid }.filterDeleted ev.obj
  else match processInfo ops.read ev.obj with
  | .error _ => (m, none)
  | .ok proc => (m.observe ev.obj proc).filterCreated ops ev.obj m.criteria

def filter (m : Matcher Selector) :
    List (Event ProcessAttrs) → Matcher Selector × List (Event (ProcessMatch Selector))
  | [] => (m, [])
  | ev :: rest =>
    let (m, found) := m.filterEvent ops ev
    let (m, matched) := m.filter rest
    (m, found.toList ++ matched)

/-! ## Matching again -/

def criteriaForRefresh (previous : Matcher Selector) : List Selector :=
  match previous.processHistory.lookup pid with
  | none => m.criteria
  | some applied =>
    if m.criteria.any (containsCriterion ops applied.criteria) then
      m.criteria.filter fun criterion =>
        containsCriterion ops applied.criteria criterion ||
          !containsCriterion ops previous.criteria criterion
    else m.criteria

/-- `rematch`, with the PIDs that are being visited. A call marks a PID before it goes
on to the parent, so as many calls are nested as there are observed processes. -/
def rematch (previous : Matcher Selector) :
    Nat → PID → Matcher Selector × List PID → Matcher Selector × List PID
  | 0, _, s => s
  | fuel + 1, pid, (m, visiting) =>
    if m.alreadyMatched pid || visiting.contains pid then (m, visiting)
    else match m.observed.lookup pid with
    | none => (m, visiting)
    | some observed =>
      let (m, visiting) := rematch previous fuel observed.process.ppid (m, pid :: visiting)
      ((m.filterCreated ops observed.attrs (m.criteriaForRefresh ops pid previous)).1, visiting)

end Matcher

structure CriteriaUpdate (Selector : Type) where
  (includes excludes : List Selector)
  samplerConfig : Option SamplerConfig

/-- The order in which a `range` goes through the keys of a map. -/
structure RangeOrder where
  order : List PID → List PID
  perm : ∀ keys, (order keys).Perm keys

instance : Inhabited RangeOrder := ⟨⟨List.reverse, List.reverse_perm⟩⟩

/-- What a refresh reads: whether its context ended, at the start, before the ports of a
process and before the end, and the ports. -/
structure RefreshReads where
  startErr : Option String
  portsErr : PID → Option String
  processPorts : PID → Except String (List Nat)
  endErr : Option String
  (overObserved overHistory overReplacement : RangeOrder)

inductive RefreshError
  | context (err : String)
  | ports (pid : PID) (err : String)
  /-- `service settings would change for PID` … -/
  | settings (pid : PID)
  /-- The process of a zero `observedProcess` is read: a panic. -/
  | nilProcess

namespace Matcher

variable (ops : MatcherOps Selector) (reads : RefreshReads)

/-- Whether the ports of a tracked process are read again. -/
def needsPorts (m : Matcher Selector) (pid : PID) (previous : Matcher Selector) : Bool :=
  let applied := ((previous.processHistory.lookup pid).map (·.criteria)).getD []
  let criteria := m.criteriaForRefresh ops pid previous
  let needsPorts :=
    criteria.any (fun criterion =>
      0 < ops.openPorts criterion && !previous.confirmedMatch ops pid criterion) ||
    m.excludeCriteria.any fun criterion => 0 < ops.openPorts criterion
  let settingsMayChange := criteria.any fun criterion => !ops.sameSettings applied criterion
  needsPorts && settingsMayChange

/-- One round of `refreshRetainedPorts`. -/
def refreshPorts (m previous : Matcher Selector) (pid : PID) :
    Matcher Selector × Except RefreshError Bool :=
  if !m.needsPorts ops pid previous then (m, .ok false)
  else match reads.portsErr pid with
  | some err => (m, .error (.context err))
  | none => match reads.processPorts pid with
    | .error err => (m, .error (.ports pid err))
    | .ok ports => match m.observed.lookup pid with
      | none => (m, .error .nilProcess)
      | some observed =>
        ({ m with
          observed := m.observed.insert pid { observed with
            attrs := { observed.attrs with openPorts := ports }
            process := { observed.process with openPorts := ports } } }, .ok true)

/-- `refreshRetainedPorts` over the PIDs it goes through. -/
def refreshRetainedPorts (previous : Matcher Selector) :
    List PID → Matcher Selector × List PID → Matcher Selector × Except RefreshError (List PID)
  | [], (m, fresh) => (m, .ok fresh)
  | pid :: rest, (m, fresh) => match m.refreshPorts ops reads previous pid with
    | (m, .error err) => (m, .error err)
    | (m, .ok read) =>
      refreshRetainedPorts previous rest (m, if read then fresh ++ [pid] else fresh)

variable (next previous : Matcher Selector)

/-- What becomes of a tracked process: the events so far, and the smallest PID whose
settings would change. -/
def compareMatch (s : List (Event (ProcessMatch Selector)) × Option PID) (pid : PID) :
    List (Event (ProcessMatch Selector)) × Option PID :=
  match previous.processHistory.lookup pid with
  | none => s
  | some old => match next.processHistory.lookup pid with
    | none => (s.1 ++ [⟨.deleted, old⟩], s.2)
    | some replacement =>
      let conflicting :=
        if !ops.sameFixedSettings old.criteria replacement.criteria ||
            old.logEnricherEnabled != replacement.logEnricherEnabled then
          match s.2 with
          | none => some pid
          | some q => if pid < q then some pid else some q
        else s.2
      if samplingConfig ops old = samplingConfig ops replacement then (s.1, conflicting)
      else (s.1 ++ [⟨.updated, replacement⟩], conflicting)

/-- The matches of processes that were not tracked. -/
def newMatches (pids : List PID) : List (Event (ProcessMatch Selector)) :=
  pids.filterMap fun pid =>
    if previous.alreadyMatched pid then none
    else (next.processHistory.lookup pid).map fun pm => ⟨.created, pm⟩

/-- What is kept of the confirmed criteria of an observed process. -/
def settleObserved (freshPorts : List PID) (pid : PID)
    (observed : ObservedProcess Selector) : ObservedProcess Selector :=
  if freshPorts.contains pid && next.alreadyMatched pid then observed
  else
    let confirmed :=
      if next.alreadyMatched pid then next.criteria.filter (previous.confirmedMatch ops pid)
      else []
    { observed with
      confirmedCriteria := confirmed
      inheritedLogEnricherCriteria :=
        if confirmed.isEmpty then [] else observed.inheritedLogEnricherCriteria }

end Matcher

/-! ## The struct and its maps -/

/-- The maps that were made, by number. -/
structure GoMaps (Selector : Type) where
  histories : Nat → Table PID (ProcessMatch Selector)
  historyCount : Nat
  observations : Nat → Table PID (ObservedProcess Selector)
  observedCount : Nat

/-- The struct `Matcher`: its maps are references. -/
structure MatcherVar (Selector : Type) where
  (criteria excludeCriteria logEnricherCriteria : List Selector)
  samplerConfig : Option SamplerConfig
  (processHistory observed : Nat)

namespace GoMaps

/-- The matcher a struct is. -/
def deref (h : GoMaps Selector) (v : MatcherVar Selector) : Matcher Selector where
  criteria := v.criteria
  excludeCriteria := v.excludeCriteria
  logEnricherCriteria := v.logEnricherCriteria
  samplerConfig := v.samplerConfig
  processHistory := h.histories v.processHistory
  observed := h.observations v.observed

/-- What a method did to the maps of a struct. -/
def assign (h : GoMaps Selector) (v : MatcherVar Selector) (m : Matcher Selector) :
    GoMaps Selector :=
  { h with
    histories := Function.update h.histories v.processHistory m.processHistory
    observations := Function.update h.observations v.observed m.observed }

/-- A new, empty history and a copy of the observations of a struct. -/
def trial (h : GoMaps Selector) (v : MatcherVar Selector) (update : CriteriaUpdate Selector) :
    GoMaps Selector × MatcherVar Selector :=
  ({ histories := Function.update h.histories h.historyCount ∅
     historyCount := h.historyCount + 1
     observations := Function.update h.observations h.observedCount (h.observations v.observed)
     observedCount := h.observedCount + 1 },
   { v with
     criteria := update.includes
     excludeCriteria := update.excludes
     samplerConfig := update.samplerConfig.or v.samplerConfig
     processHistory := h.historyCount
     observed := h.observedCount })

end GoMaps

variable (ops : MatcherOps Selector)

/-- One `rematch` of the trial copy. -/
def rematchTrial (v next : MatcherVar Selector) (s : GoMaps Selector × List PID) (pid : PID) :
    GoMaps Selector × List PID :=
  let m := s.1.deref next
  let (m, visiting) := Matcher.rematch ops (s.1.deref v) (m.observed.keys.length + 1) pid (m, s.2)
  (s.1.assign next m, visiting)

def refresh (h : GoMaps Selector) (v : MatcherVar Selector) (update : CriteriaUpdate Selector)
    (reads : RefreshReads) :
    (GoMaps Selector × MatcherVar Selector) ×
      Except RefreshError (List (Event (ProcessMatch Selector))) :=
  match reads.startErr with
  | some err => ((h, v), .error (.context err))
  | none =>
    let (h, next) := h.trial v update
    let tracked := (h.deref v).processHistory.keys.mergeSort fun a b => decide (a ≤ b)
    let (m, fresh) := Matcher.refreshRetainedPorts ops reads (h.deref v) tracked (h.deref next, [])
    let h := h.assign next m
    match fresh with
    | .error err => ((h, v), .error err)
    | .ok freshPorts =>
      let (h, _) := (reads.overObserved.order (h.deref v).observed.keys).foldl
        (rematchTrial ops v next) (h, [])
      let (events, conflicting) :=
        (reads.overHistory.order (h.deref v).processHistory.keys).foldl
          (Matcher.compareMatch ops (h.deref next) (h.deref v)) ([], none)
      match conflicting with
      | some pid => ((h, v), .error (.settings pid))
      | none =>
        let created := (h.deref next).newMatches (h.deref v)
          (reads.overReplacement.order (h.deref next).processHistory.keys)
        match reads.endErr with
        | some err => ((h, v), .error (.context err))
        | none =>
          let m := h.deref next
          let observed := Table.filterMap
            (fun pid o => some (m.settleObserved ops (h.deref v) freshPorts pid o))
            m.observed
          let h := h.assign next { m with observed := observed }
          ((h, { v with
            observed := next.observed
            criteria := next.criteria
            excludeCriteria := next.excludeCriteria
            samplerConfig := next.samplerConfig
            processHistory := next.processHistory }), .ok (events ++ created))

/-- What the loop of `Run` receives. -/
inductive MatcherInput (Selector : Type)
  | events (events : List (Event ProcessAttrs))
  | update (update : CriteriaUpdate Selector) (reads : RefreshReads)

structure MatcherRun (Selector : Type) where
  maps : GoMaps Selector
  matcher : MatcherVar Selector
  output : List (Event (ProcessMatch Selector))

/-- A matcher as `Run` starts it. -/
def MatcherRun.start (criteria exclude logEnricher : List Selector)
    (sampler : Option SamplerConfig) : MatcherRun Selector where
  maps := ⟨fun _ => ∅, 1, fun _ => ∅, 1⟩
  matcher := ⟨criteria, exclude, logEnricher, sampler, 0, 0⟩
  output := []

def MatcherRun.step (s : MatcherRun Selector) : MatcherInput Selector → MatcherRun Selector
  | .events events =>
    let (m, matched) := (s.maps.deref s.matcher).filter ops events
    { s with maps := s.maps.assign s.matcher m, output := s.output ++ matched }
  | .update update reads => match refresh ops s.maps s.matcher update reads with
    | ((h, v), .ok events) => ⟨h, v, s.output ++ events⟩
    | ((h, v), .error _) => ⟨h, v, s.output⟩

end Obi.Ref
