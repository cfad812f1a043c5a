import Obi.Ref.Common

/-!
# The PIDs whose spans are let through

`PIDsFilter` files every process it is told about under each of the PIDs it has
in its PID namespaces. A PID that is used again starts a new generation of its
entry; the older ones stay behind it, so that spans that come in late still
find the process that made them, until the retention is over.

What `readNamespacePIDs` reads and what the clock says are passed in. The cache
of forked children is a library's and may lose entries when one is added; which
ones is passed in too.
-/

namespace Obi.Ref
open Lib

/-- `pidRemovalRetention`, in nanoseconds. -/
def pidRemovalRetention : Int := 300000000000

/-- A `PIDInfo` but for the generation before it. -/
structure Generation (F : Type) where
  fileInfo : F
  pidTypes : UInt8
  otherKnownPids : List PID
  (removedAt since : Int)
deriving DecidableEq, Repr

/-- `PIDInfo`, with the chain of `previous` as a list, the newest first. -/
structure PIDInfo (F : Type) extends Generation F where
  previous : List (Generation F)
deriving DecidableEq, Repr

structure ForkedChildKey where
  ns : Nat
  pid : PID
deriving DecidableEq, Repr

structure ForkedChild (F : Type) where
  fileInfo : F
  pidTypes : UInt8
  (forkedAt execAt : Int)
deriving DecidableEq, Repr

structure PIDsFilter (F : Type) where
  current : Table Nat (Table PID (PIDInfo F))
  procs : Table PID UInt8
  forked : Table ForkedChildKey (ForkedChild F)

def newPIDsFilter (F : Type) : PIDsFilter F := ⟨∅, ∅, ∅⟩

/-- The PID namespace, the user PID and the end of a span. -/
structure PidSpan where
  ns : Nat
  pid : PID
  endTime : Int
deriving DecidableEq, Repr

variable {F : Type} (pf : PIDsFilter F)

/-- The entry `current[ns][pid]`. -/
def PIDsFilter.entry (ns : Nat) (pid : PID) : Option (PIDInfo F) :=
  (pf.current.lookup ns).bind fun pids => pids.lookup pid

def PIDInfo.generations (info : PIDInfo F) : List (Generation F) :=
  info.toGeneration :: info.previous

/-! ## Lookups -/

/-- `generationAt`, from a generation on. -/
def generationAt : List (Generation F) → Int → Option (Generation F)
  | [], _ => none
  | g :: older, t =>
    if g.removedAt ≠ 0 ∧ t > g.removedAt then none
    else if g.since = 0 ∨ t > g.since then some g
    else generationAt older t

def ForkedChild.owns (c : ForkedChild F) (span : PidSpan) : Bool :=
  if span.endTime ≤ c.forkedAt ∨ (c.execAt ≠ 0 ∧ span.endTime > c.execAt) then false
  else decide (span.endTime - c.forkedAt ≤ pidRemovalRetention)

def PIDsFilter.validPID (userPID : PID) (ns : Nat) (pidType : UInt8) : Bool :=
  ((pf.entry ns userPID).any fun info =>
      info.generations.any fun g => g.pidTypes &&& pidType != 0) ||
    (pf.forked.lookup ⟨ns, userPID⟩).any fun child => child.pidTypes &&& pidType != 0

def PIDsFilter.fileInfoFor (span : PidSpan) : Option F :=
  match (pf.entry span.ns span.pid).bind fun info =>
      generationAt info.generations span.endTime with
  | some gen => some gen.fileInfo
  | none => match pf.forked.lookup ⟨span.ns, span.pid⟩ with
    | none => none
    | some child => if child.owns span then some child.fileInfo else none

/-- The spans `Filter` lets through, each with the process it is filed under. -/
def PIDsFilter.filter (spans : List PidSpan) : List (PidSpan × F) :=
  spans.filterMap fun span => (pf.fileInfoFor span).map fun fi => (span, fi)

/-! ## Pruning -/

def expired (info : Generation F) (now : Int) : Bool :=
  decide (info.removedAt ≠ 0 ∧ now - info.removedAt > pidRemovalRetention)

/-- What `pruneExpired` makes of an entry: it goes, or its chain is cut at the
first expired generation. -/
def PIDInfo.prune (now : Int) (info : PIDInfo F) : Option (PIDInfo F) :=
  if expired info.toGeneration now then none
  else some { info with previous := info.previous.takeWhile fun g => !expired g now }

def PIDsFilter.pruneExpired (now : Int) : PIDsFilter F :=
  { pf with
    current := pf.current.filterMap fun _ pids =>
      let pids := pids.filterMap fun _ info => info.prune now
      if pids.entries.isEmpty then none else some pids }

/-! ## Adding and removing -/

/-- The entry of a PID after its process is registered: a PID that is used
again starts a new generation. -/
def registerPID (old : Option (PIDInfo F)) (fi : F) (t : UInt8) (allPids : List PID) : PIDInfo F :=
  match old with
  | none => ⟨⟨fi, t, allPids, 0, 0⟩, []⟩
  | some info =>
    if info.removedAt ≠ 0 then ⟨⟨fi, t, allPids, 0, info.removedAt⟩, info.generations⟩
    else { info with fileInfo := fi, pidTypes := info.pidTypes ||| t, otherKnownPids := allPids }

/-- `addPID`; `allPids` is what `readNamespacePIDs` read. -/
def PIDsFilter.addPID (pid : PID) (nsid : Nat) (fi : F) (t : UInt8)
    (allPids : Option (List PID)) : PIDsFilter F :=
  let ns := (pf.current.lookup nsid).getD ∅
  match allPids with
  | none => { pf with current := pf.current.insert nsid ns }
  | some allPids =>
    { current := pf.current.insert nsid <|
        allPids.foldl (fun ns p => ns.insert p (registerPID (ns.lookup p) fi t allPids)) ns
      procs := pf.procs.insert pid ((pf.procs.lookup pid).getD 0 ||| t)
      forked := allPids.foldl (fun forked p => forked.erase ⟨nsid, p⟩) pf.forked }

def markAsRemoved (now : Int) (ns : Table PID (PIDInfo F)) (p : PID) : Table PID (PIDInfo F) :=
  match ns.lookup p with
  | none => ns
  | some info => if info.removedAt = 0 then ns.insert p { info with removedAt := now } else ns

/-- `removePID`; the clock says `now` when the PIDs are marked and `later` when
the expired ones are dropped. -/
def PIDsFilter.removePID (pid : PID) (nsid : Nat) (now later : Int) : PIDsFilter F :=
  let pf := { pf with procs := pf.procs.erase pid }
  match pf.current.lookup nsid with
  | none => pf
  | some ns =>
    let others := ((ns.lookup pid).map fun info => info.otherKnownPids).getD []
    let ns := markAsRemoved now (others.foldl (markAsRemoved now) ns) pid
    { pf with current := pf.current.insert nsid ns }.pruneExpired later

/-! ## Forked children -/

variable (lost : ForkedChildKey → Bool)

def PIDsFilter.addForked (key : ForkedChildKey) (child : ForkedChild F) : PIDsFilter F :=
  { pf with
    forked := (pf.forked.filterMap fun k c => if lost k then none else some c).insert key child }

def PIDsFilter.allowForkedChild (child parent : ForkedChildKey) (t : Int) : PIDsFilter F :=
  match (pf.entry parent.ns parent.pid).bind fun info => generationAt info.generations t with
  | none => pf
  | some forker => pf.addForked lost child ⟨forker.fileInfo, forker.pidTypes, t, 0⟩

def PIDsFilter.endForkedChild (child : ForkedChildKey) (t : Int) : PIDsFilter F :=
  match pf.forked.lookup child with
  | none => pf
  | some forked =>
    if forked.execAt ≠ 0 then pf else pf.addForked lost child { forked with execAt := t }

/-! ## Calls -/

/-- A call that changes the filter, with what it reads. -/
inductive PidCall (F : Type)
  | allowPID (pid : PID) (ns : Nat) (fi : F) (t : UInt8) (allPids : Option (List PID))
  | blockPID (pid : PID) (ns : Nat) (now later : Int)
  | allowForkedChild (lost : ForkedChildKey → Bool) (child parent : ForkedChildKey) (t : Int)
  | endForkedChild (lost : ForkedChildKey → Bool) (child : ForkedChildKey) (t : Int)

def PIDsFilter.call : PidCall F → PIDsFilter F
  | .allowPID pid ns fi t allPids => pf.addPID pid ns fi t allPids
  | .blockPID pid ns now later => pf.removePID pid ns now later
  | .allowForkedChild lost child parent t => pf.allowForkedChild lost child parent t
  | .endForkedChild lost child t => pf.endForkedChild lost child t

end Obi.Ref
