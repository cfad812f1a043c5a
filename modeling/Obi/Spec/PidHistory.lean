import Obi.Ref.PidsFilter

/-!
# Who held a PID

The registration history lists the processes in the order in which they were
registered, each with the time at which it was blocked. It forgets nothing. A
span belongs to the first process that was registered under its PID and had
not been blocked when the span ended.
-/

namespace Obi.Spec
open Ref

/-- A process and what became of it. -/
structure Registration (F : Type) where
  pid : PID
  ns : Nat
  pids : List PID
  fileInfo : F
  removed : Option Int
deriving DecidableEq, Repr

/-- The processes registered so far, the oldest first. -/
abbrev History (F : Type) := List (Registration F)

variable {F : Type}

/-- The process is live and was registered under this PID. -/
def Registration.Is (pid : PID) (ns : Nat) (r : Registration F) : Prop :=
  r.ns = ns ∧ r.pid = pid ∧ r.removed = none

instance (pid : PID) (ns : Nat) : DecidablePred (Registration.Is (F := F) pid ns) :=
  fun r => inferInstanceAs (Decidable (r.ns = ns ∧ r.pid = pid ∧ r.removed = none))

variable (h : History F)

/-- A process that is registered again while it lives keeps its place. -/
def History.allow (pid : PID) (ns : Nat) (pids : List PID) (fi : F) : History F :=
  if ∃ r ∈ h, r.Is pid ns then
    h.map fun r => if r.Is pid ns then { r with fileInfo := fi } else r
  else h ++ [⟨pid, ns, pids, fi, none⟩]

def History.block (pid : PID) (ns : Nat) (now : Int) : History F :=
  h.map fun r => if r.Is pid ns then { r with removed := some now } else r

/-- The processes that had a PID, the oldest first. -/
def History.holders (ns : Nat) (pid : PID) : List (Registration F) :=
  h.filter fun r => decide (r.ns = ns ∧ pid ∈ r.pids)

/-- The process was not blocked before `t`. -/
def Registration.outlasts (t : Int) (r : Registration F) : Bool :=
  r.removed.all fun x => decide (t ≤ x)

def History.ownerAt (ns : Nat) (pid : PID) (t : Int) : Option F :=
  ((h.holders ns pid).find? fun r => r.outlasts t).map Registration.fileInfo

end Obi.Spec
