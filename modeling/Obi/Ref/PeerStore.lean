import Obi.Ref.Common

/-!
# Callers seen on this host

An agent notes which of its services called which endpoint, so that a server on the
other side can be told who called it. An observation holds for a while; at the limit
of entries a new one is dropped and callers are ambiguous for as long as it would
have held. Times are nanoseconds, the zero time is `0`.
-/

namespace Obi.Ref
open Lib

namespace Peer

abbrev Time := Int

structure Service where
  (name ns : String)
  serviceGraph : Bool
deriving DecidableEq, Repr

def Service.zero : Service := ⟨"", "", false⟩

structure Endpoint where
  ip : String
  port : Int
deriving DecidableEq, Repr

def Service.merge (s other : Service) : Service × Bool :=
  if s.name = "" then (other, true)
  else if s.name ≠ other.name ∨ s.ns ≠ other.ns then (.zero, false)
  else ({ s with serviceGraph := s.serviceGraph && other.serviceGraph }, true)

/-- The loop that merges the live ones of some candidates, `none` as soon as two of
them do not match. -/
def mergeLive {α : Type} (live : α → Bool) (service : α → Service) (selected : Service) :
    List α → Option Service
  | [] => some selected
  | candidate :: rest =>
    if !live candidate then mergeLive live service selected rest
    else match selected.merge (service candidate) with
    | (selected, true) => mergeLive live service selected rest
    | (_, false) => none

structure LocalStore where
  hostname : String
  (callerTTL maxCallers callerCount : Int)
  ambiguousUntil : Time
  callers : Map2 Endpoint Service Time

def newStore (hostname : String) (callerTTL maxCallers : Int) : LocalStore :=
  ⟨hostname, callerTTL, maxCallers, 0, 0, ∅⟩

namespace LocalStore

variable (s : LocalStore)

def observe (destination : Endpoint) (service : Service) (now : Time) : LocalStore :=
  if service.name = "" ∨ destination.port ≤ 0 ∨ destination.port > 65535 then s
  else if (Map2.get s.callers destination service).isSome then
    { s with callers := Map2.put s.callers destination service (now + s.callerTTL) }
  else if s.callerCount ≥ s.maxCallers then { s with ambiguousUntil := now + s.callerTTL }
  else
    { s with
      callers := Map2.put s.callers destination service (now + s.callerTTL)
      callerCount := s.callerCount + 1 }

/-- One round of the loop over the services that called a destination. -/
def expireService (now : Time) (st : Table Service Time × Int) (service : Service) :
    Table Service Time × Int :=
  match st.1.lookup service with
  | none => st
  | some expires => if expires > now then st else (st.1.erase service, st.2 - 1)

/-- One round of the loop over the destinations. -/
def expireDestination (now : Time) (st : Map2 Endpoint Service Time × Int)
    (destination : Endpoint) : Map2 Endpoint Service Time × Int :=
  match st.1.lookup destination with
  | none => st
  | some services =>
    let (services, callerCount) := services.keys.foldl (expireService now) (services, st.2)
    if services.entries.isEmpty then (st.1.erase destination, callerCount)
    else (st.1.insert destination services, callerCount)

def expire (now : Time) : LocalStore :=
  let (callers, callerCount) :=
    s.callers.keys.foldl (expireDestination now) (s.callers, s.callerCount)
  { s with callers := callers, callerCount := callerCount }

/-- The service `callerService` finds in the observations. -/
def observedCaller (endpoint : Endpoint) (now : Time) : Option Service :=
  if s.ambiguousUntil > now then none
  else match mergeLive (fun e => e.2 > now) (fun e : Σ _ : Service, Time => e.1) .zero
      ((s.callers.lookup endpoint).getD ∅).entries with
  | none => none
  | some selected => if selected.name = "" then none else some selected

def callerService (endpoint : Endpoint) (now : Time) : Service :=
  (s.observedCaller endpoint now).getD ⟨s.hostname, "", false⟩

end LocalStore

/-! ## Calls -/

inductive StoreEvent
  | observe (destination : Endpoint) (service : Service) (now : Time)
  | expire (now : Time)

def StoreEvent.time : StoreEvent → Time
  | .observe _ _ now | .expire now => now

def LocalStore.step (s : LocalStore) : StoreEvent → LocalStore
  | .observe destination service now => s.observe destination service now
  | .expire now => s.expire now

end Peer
end Obi.Ref
