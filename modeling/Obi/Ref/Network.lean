import Obi.Lib.Table
import Obi.Ref.LargeBufEmit

/-!
# Connections and interfaces

Both ends of a connection are seen by the tracers, each with its own address as the
source. The maps are keyed by a sorted tuple, and what is sent to user space is turned
back with the destination port the connection was seen with (`common/connection_info.h`).

Of the network interfaces there are two views. The registerer handles an event and forwards
it as it is to the interface manager. Each of the two goes through the events in their order,
so what the maps are in the end does not depend on how far the registerer is ahead.
-/

namespace Obi.Ref.Conn

@[simp] def ephemeralPortMin : Nat := 32768

def likelyEphemeralPort (port : Nat) : Bool := decide (port ≥ ephemeralPortMin)

def swapConnectionInfoOrder (info : ConnectionInfo) : ConnectionInfo where
  sAddr := info.dAddr
  dAddr := info.sAddr
  sPort := info.dPort
  dPort := info.sPort

/-- The test both sorts make: the ephemeral port first, and the larger one if that does
not tell the ports apart. -/
def reversed (sPort dPort : Nat) : Bool :=
  if likelyEphemeralPort sPort && !likelyEphemeralPort dPort then false
  else (likelyEphemeralPort dPort && !likelyEphemeralPort sPort) || decide (dPort > sPort)

def sortConnectionInfo (info : ConnectionInfo) : ConnectionInfo :=
  if reversed info.sPort info.dPort then swapConnectionInfoOrder info else info

/-- `egress_key_t`. -/
structure EgressKey where
  (dPort sPort : Nat)
deriving DecidableEq

def sortEgressKey (info : EgressKey) : EgressKey :=
  if reversed info.sPort info.dPort then ⟨info.sPort, info.dPort⟩ else info

def makeEgressKey (conn : ConnectionInfo) : EgressKey :=
  sortEgressKey { dPort := conn.dPort, sPort := conn.sPort }

def fixupConnectionInfo (connInfo : ConnectionInfo) (client : Bool) (origDport : Nat) :
    ConnectionInfo :=
  if origDport = 0 then connInfo
  else if (client ∧ connInfo.dPort ≠ origDport) ∨ (¬ client ∧ connInfo.dPort = origDport) then
    swapConnectionInfoOrder connInfo
  else connInfo

end Obi.Ref.Conn

namespace Obi.Ref.InterfaceManager
open Lib

inductive IfaceEvent
  | added (index : Nat) (name : String)
  | deleted (index : Nat) (name : String)

/-- A call of the removal callbacks, with the name registered under the index then. -/
structure RemovedCall where
  name : String
  registered : Option String

structure State where
  (ifaces interfaces : Table Nat String) (removedCalls : List RemovedCall)

variable (isAllowed : String → Bool)

/-- The two maps of the registerer and of the manager, and the callbacks that were called. -/
def State.step (s : State) : IfaceEvent → State
  | .added index name =>
    { s with
      ifaces := s.ifaces.insert index name
      interfaces := if isAllowed name then s.interfaces.insert index name else s.interfaces }
  | .deleted index name =>
    { ifaces := if s.ifaces.lookup index = some name then s.ifaces.erase index else s.ifaces
      interfaces := s.interfaces.erase index
      removedCalls := s.removedCalls ++ [⟨name, s.ifaces.lookup index⟩] }

end Obi.Ref.InterfaceManager
