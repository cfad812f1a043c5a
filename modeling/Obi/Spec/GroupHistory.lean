import Obi.Ref.KafkaConsumerGroups
import Obi.Ref.KafkaParser

/-!
# The history of consumer groups

What a process has shown of its groups: the requests that were recorded for it,
with what they found new, and the ones by which members left. A Fetch may be
attributed to a group only on the strength of this history.
-/

namespace Obi.Spec
open Lib Ref

inductive GroupEvent
  /-- A recorded `Join` at `time`; `since` is there if it created the state of the
  process, `newGroup` is set if it created the state of the group. -/
  | joined (proc : KafkaProcess) (conn : BpfConnectionInfoT) (req : GroupRequest) (time : Int)
      (since : Option Int) (newGroup : Bool)
  | left (proc : KafkaProcess) (conn : BpfConnectionInfoT) (group : String)
      (members : List String)
  | dropped (proc : KafkaProcess)

/-- The member a request comes from: the one it names, or the one that has not
got a name yet on its connection. -/
def memberKey (id : String) (conn : BpfConnectionInfoT) : MemberKey :=
  if id = "" then .unnamed (sortConnectionInfo conn) else .named id

/-- The process an event is about. -/
def GroupEvent.process : GroupEvent → KafkaProcess
  | .joined p _ _ _ _ _ | .left p _ _ _ | .dropped p => p

namespace GroupEvent

variable (proc : KafkaProcess) (group : String)

def CreatesState (since : Int) : GroupEvent → Prop
  | .joined p _ _ _ s _ => p = proc ∧ s = some since
  | _ => False

def EndsState : GroupEvent → Prop
  | .joined p _ _ _ s _ => p = proc ∧ s.isSome = true
  | .dropped p => p = proc
  | _ => False

def Asserts (key : MemberKey) (time : Int) : GroupEvent → Prop
  | .joined p conn req t _ _ =>
    p = proc ∧ req.groupID = group ∧ memberKey req.memberID conn = key ∧ t = time
  | _ => False

/-- The member is named by a `Leave` of the group; or, without a name, one comes
on its connection. -/
def Removes (key : MemberKey) : GroupEvent → Prop
  | .left p conn g members => p = proc ∧ g = group ∧ match key with
      | .named id => id ∈ members
      | .unnamed c => sortConnectionInfo conn = c
  | _ => False

def CreatesGroup : GroupEvent → Prop
  | .joined p _ req _ _ newGroup => p = proc ∧ req.groupID = group ∧ newGroup = true
  | _ => False

/-- A request that names a protocol other than that of consumers. -/
def NamesForeign : GroupEvent → Prop
  | .joined p _ req _ _ _ => p = proc ∧ req.groupID = group ∧
      req.protocolType ≠ "" ∧ req.protocolType ≠ consumerProtocolType
  | _ => False

end GroupEvent

/-- Since the group was created, no request named another protocol. -/
def ConsumerSince (events : List GroupEvent) (proc : KafkaProcess) (group : String) : Prop :=
  Since (fun e => e.CreatesGroup proc group ∧ ¬ e.NamesForeign proc group)
    (fun e => e.CreatesGroup proc group ∨ e.NamesForeign proc group) events

/-- The process has the group, and it is one of consumers. -/
def HasConsumer (p : KafkaProcessGroups) (group : String) : Prop :=
  ((p.groups.lookup group).any fun g => !g.foreign) = true

/-- One that is subscribed to the topic. -/
def HasSubscriber (p : KafkaProcessGroups) (topic group : String) : Prop :=
  ((p.groups.lookup group).any fun g => !g.foreign && g.subscribed topic) = true

instance (p : KafkaProcessGroups) (group : String) : Decidable (HasConsumer p group) :=
  inferInstanceAs (Decidable (_ = true))

instance (p : KafkaProcessGroups) (topic group : String) :
    Decidable (HasSubscriber p topic group) :=
  inferInstanceAs (Decidable (_ = true))

/-- The requests that are recorded come from the parser: `readGroupID` has read the id. -/
def Received : GroupCall → Prop
  | .join _ _ req _ _ => ∃ header r r', (readGroupID header).on r = some (.ok req.groupID, r')
  | _ => True

/-- What a call adds to the history. -/
def groupEvents (times : KafkaTimes) (lru : KafkaConsumerGroups) : GroupCall → List GroupEvent
  | .join proc conn req names now => match lru.memberships proc now.memberships with
    | none =>
      if (KafkaProcessGroups.join ⟨∅, now.since⟩ times.ttl conn req names now.expires).2 then
        [.joined proc conn req now.expires (some now.since) true]
      else []
    | some state =>
      if (state.join times.ttl conn req names now.expires).2 then
        [.joined proc conn req now.expires none (state.groups.lookup req.groupID).isNone]
      else []
  | .leave proc conn group members _ => [.left proc conn group members]
  | .enrich _ _ _ _ | .lookup _ _ _ _ _ _ => []
  | .drop proc => [.dropped proc]

end Obi.Spec
