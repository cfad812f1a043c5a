import Obi.Ref.Common

/-!
# The consumer groups of a process

`KafkaConsumerGroups` remembers which consumer groups a process is a member of,
so that a Fetch, which names no group, can be attributed to one. A member is
named by its id, or stands for its connection until a request on that
connection carries an id; each expires on its own.

The state of a process is a pointer: what a call changes in it stays changed,
also when the call gives up before `lru.Add`. The clock is read more than once
in a call, and each reading is passed in, as are what the LRU of topic names
answers and the order in which a `range` goes through the groups. The LRU of
processes is a map; what it loses is up to the caller of the model.
-/

namespace Obi.Ref
open Lib

/-! ## Connections -/

structure BpfConnectionInfoT where
  (sAddr dAddr : Vector UInt8 16)
  (sPort dPort : UInt16)
deriving DecidableEq

def ephemeralPortMin : UInt16 := 32768

def likelyEphemeralPort (port : UInt16) : Bool := decide (port ≥ ephemeralPortMin)

def swapConnectionInfoOrder (info : BpfConnectionInfoT) : BpfConnectionInfoT :=
  ⟨info.dAddr, info.sAddr, info.dPort, info.sPort⟩

def sortConnectionInfo (info : BpfConnectionInfoT) : BpfConnectionInfoT :=
  if likelyEphemeralPort info.sPort && !likelyEphemeralPort info.dPort then info
  else if (likelyEphemeralPort info.dPort && !likelyEphemeralPort info.sPort) ||
      decide (info.dPort > info.sPort) then
    swapConnectionInfoOrder info
  else info

/-! ## Requests -/

structure GroupTopic where
  name : String
  uuid : Option UUID

/-- What `Join` and `Enrich` read of a `kafkaparser.GroupRequest`. -/
structure GroupRequest where
  (groupID memberID : String)
  topics : List GroupTopic
  protocolType : String
  subscription : Bool

def consumerProtocolType : String := "consumer"

/-- What the LRU of topic names has, nothing when there is none. -/
abbrev TopicNames := UUID → Option String

def resolveTopicName (topic : GroupTopic) (names : TopicNames) : String := match topic.uuid with
  | none => topic.name
  | some uuid => (names uuid).getD ""

/-! ## Members -/

def maxGroupsPerProcess : Nat := 64
def maxMembersPerGroup : Nat := 64
def maxTopicsPerMember : Nat := 1024
def maxTopicsPerProcess : Nat := 4096

structure KafkaMember where
  topics : Finset String
  expires : Int

def newKafkaMember : KafkaMember := ⟨∅, 0⟩

/-- One round of `addTopics`. -/
def KafkaMember.addTopic (names : TopicNames) (st : KafkaMember × Int) (topic : GroupTopic) :
    KafkaMember × Int :=
  let name := resolveTopicName topic names
  if name = "" then st
  else if name ∈ st.1.topics then st
  else if st.2 ≤ 0 ∨ st.1.topics.card ≥ maxTopicsPerMember then st
  else ({ st.1 with topics := insert name st.1.topics }, st.2 - 1)

def KafkaMember.addTopics (m : KafkaMember) (topics : List GroupTopic) (names : TopicNames)
    (budget : Int) : KafkaMember :=
  (topics.foldl (KafkaMember.addTopic names) (m, budget)).1

/-! ## Groups -/

structure KafkaMembership where
  foreign : Bool
  members : Table String KafkaMember
  pending : Table BpfConnectionInfoT KafkaMember

/-- Where a group keeps a member. -/
inductive MemberKey
  | named (id : String)
  | unnamed (conn : BpfConnectionInfoT)
deriving DecidableEq

namespace KafkaMembership

variable (g : KafkaMembership)

def get : MemberKey → Option KafkaMember
  | .named id => g.members.lookup id
  | .unnamed conn => g.pending.lookup conn

def put (m : KafkaMember) : MemberKey → KafkaMembership
  | .named id => { g with members := g.members.insert id m }
  | .unnamed conn => { g with pending := g.pending.insert conn m }

/-- A change made through a pointer to a member. -/
def update (key : MemberKey) (f : KafkaMember → KafkaMember) : KafkaMembership :=
  match g.get key with
  | none => g
  | some m => g.put (f m) key

def size : Nat := g.members.entries.length + g.pending.entries.length

def pendingMember (conn : BpfConnectionInfoT) : Option (KafkaMembership × MemberKey) :=
  match g.pending.lookup conn with
  | some _ => some (g, .unnamed conn)
  | none =>
    if g.size ≥ maxMembersPerGroup then none
    else some (g.put newKafkaMember (.unnamed conn), .unnamed conn)

def member (id : String) (conn : BpfConnectionInfoT) : Option (KafkaMembership × MemberKey) :=
  if id = "" then g.pendingMember conn
  else match g.members.lookup id with
  | some _ => some (g, .named id)
  | none => match g.pending.lookup conn with
    | some m => some ({ g with pending := g.pending.erase conn }.put m (.named id), .named id)
    | none =>
      if g.size ≥ maxMembersPerGroup then none
      else some (g.put newKafkaMember (.named id), .named id)

/-- `expires.After(now)`, for an entry of a map. -/
def unexpired (now : Int) (m : KafkaMember) : Option KafkaMember :=
  if now < m.expires then some m else none

def dropExpired (now : Int) : KafkaMembership :=
  { g with
    members := g.members.filterMap fun _ m => unexpired now m
    pending := g.pending.filterMap fun _ m => unexpired now m }

/-- A change made to each member, named or pending. -/
def forEachMember (f : KafkaMember → KafkaMember) : KafkaMembership :=
  { g with
    members := g.members.filterMap fun _ m => some (f m)
    pending := g.pending.filterMap fun _ m => some (f m) }

def allMembers : List KafkaMember :=
  g.members.entries.map (fun e => e.2) ++ g.pending.entries.map fun e => e.2

def subscribed (topic : String) : Bool := g.allMembers.any fun m => decide (topic ∈ m.topics)

end KafkaMembership

/-! ## Processes -/

structure KafkaProcess where
  (ns pid : UInt32)
deriving DecidableEq

structure KafkaProcessGroups where
  groups : Table String KafkaMembership
  since : Int

namespace KafkaProcessGroups

variable (p : KafkaProcessGroups)

/-- The group, which is there afterwards unless the process has too many. -/
def membership (group : String) : Option KafkaMembership := match p.groups.lookup group with
  | some g => some g
  | none =>
    if p.groups.entries.length ≥ maxGroupsPerProcess then none
    else some ⟨false, ∅, ∅⟩

/-- A change made through a pointer to a group. -/
def put (group : String) (g : KafkaMembership) : KafkaProcessGroups :=
  { p with groups := p.groups.insert group g }

def dropExpired (p : KafkaProcessGroups) (now : Int) : KafkaProcessGroups :=
  { p with
    groups := p.groups.filterMap fun _ g =>
      if (g.dropExpired now).size = 0 then none else some (g.dropExpired now) }

def topicBudget : Int :=
  maxTopicsPerProcess -
    (p.groups.entries.flatMap fun e => e.2.allMembers.map fun m => (m.topics.card : Int)).sum

/-- The loop of `consumerGroup`, over the groups in the order given. -/
def consumerGroupLoop (p : KafkaProcessGroups) (single : String) : List String → String
  | [] => single
  | group :: rest => match p.groups.lookup group with
    | none => p.consumerGroupLoop single rest
    | some g =>
      if g.foreign then p.consumerGroupLoop single rest
      else if single ≠ "" then ""
      else p.consumerGroupLoop group rest

def consumerGroup (order : List String) : String := p.consumerGroupLoop "" order

/-- The loop of `topicGroup`, over the groups in the order given. -/
def topicGroupLoop (p : KafkaProcessGroups) (topic : String) (found : String × Bool) :
    List String → String × Bool
  | [] => found
  | candidate :: rest => match p.groups.lookup candidate with
    | none => p.topicGroupLoop topic found rest
    | some g =>
      if g.foreign || !g.subscribed topic then p.topicGroupLoop topic found rest
      else if found.2 then ("", true)
      else p.topicGroupLoop topic (candidate, true) rest

def topicGroup (topic : String) (order : List String) : String × Bool :=
  p.topicGroupLoop topic ("", false) order

end KafkaProcessGroups

/-! ## The store -/

/-- How long a member outlives its last request, and how long a process is
observed before a Fetch is attributed. -/
structure KafkaTimes where
  (ttl settle : Int)

/-- The LRU of processes. -/
abbrev KafkaConsumerGroups := Table KafkaProcess KafkaProcessGroups

/-- The request names a protocol, and not the one of consumers. -/
def GroupRequest.namesForeign (req : GroupRequest) : Bool :=
  decide (req.protocolType ≠ "") && decide (req.protocolType ≠ consumerProtocolType)

namespace KafkaProcessGroups

variable (p : KafkaProcessGroups)

/-- What `Join` does to the member and its group once both are found. -/
def joinMember (names : TopicNames) (req : GroupRequest)
    (g : KafkaMembership) (key : MemberKey) : KafkaMembership :=
  if g.foreign || req.namesForeign then
    { g with foreign := true }.forEachMember fun m => { m with topics := ∅ }
  else if req.subscription then
    let g := g.update key fun m => { m with topics := ∅ }
    let budget := (p.put req.groupID g).topicBudget
    g.update key fun m => m.addTopics req.topics names budget
  else
    let budget := (p.put req.groupID g).topicBudget
    g.update key fun m => m.addTopics req.topics names budget

/-- `Join` on the state of a process, and whether it gets to `lru.Add`. -/
def join (ttl : Int) (conn : BpfConnectionInfoT) (req : GroupRequest)
    (names : TopicNames) (now : Int) : KafkaProcessGroups × Bool :=
  match p.membership req.groupID with
  | none => (p, false)
  | some g =>
    let p := p.put req.groupID g
    match g.member req.memberID (sortConnectionInfo conn) with
    | none => (p, false)
    | some (g, key) =>
      let g := g.update key fun m => { m with expires := now + ttl }
      (p.put req.groupID (p.joinMember names req g key), true)

def leave (conn : BpfConnectionInfoT) (group : String)
    (members : List String) : KafkaProcessGroups :=
  match p.groups.lookup group with
  | none => p
  | some g =>
    let g := { g with
      members := members.foldl (fun t id => t.erase id) g.members
      pending := g.pending.erase (sortConnectionInfo conn) }
    if g.size > 0 then p.put group g else { p with groups := p.groups.erase group }

def enrich (req : GroupRequest) (names : TopicNames) : KafkaProcessGroups :=
  match p.groups.lookup req.groupID with
  | none => p
  | some g =>
    if g.foreign then p
    else match g.members.lookup req.memberID with
    | none => p
    | some _ =>
      p.put req.groupID
        (g.update (.named req.memberID) fun m => m.addTopics req.topics names p.topicBudget)

end KafkaProcessGroups

/-- The readings of the clock in `Join`: for what has expired, for the first
request of a process, and for when the member expires. -/
structure JoinClock where
  (memberships since expires : Int)

namespace KafkaConsumerGroups

def memberships (lru : KafkaConsumerGroups) (proc : KafkaProcess) (now : Int) :
    Option KafkaProcessGroups :=
  (lru.lookup proc).map fun state => state.dropExpired now

def join (lru : KafkaConsumerGroups) (times : KafkaTimes) (proc : KafkaProcess)
    (conn : BpfConnectionInfoT) (req : GroupRequest) (names : TopicNames) (now : JoinClock) :
    KafkaConsumerGroups :=
  match lru.memberships proc now.memberships with
  | none =>
    let res := KafkaProcessGroups.join ⟨∅, now.since⟩ times.ttl conn req names now.expires
    if res.2 then lru.insert proc res.1 else lru
  | some state => lru.insert proc (state.join times.ttl conn req names now.expires).1

def leave (lru : KafkaConsumerGroups) (proc : KafkaProcess) (conn : BpfConnectionInfoT)
    (group : String) (members : List String) (now : Int) : KafkaConsumerGroups :=
  match lru.memberships proc now with
  | none => lru
  | some state => lru.insert proc (state.leave conn group members)

def enrich (lru : KafkaConsumerGroups) (proc : KafkaProcess) (req : GroupRequest)
    (names : TopicNames) (now : Int) : KafkaConsumerGroups :=
  match lru.memberships proc now with
  | none => lru
  | some state => lru.insert proc (state.enrich req names)

/-- The group of a Fetch: `now` is when members are dropped, `later` when the
time a process was observed is checked. -/
def lookup (lru : KafkaConsumerGroups) (times : KafkaTimes) (proc : KafkaProcess)
    (topic : String) (now later : Int) (topicOrder groupOrder : List String) :
    String × KafkaConsumerGroups :=
  match lru.memberships proc now with
  | none => ("", lru)
  | some state =>
    let lru := lru.insert proc state
    if later < state.since + times.settle then ("", lru)
    else
      let found := state.topicGroup topic topicOrder
      (if found.2 then found.1 else state.consumerGroup groupOrder, lru)

end KafkaConsumerGroups

/-- A call, with what it reads; or the LRU drops a process. -/
inductive GroupCall
  | join (proc : KafkaProcess) (conn : BpfConnectionInfoT) (req : GroupRequest)
      (names : TopicNames) (now : JoinClock)
  | leave (proc : KafkaProcess) (conn : BpfConnectionInfoT) (group : String)
      (members : List String) (now : Int)
  | enrich (proc : KafkaProcess) (req : GroupRequest) (names : TopicNames) (now : Int)
  | lookup (proc : KafkaProcess) (topic : String) (now later : Int)
      (topicOrder groupOrder : List String)
  | drop (proc : KafkaProcess)

def KafkaConsumerGroups.call (times : KafkaTimes) (lru : KafkaConsumerGroups) :
    GroupCall → KafkaConsumerGroups
  | .join proc conn req names now => lru.join times proc conn req names now
  | .leave proc conn group members now => lru.leave proc conn group members now
  | .enrich proc req names now => lru.enrich proc req names now
  | .lookup proc topic now later topicOrder groupOrder =>
    (lru.lookup times proc topic now later topicOrder groupOrder).2
  | .drop proc => lru.erase proc

end Obi.Ref
