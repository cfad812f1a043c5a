import Mathlib.Data.UInt

/-!
# The message queues of the pipeline

The model of `pipe/msg/queue.go`. Queues, sinks and channels live in a heap and
refer to each other by number; every queue points to the sink that delivers its
messages, and `Bypass` moves the members and the subscribers of one sink to
another. A call that panics is an error and changes nothing: every check stands
before the first change.

A channel keeps what was put on it, in order. Its subscriber drains it, so a put
always finds room in the end; whether it does before the timer of the send fires
is left to the caller (`late`), since a late channel is served in a second round.
-/

namespace Obi.Ref.Msg

abbrev QueueId := Nat

abbrev SinkId := Nat

abbrev ChanId := Nat

structure QueueConfig where
  channelBufferLen : Int := 1
  closingAttempts : Int := 1
  name : String := "(unnamed)"

structure Dst where
  name : String
  ch : ChanId

structure Sink where
  cfg : QueueConfig
  dsts : List Dst
  members : List QueueId
  closed : Bool
  /-- Whether `sendTimeout` is a timer and not nil. -/
  timer : Bool

structure Queue where
  cfg : QueueConfig
  sink : SinkId
  routeNames : List String
  bypassed : Bool
  remainingClosers : Int

structure Chan (T : Type) where
  capacity : Int
  /-- What was put on the channel, the oldest first. -/
  sent : List T
  /-- How often it was closed. -/
  closes : Nat

variable {T : Type}

def Chan.put (o : T) (ch : Chan T) : Except String (Chan T) :=
  if 0 < ch.closes then .error "send on closed channel"
  else .ok { ch with sent := ch.sent ++ [o] }

def Chan.close (ch : Chan T) : Except String (Chan T) :=
  if 0 < ch.closes then .error "close of closed channel"
  else .ok { ch with closes := ch.closes + 1 }

/-- The queues, sinks and channels made so far; a number below its count is a
pointer to one of them. -/
structure Heap (T : Type) where
  queueCount : Nat
  queue : QueueId → Queue
  sinkCount : Nat
  sink : SinkId → Sink
  chanCount : Nat
  chan : ChanId → Chan T

def Heap.empty : Heap T where
  queueCount := 0
  queue _ := ⟨{}, 0, [], false, 0⟩
  sinkCount := 0
  sink _ := ⟨{}, [], [], false, false⟩
  chanCount := 0
  chan _ := ⟨0, [], 0⟩

variable (h : Heap T) (q : QueueId)

def Heap.setQueue (v : Queue) : Heap T := { h with queue := Function.update h.queue q v }

variable (s : SinkId)

def Heap.setSink (v : Sink) : Heap T := { h with sink := Function.update h.sink s v }

/-- The sink a queue points to. -/
def Heap.sinkOf : Sink := h.sink (h.queue q).sink

/-- The channels of a sink's subscribers. -/
def Heap.channels : List ChanId := (h.sink s).dsts.map Dst.ch

def Heap.eachChan (f : Chan T → Except String (Chan T)) :
    Heap T → List ChanId → Except String (Heap T)
  | h, [] => .ok h
  | h, c :: rest => do
      let ch ← f (h.chan c)
      Heap.eachChan f { h with chan := Function.update h.chan c ch } rest

def newQueue (cfg : QueueConfig) : Heap T :=
  let q := h.queueCount
  let s := h.sinkCount
  { h with
    queueCount := q + 1
    queue := Function.update h.queue q ⟨cfg, s, [cfg.name], false, cfg.closingAttempts⟩
    sinkCount := s + 1
    sink := Function.update h.sink s ⟨cfg, [], [q], false, true⟩ }

def assertNotClosed : Except String Unit :=
  if (h.sinkOf q).closed then .error ((h.queue q).cfg.name ++ ": queue is closed") else .ok ()

def sinkSend (o : T) (late : ChanId → Bool) : Except String (Heap T) :=
  if (h.channels s).isEmpty then .ok h
  else if (h.sink s).timer = false then
    .error "invalid memory address or nil pointer dereference"
  else do
    let h' ← Heap.eachChan (Chan.put o) h ((h.channels s).filter fun c => !late c)
    Heap.eachChan (Chan.put o) h' ((h.channels s).filter late)

def send (o : T) (late : ChanId → Bool) : Except String (Heap T) := do
  assertNotClosed h q
  sinkSend h (h.queue q).sink o late

/-- A new channel at the end of a sink's subscribers. -/
def addDst (name : String) : Heap T :=
  let old := h.sink s
  { h with
    sink := Function.update h.sink s { old with dsts := old.dsts ++ [⟨name, h.chanCount⟩] }
    chanCount := h.chanCount + 1
    chan := Function.update h.chan h.chanCount ⟨old.cfg.channelBufferLen, [], 0⟩ }

def subscribe (subscriber : String) : Except String (Heap T) := do
  let subscriber := if subscriber = "(unnamed)" then (h.queue q).cfg.name else subscriber
  assertNotClosed h q
  if (h.sinkOf q).cfg.channelBufferLen < 0 then .error "makechan: size out of range"
  else .ok (addDst h (h.queue q).sink subscriber)

/-- Re-points a member of the source group. -/
def repoint (dst : SinkId) (dest : QueueId) (h : Heap T) (m : QueueId) : Heap T :=
  h.setQueue m { h.queue m with
    sink := dst
    routeNames := (h.queue m).routeNames ++ (h.queue dest).routeNames }

def mergeSinks (src dst : SinkId) (dest : QueueId) : Heap T :=
  let srcSink := h.sink src
  let dstSink := h.sink dst
  let h := srcSink.members.foldl (repoint dst dest) h
  let h := h.setSink dst { dstSink with
    dsts := dstSink.dsts ++ srcSink.dsts
    members := dstSink.members ++ srcSink.members }
  h.setSink src { srcSink with dsts := [], members := [], timer := false }

def bypass (h : Heap T) (q dest : QueueId) : Except String (Heap T) :=
  if q = dest then .error ((h.queue q).cfg.name ++ ": this queue can't bypass to itself")
  else do
    assertNotClosed h q
    if (h.queue q).bypassed then
      .error ("queue " ++ (h.queue q).cfg.name ++ " is already bypassing data")
    else
      let h := h.setQueue q { h.queue q with bypassed := true }
      let src := (h.queue q).sink
      let dst := (h.queue dest).sink
      .ok (if src = dst then h else mergeSinks h src dst dest)

def sinkClose : Except String (Heap T) :=
  if (h.sink s).closed then .ok h
  else do
    let h' ← Heap.eachChan Chan.close h (h.channels s)
    .ok (h'.setSink s { h.sink s with closed := true, dsts := [] })

def close : Except String (Heap T) := sinkClose h (h.queue q).sink

def markCloseable : Except String (Heap T) :=
  let remaining := (h.queue q).remainingClosers - 1
  let h := h.setQueue q { h.queue q with remainingClosers := remaining }
  if remaining ≤ 0 then sinkClose h (h.queue q).sink else .ok h

inductive Call (T : Type)
  | newQueue (cfg : QueueConfig)
  | subscribe (q : QueueId) (subscriber : String)
  | bypass (q dest : QueueId)
  | send (q : QueueId) (o : T) (late : ChanId → Bool)
  | close (q : QueueId)
  | markCloseable (q : QueueId)

def call : Call T → Except String (Heap T)
  | .newQueue cfg => .ok (newQueue h cfg)
  | .subscribe q subscriber => subscribe h q subscriber
  | .bypass q dest => bypass h q dest
  | .send q o late => send h q o late
  | .close q => close h q
  | .markCloseable q => markCloseable h q

end Obi.Ref.Msg
