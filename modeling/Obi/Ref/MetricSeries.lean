import Obi.Lib.Decimal
import Obi.Lib.Table

/-!
# The series of the exported metrics

Two things keep their number down. The expiry map has one instance of a metric for each set
of label values, found by a key that is the values one after the other, each behind its
length; one that is not used for some time is deleted.

The span-name limiter gives all further spans of a service that has too many span names the
same name. The slice `aggregate` is handed is shared with the trace exporters, so it is copied
before the first span of it is changed. Nothing is evicted, so `lastCount` points to the
counter that the cache has for `lastKey`.
-/

namespace Obi.Ref.ExpiryMap
open Lib

/-- The size computed first is only a capacity. -/
def labelsKey (labels : List (List UInt8)) : List UInt8 :=
  labels.foldl (fun key label => key ++ (decimal label.length ++ 58 :: label)) []

structure Entry (T : Type) where
  labelValues : List (List UInt8)
  lastAccess : Nat
  val : T

variable {T : Type} (entries : Table (List UInt8) (Entry T))

def getOrCreate (now : Nat) (lbls : List (List UInt8)) (instancer : T) :
    T × Table (List UInt8) (Entry T) :=
  let h := labelsKey lbls
  match entries.lookup h with
  | some e => (e.val, entries.insert h { e with lastAccess := now })
  | none => (instancer, entries.insert h ⟨lbls, now, instancer⟩)

def delete (lbls : List (List UInt8)) : Option T × Table (List UInt8) (Entry T) :=
  let key := labelsKey lbls
  match entries.lookup key with
  | none => (none, entries)
  | some e => (some e.val, entries.erase key)

end Obi.Ref.ExpiryMap

namespace Obi.Ref.SpanNameLimiter
open Lib

/-- `name` is what `TraceName` makes of the other fields when no name overrides it. -/
structure Span (K D : Type) where
  service : K
  ignoreMetrics : Bool
  (overrideTraceName name : String)
  data : D

variable {K D : Type} [DecidableEq K]

def Span.traceName (s : Span K D) : String :=
  if s.overrideTraceName ≠ "" then s.overrideTraceName else s.name

def aggregatedMark : String := "AGGREGATED"

/-- The map is empty when it is nil. -/
structure RoutesCount where
  routes : Finset String
  limitReached : Bool

/-- The variables of `aggregate`: `output` is the slice `spans` itself until it is copied. -/
structure Loop (K D : Type) where
  counts : Table K RoutesCount
  lastKey : Option K
  spans : List (Span K D)
  copied : Option (List (Span K D))

namespace Loop

variable (l : Loop K D)

def output : List (Span K D) := l.copied.getD l.spans

def startCopying : Loop K D :=
  if l.copied.isSome then l else { l with copied := some l.spans }

/-- A span of `output` is changed, in the slice that this is. -/
def write (i : Nat) (span : Span K D) : Loop K D := match l.copied with
  | none => { l with spans := l.spans.set i span }
  | some copied => { l with copied := some (copied.set i span) }

/-- The counter of a service, put into the cache if it was not there. -/
def getCount (key : K) : Loop K D :=
  if l.lastKey = some key then l
  else
    { l with
      lastKey := some key
      counts := if l.counts.lookup key = none then l.counts.insert key ⟨∅, false⟩ else l.counts }

def count (key : K) : RoutesCount := (l.counts.lookup key).getD ⟨∅, false⟩

/-- The body of the loop. -/
def pass (limit : Nat) (l : Loop K D) (i : Nat) : Loop K D := match l.output[i]? with
  | none => l
  | some span =>
    if span.ignoreMetrics then l
    else
      let l := l.getCount span.service
      let lastCount := l.count span.service
      if lastCount.limitReached then
        l.startCopying.write i { span with overrideTraceName := aggregatedMark }
      else
        let routes := insert span.traceName lastCount.routes
        let lastCount : RoutesCount := if limit ≤ routes.card then ⟨∅, true⟩ else ⟨routes, false⟩
        { l with counts := l.counts.insert span.service lastCount }

end Loop

/-- What `aggregate` leaves: its variables, with the slice it was handed and the one it returns. -/
def aggregate (limit : Nat) (counts : Table K RoutesCount) (spans : List (Span K D)) : Loop K D :=
  (List.range spans.length).foldl (Loop.pass limit) ⟨counts, none, spans, none⟩

/-- The batches one after the other. -/
def aggregateAll (limit : Nat) : Table K RoutesCount → List (List (Span K D)) → List (Loop K D)
  | _, [] => []
  | counts, spans :: rest =>
    aggregate limit counts spans :: aggregateAll limit (aggregate limit counts spans).counts rest

end Obi.Ref.SpanNameLimiter
