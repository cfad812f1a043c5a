import Obi.Ref.PeerStore

/-!
# Callers known to other hosts

Agents hand each other what they know of their own host, with how long each caller
still holds. An agent keeps what it was handed in a cache and acknowledges the callers
it can name from there, so that the other side may leave a count to it. The exchange is
direct, or goes through a central store that keeps what each host published and what
it was last handed about each address.

Addresses are texts in the normal form of `netip`. The cache keeps its peers with the
most recently used one first.
-/

namespace Obi.Ref
open Lib

namespace Peer

abbrev Addr := String

/-- `Duration.Milliseconds`. -/
def milliseconds (d : Int) : Int := d.tdiv 1000000

structure Listener where
  endpoint : Endpoint
  service : Service

structure CallerService where
  service : Service
  remainingMillis : Int
deriving DecidableEq, Repr

structure Caller where
  destination : Endpoint
  services : List CallerService
deriving DecidableEq, Repr

/-- `Snapshot`. -/
structure PeerSnapshot where
  hostname : String
  services : List Service
  listeners : List Listener
  (callers knownCallers : List Caller)
  metricProtocols : Option Nat
  callerAmbiguityMillis : Int

/-! ## Decoding -/

def validName (name : String) : Bool := name ≠ "" && name.utf8ByteSize ≤ 1024

def validService (service : Service) : Bool :=
  validName service.name && service.ns.utf8ByteSize ≤ 1024

def validEndpoint (endpoint : Endpoint) : Bool := 1 ≤ endpoint.port && endpoint.port ≤ 65535

def validCaller (caller : Caller) : Bool :=
  validEndpoint caller.destination &&
    caller.services.all fun s => validService s.service && 0 ≤ s.remainingMillis

/-- The lifetimes of a caller, cut to the TTL. -/
def clampCaller (ttl : Int) (caller : Caller) : Caller :=
  { caller with
    services := caller.services.map fun s =>
      { s with remainingMillis := min s.remainingMillis (milliseconds ttl) } }

variable (callers : List Caller)

def validateCallers (ttl : Int) : Option (List Caller) :=
  if callers.all validCaller then some (callers.map (clampCaller ttl)) else none

variable (snapshot : PeerSnapshot)

/-- `decodeSnapshot`, of which `none` is an error. -/
def decodeSnapshot (callerTTL : Int) : Option PeerSnapshot :=
  if !validName snapshot.hostname then none
  else if !snapshot.services.all validService then none
  else if !snapshot.listeners.all fun l => validService l.service && validEndpoint l.endpoint then
    none
  else if snapshot.callerAmbiguityMillis < 0 then none
  else match validateCallers snapshot.callers callerTTL,
      validateCallers snapshot.knownCallers callerTTL with
  | some callers, some knownCallers =>
    some { snapshot with
      callers := callers
      knownCallers := knownCallers
      callerAmbiguityMillis := min snapshot.callerAmbiguityMillis (milliseconds callerTTL) }
  | _, _ => none

/-! ## What is kept of a peer -/

structure CachedSnapshot where
  hostname : String
  listeners : Table Endpoint (List Service)
  (callers knownCallers : Table Endpoint (List CallerService))
  ambiguityMillis : Int
  metricProtocols : Option Nat

/-- Appends to the list of a key. -/
def appendAt {V : Type} (t : Table Endpoint (List V)) (endpoint : Endpoint) (vs : List V) :
    Table Endpoint (List V) :=
  t.insert endpoint ((t.lookup endpoint).getD [] ++ vs)

def indexByDestination : Table Endpoint (List CallerService) :=
  callers.foldl (fun t caller => appendAt t caller.destination caller.services) ∅

def indexSnapshot : CachedSnapshot where
  hostname := snapshot.hostname
  listeners := snapshot.listeners.foldl (fun t l => appendAt t l.endpoint [l.service]) ∅
  callers := indexByDestination snapshot.callers
  knownCallers := indexByDestination snapshot.knownCallers
  ambiguityMillis := snapshot.callerAmbiguityMillis
  metricProtocols := snapshot.metricProtocols

def uniqueCaller (candidates : List CallerService) (age : Int) : Service :=
  (mergeLive (fun c => !decide (c.remainingMillis ≤ milliseconds age)) CallerService.service .zero
    candidates).getD .zero

namespace CachedSnapshot

def callerService (s : CachedSnapshot) (endpoint : Endpoint) (age : Int) : Service :=
  let fallback : Service := ⟨s.hostname, "", false⟩
  if s.ambiguityMillis > milliseconds age then fallback
  else
    let selected := uniqueCaller ((s.callers.lookup endpoint).getD []) age
    if selected.name = "" then fallback else selected

end CachedSnapshot

/-! ## The cache -/

structure CachedPeer where
  (lastUsed lastGood fetchedAt : Time)
  size : Int
  snapshot : Option CachedSnapshot

structure PeerCache where
  cacheTTL : Int
  maxPeers : Nat
  maxCacheBytes : Int
  peers : Table Addr CachedPeer
  bytes : Int

namespace PeerCache

variable (c : PeerCache)

def removeOldest : PeerCache := match c.peers.entries.getLast? with
  | none => c
  | some oldest =>
    { c with peers := c.peers.erase oldest.1, bytes := c.bytes - oldest.2.size }

/-- A peer in front of all others; a new one may push out the oldest. -/
def use (address : Addr) (peer : CachedPeer) : PeerCache :=
  let c := { c with peers := c.peers.insert address peer }
  if c.peers.entries.length > c.maxPeers then c.removeOldest else c

/-- The peer's snapshot is there and within its TTL. -/
def fresh (peer : CachedPeer) (now : Time) : Option CachedSnapshot :=
  if now - peer.lastGood ≥ c.cacheTTL then none else peer.snapshot

def lookup (c : PeerCache) (address : Addr) (now : Time) :
    PeerCache × Option (CachedSnapshot × Time) :=
  let peer := (c.peers.lookup address).getD ⟨0, 0, 0, 0, none⟩
  let c := c.use address { peer with lastUsed := now }
  (c, (c.fresh peer now).map fun snapshot => (snapshot, peer.fetchedAt))

/-- A caller with what is left of its services, `none` if nothing is. -/
def agedCaller (destination : Endpoint) (remaining : CallerService → Int)
    (candidates : List CallerService) : Option Caller :=
  let services := candidates.filterMap fun candidate =>
    if remaining candidate > 0 then some ⟨candidate.service, remaining candidate⟩ else none
  if services.isEmpty then none else some ⟨destination, services⟩

def knownCallers (address : Addr) (now : Time) : List Caller := match c.peers.lookup address with
  | none => []
  | some peer => match c.fresh peer now with
    | none => []
    | some snapshot =>
      let age := milliseconds (now - peer.fetchedAt)
      if snapshot.ambiguityMillis > age then []
      else
        let cacheRemaining := milliseconds (c.cacheTTL - (now - peer.lastGood))
        snapshot.callers.entries.filterMap fun e =>
          agedCaller e.1 (fun c => min (c.remainingMillis - age) cacheRemaining) e.2

def shrink (c : PeerCache) : Nat → PeerCache
  | 0 => c
  | fuel + 1 => if c.bytes > c.maxCacheBytes then c.removeOldest.shrink fuel else c

/-- `complete` for a peer that is still in the cache, without the time of the next fetch. -/
def complete (address : Addr) (snapshot : Option CachedSnapshot) (size : Int)
    (started now : Time) : PeerCache :=
  match c.peers.lookup address, snapshot with
  | some peer, some snapshot =>
    let c := { c with
      peers := Table.filterMap (fun a p =>
        some (if a = address then
          { peer with snapshot := some snapshot, size := size, lastGood := now,
                      fetchedAt := started }
        else p)) c.peers
      bytes := c.bytes - peer.size + size }
    c.shrink c.peers.entries.length
  | _, _ => c

end PeerCache

/-! ## The central store -/

structure KnownCallers where
  callers : List Caller
  ambiguityMillis : Int
  (recorded expires : Time)

def newKnownCallers (now : Time) : KnownCallers where
  callers := snapshot.callers
  ambiguityMillis := snapshot.callerAmbiguityMillis
  recorded := now
  expires :=
    now + 1000000 * ((snapshot.callers.flatMap Caller.services).foldl
      (fun remaining s => max remaining s.remainingMillis) 0)

def appendAgedCallers (dst callers : List Caller) (age : Int) : List Caller :=
  dst ++ callers.filterMap fun caller =>
    PeerCache.agedCaller caller.destination (fun s => s.remainingMillis - age) caller.services

def KnownCallers.appendTo (k : KnownCallers) (dst : List Caller) (now : Time) : List Caller :=
  let age := milliseconds (now - k.recorded)
  if k.ambiguityMillis > age then dst else appendAgedCallers dst k.callers age

structure CentralHost where
  addresses : List Addr
  snapshot : PeerSnapshot
  callers : Table Addr (List Caller)
  published : Time
  known : Table Addr KnownCallers

structure CentralStore where
  ttl : Int
  maxHosts : Nat
  hosts : Table String CentralHost
  addresses : Table Addr String

def indexCallers : Table Addr (List Caller) :=
  callers.foldl (fun t caller =>
    t.insert caller.destination.ip ((t.lookup caller.destination.ip).getD [] ++ [caller])) ∅

namespace CentralStore

variable (s : CentralStore)

def releaseAddresses (hostID : String) (addresses : List Addr) : CentralStore :=
  { s with
    addresses := addresses.foldl
      (fun t address => if t.lookup address = some hostID then t.erase address else t)
      s.addresses }

/-- `publish`, of which `none` is the error for too many hosts. -/
def publish (hostID : String) (addresses : List Addr) (snapshot : PeerSnapshot)
    (now : Time) : Option CentralStore :=
  let callers := indexCallers snapshot.callers
  let snapshot := { snapshot with callers := [] }
  let previous := s.hosts.lookup hostID
  if previous.isNone && s.hosts.entries.length ≥ s.maxHosts then none
  else
    let s := match previous with
      | some host => s.releaseAddresses hostID host.addresses
      | none => s
    let known := match previous with
      | some host => host.known
      | none => ∅
    some { s with
      addresses := addresses.foldl (fun t address => t.insert address hostID) s.addresses
      hosts := s.hosts.insert hostID ⟨addresses, snapshot, callers, now, known⟩ }

/-- The ID of the host at an address. -/
def hostAt (address : Addr) : String := (s.addresses.lookup address).getD ""

/-- One round of `recordKnownCallers`. -/
def recordFor (address : Addr) (snapshot : PeerSnapshot) (now : Time) (s : CentralStore)
    (requesterAddress : Addr) : CentralStore :=
  match s.hosts.lookup (s.hostAt requesterAddress) with
  | none => s
  | some host =>
    let known :=
      if snapshot.callers.isEmpty then host.known.erase address
      else host.known.insert address (newKnownCallers snapshot now)
    { s with hosts := s.hosts.insert (s.hostAt requesterAddress) { host with known := known } }

def recordKnownCallers (address : Addr) (requester : List Addr)
    (snapshot : PeerSnapshot) (now : Time) : CentralStore :=
  requester.foldl (recordFor address snapshot now) s

def lookup (s : CentralStore) (address : Addr) (requester : List Addr) (now : Time) :
    CentralStore × Option PeerSnapshot :=
  match s.hosts.lookup (s.hostAt address) with
  | none => (s, none)
  | some host =>
    if now - host.published ≥ s.ttl then (s, none)
    else
      let age := milliseconds (now - host.published)
      let callers := requester.foldl (fun dst address =>
        appendAgedCallers dst ((host.callers.lookup address).getD []) age) []
      let knownCallers := requester.foldl (fun dst address =>
        ((host.known.lookup address).getD ⟨[], 0, 0, 0⟩).appendTo dst now) []
      let snapshot : PeerSnapshot :=
        ⟨host.snapshot.hostname, host.snapshot.services, host.snapshot.listeners, callers,
          knownCallers, host.snapshot.metricProtocols,
          max 0 (host.snapshot.callerAmbiguityMillis - age)⟩
      (s.recordKnownCallers address requester snapshot now, some snapshot)

end CentralStore
end Peer
end Obi.Ref
