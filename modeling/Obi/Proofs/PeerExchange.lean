import Obi.Proofs.PeerStore
import Obi.Ref.PeerExchange

/-!
# A caller is acknowledged while it can be resolved

An agent that acknowledges a caller directly reads its own cache, so it names that
caller from the cache at the same time. The central store acknowledges from what it
handed out. It does not know when the answer was put into the cache of the other agent,
nor how long that cache keeps it.
-/

namespace Obi.Refine
open Lib Ref Ref.Peer List PeerCache
variable {other merged : Service} {P : Service → Prop} {β : Type}
  {α : Type} {live : α → Bool} {service : α → Service} {selected r s : Service} {l : List α}

/-! ## What a merge yields -/

theorem merge_either (h : selected.merge other = (merged, true)) :
    merged = selected ∨ merged = other := by
  rcases merge_true h with ⟨-, rfl⟩ | ⟨hsame, -, rfl⟩
  · exact .inr rfl
  obtain ⟨name, ns, graph⟩ := selected
  obtain ⟨name', ns', graph'⟩ := other
  obtain ⟨rfl, rfl⟩ : name = name' ∧ ns = ns' := hsame
  cases graph' with
  | true => exact .inl (by rw [Bool.and_true])
  | false => exact .inr (by rw [Bool.and_false])

theorem mergeLive_either (h : mergeLive live service selected l = some r) :
    r = selected ∨ ∃ c ∈ l, live c = true ∧ service c = r := by
  fun_induction mergeLive live service selected l with
  | case1 => exact .inl (Option.some.inj h).symm
  | case2 selected c rest _ ih =>
    exact (ih h).imp_right (.imp fun _ => .imp_left (mem_cons_of_mem _))
  | case3 selected c rest hlive merged hmerge ih =>
    rcases ih h with rfl | ⟨d, hd, hd'⟩
    · rcases merge_either hmerge with heq | heq
      · exact .inl heq
      · exact .inr ⟨c, mem_cons_self, by simpa using hlive, heq.symm⟩
    · exact .inr ⟨d, mem_cons_of_mem _ hd, hd'⟩
  | case4 => cases h

theorem merge_false (h : selected.merge other = (merged, false)) :
    selected.name ≠ "" ∧ ¬ SameIdentity selected other := by
  rw [Service.merge] at h
  split at h
  · cases h
  next hname =>
  split at h
  · next hne => exact ⟨hname, fun hsame => hne.elim (· hsame.1) (· hsame.2)⟩
  · cases h

/-- Candidates that all say the same merge. -/
theorem mergeLive_same (hsame : ∀ c ∈ l, live c = true → SameIdentity (service c) s)
    (hsel : selected.name = "" ∨ SameIdentity selected s) :
    ∃ r, mergeLive live service selected l = some r := by
  fun_induction mergeLive live service selected l with
  | case1 selected => exact ⟨selected, rfl⟩
  | case2 selected c rest _ ih => exact ih (forall_mem_cons.mp hsame).2 hsel
  | case3 selected c rest hlive merged hmerge ih =>
    obtain ⟨hc, hrest⟩ := forall_mem_cons.mp hsame
    refine ih hrest (.inr ?_)
    rcases merge_true hmerge with ⟨-, rfl⟩ | ⟨-, hname, rfl⟩
    · exact hc (by simpa using hlive)
    · exact hsel.resolve_left hname
  | case4 selected c rest hlive _ hmerge =>
    obtain ⟨hname, hdiffer⟩ := merge_false hmerge
    have heq := hsel.resolve_left hname
    have hc := hsame c mem_cons_self (by simpa using hlive)
    exact absurd ⟨heq.1.trans hc.1.symm, heq.2.trans hc.2.symm⟩ hdiffer

/-- One service stands for all those of a kind. -/
structure NamesOne (P : Service → Prop) (s : Service) : Prop where
  one : P s
  all : ∀ x, P x → MergedInto s x

theorem NamesOne.congr {Q : Service → Prop} (h : NamesOne P s) (hPQ : ∀ x, P x ↔ Q x) :
    NamesOne Q s :=
  ⟨(hPQ s).mp h.one, fun x hx => h.all x ((hPQ x).mpr hx)⟩

/-- Services that all merge into one have one among them that they merge into. -/
theorem exists_namesOne {x : Service} (hx : P x)
    (hall : ∀ y, P y → MergedInto s y) : ∃ r, NamesOne P r ∧ SameIdentity r s := by
  by_cases hs : P s
  · exact ⟨s, ⟨hs, hall⟩, rfl, rfl⟩
  refine ⟨x, ⟨hx, fun y hy => ⟨?_, fun _ => ?_⟩⟩, (hall x hx).same⟩
  · exact ⟨(hall y hy).same.1.trans (hall x hx).same.1.symm,
      (hall y hy).same.2.trans (hall x hx).same.2.symm⟩
  -- a service that is not for the graph would be `s` itself
  by_contra hgraph
  obtain ⟨⟨hname, hns⟩, hof⟩ := hall y hy
  have hboth : y.serviceGraph = s.serviceGraph := by
    rw [Bool.not_eq_true] at hgraph
    rw [hgraph, eq_comm, Bool.eq_false_iff]
    exact fun hsgraph => Bool.false_ne_true (hgraph.symm.trans (hof hsgraph))
  have hys : y = s := by
    obtain ⟨name, ns, graph⟩ := y
    obtain ⟨rfl, rfl, rfl⟩ : name = s.name ∧ ns = s.ns ∧ graph = s.serviceGraph :=
      ⟨hname, hns, hboth⟩
    rfl
  exact hs (hys ▸ hy)

theorem mergedInto_antisymm (h : MergedInto r s) (h' : MergedInto s r) : r = s := by
  obtain ⟨name, ns, graph⟩ := r
  obtain ⟨name', ns', graph'⟩ := s
  obtain ⟨⟨rfl, rfl⟩, hgraph⟩ := h
  have hsame : graph = graph' := Bool.eq_iff_iff.mpr ⟨hgraph, h'.graph⟩
  rw [hsame]

/-- The services of the live candidates. -/
def LiveServices (live : α → Bool) (service : α → Service) (l : List α) (x : Service) : Prop :=
  ∃ c ∈ l, live c = true ∧ service c = x

theorem mergeLive_eq_some_iff (hs : s.name ≠ "")
    (hnamed : ∀ c ∈ l, live c = true → (service c).name ≠ "") :
    mergeLive live service .zero l = some s ↔ NamesOne (LiveServices live service l) s := by
  have hzero : ∀ {r}, mergeLive live service .zero l = some r → r.name ≠ "" →
      NamesOne (LiveServices live service l) r := by
    intro r h hr
    refine ⟨(mergeLive_either h).resolve_left fun hzero => hr (hzero ▸ rfl), ?_⟩
    rintro x ⟨c, hc, hlive, rfl⟩
    exact (mergeLive_some h).2 c hc hlive (hnamed c hc hlive)
  refine ⟨fun h => hzero h hs, fun h => ?_⟩
  obtain ⟨r, hr⟩ := mergeLive_same (fun c hc hlive => (h.all _ ⟨c, hc, hlive, rfl⟩).same)
    (.inl rfl : Service.zero.name = "" ∨ _)
  obtain ⟨c, hc, hlive, rfl⟩ := h.one
  have hmrg := (mergeLive_some hr).2 c hc hlive hs
  have hrname : r.name ≠ "" := hmrg.same.1 ▸ hs
  rw [hr, mergedInto_antisymm (h.all r (hzero hr hrname).one) hmrg]

/-- The services of the candidates that outlive an age. -/
def AliveAt (candidates : List CallerService) (age : Int) (x : Service) : Prop :=
  ∃ c ∈ candidates, age < c.remainingMillis ∧ c.service = x

variable {candidates : List CallerService} {age : Int}

theorem uniqueCaller_eq_iff (hs : s.name ≠ "")
    (hnamed : ∀ x, AliveAt candidates (milliseconds age) x → x.name ≠ "") :
    uniqueCaller candidates age = s ↔ NamesOne (AliveAt candidates (milliseconds age)) s := by
  have hlive : ∀ x, LiveServices (fun c => !decide (c.remainingMillis ≤ milliseconds age))
      CallerService.service candidates x ↔ AliveAt candidates (milliseconds age) x := by
    intro x
    simp [LiveServices, AliveAt]
  have hmerge : mergeLive (fun c => !decide (c.remainingMillis ≤ milliseconds age))
      CallerService.service .zero candidates = some s ↔ _ :=
    mergeLive_eq_some_iff hs fun c hc hc' => hnamed _ ((hlive _).mp ⟨c, hc, hc', rfl⟩)
  rw [uniqueCaller]
  constructor
  · intro h
    refine (hmerge.mp ?_).congr hlive
    cases hm : mergeLive (fun c => !decide (c.remainingMillis ≤ milliseconds age))
        CallerService.service .zero candidates with
    | none =>
      rw [hm] at h
      exact absurd (h ▸ rfl) hs
    | some r =>
      rw [hm] at h
      exact congrArg some h
  · intro h
    rw [hmerge.mpr (h.congr fun x => (hlive x).symm)]
    rfl

/-- No candidate outlives the age. -/
theorem uniqueCaller_none (h : ∀ x, ¬ AliveAt candidates (milliseconds age) x) :
    uniqueCaller candidates age = .zero := by
  rw [uniqueCaller, mergeLive_dead, Option.getD_some]
  intro c hc hlive
  rw [Bool.not_eq_true', decide_eq_false_iff_not, not_le] at hlive
  exact h c.service ⟨c, hc, hlive, rfl⟩

/-! ## Callers of an endpoint -/

/-- The candidates that a list of callers has for an endpoint. -/
def callersOf (callers : List Caller) (endpoint : Endpoint) : List CallerService :=
  ((indexByDestination callers).lookup endpoint).getD []

variable {callers : List Caller} {endpoint : Endpoint} {c : CallerService} (key : β → Endpoint)

theorem mem_foldl_appendAt {V : Type} (vals : β → List V) (l : List β)
    (t : Table Endpoint (List V)) (v : V) :
    v ∈ ((l.foldl (fun t x => appendAt t (key x) (vals x)) t).lookup endpoint).getD [] ↔
      v ∈ (t.lookup endpoint).getD [] ∨ ∃ x ∈ l, key x = endpoint ∧ v ∈ vals x := by
  induction l generalizing t with
  | nil => simp
  | cons x rest ih =>
    rw [foldl_cons, ih, appendAt]
    by_cases hx : endpoint = key x
    · subst hx
      simp [or_assoc]
    · simp [hx, Ne.symm hx]

theorem mem_callersOf : c ∈ callersOf callers endpoint ↔
      ∃ caller ∈ callers, caller.destination = endpoint ∧ c ∈ caller.services := by
  rw [callersOf, indexByDestination, mem_foldl_appendAt Caller.destination Caller.services]
  exact or_iff_right not_mem_nil

theorem mem_aged {remaining : CallerService → Int} : (c ∈ candidates.filterMap fun candidate =>
        if remaining candidate > 0 then some ⟨candidate.service, remaining candidate⟩ else none) ↔
      ∃ cand ∈ candidates, 0 < remaining cand ∧ c = ⟨cand.service, remaining cand⟩ := by
  rw [mem_filterMap]
  refine exists_congr fun cand => and_congr_right fun _ => ?_
  split
  · next hleft =>
    rw [Option.some.injEq]
    exact ⟨fun h => ⟨hleft, h.symm⟩, fun h => h.2.symm⟩
  · next hleft => exact ⟨fun h => (nomatch h), fun h => absurd h.1 hleft⟩

/-- What is left of some callers, each with its own candidates. -/
theorem mem_callersOf_aged (cands : β → List CallerService)
    (remaining : CallerService → Int) (l : List β) :
    c ∈ callersOf (l.filterMap fun x => agedCaller (key x) remaining (cands x)) endpoint ↔
      ∃ x ∈ l, key x = endpoint ∧ ∃ cand ∈ cands x, 0 < remaining cand ∧
        c = ⟨cand.service, remaining cand⟩ := by
  rw [mem_callersOf]
  constructor
  · rintro ⟨caller, hcall, hdest, hc⟩
    obtain ⟨x, hx, haged⟩ := mem_filterMap.mp hcall
    rw [agedCaller] at haged
    split at haged
    · cases haged
    · cases haged
      exact ⟨x, hx, hdest, mem_aged.mp hc⟩
  · rintro ⟨x, hx, hdest, hleft⟩
    have hin := mem_aged.mpr hleft
    refine ⟨⟨key x, _⟩, mem_filterMap.mpr ⟨x, hx, ?_⟩, hdest, hin⟩
    rw [agedCaller, if_neg (mt List.isEmpty_iff.mp (ne_nil_of_mem hin))]

/-! ## The cache -/

/-- The cache has for an address what the latest fetch of it brought. -/
structure Fetched (cache : PeerCache) (address : Addr) (callerTTL : Int) (fetched : PeerSnapshot)
    (started done : Time) : Prop where
  entry : ∃ peer snapshot, cache.peers.lookup address = some peer ∧
    decodeSnapshot fetched callerTTL = some snapshot ∧
    peer.snapshot = some (indexSnapshot snapshot) ∧ peer.fetchedAt = started ∧
    peer.lastGood = done

/-- The cache names a caller of an endpoint. -/
def Resolves (cache : PeerCache) (address : Addr) (now : Time) (endpoint : Endpoint)
    (s : Service) : Prop :=
  ∃ snapshot fetchedAt, (cache.lookup address now).2 = some (snapshot, fetchedAt) ∧
    snapshot.callerService endpoint (now - fetchedAt) = s

variable {cache : PeerCache} {address : Addr} {callerTTL : Int} {fetched snapshot : PeerSnapshot}
  {started done now : Time} {peer : CachedPeer} {cached : CachedSnapshot}

/-- A fetch that fits into the cache fills the entry. -/
theorem complete_fetched {size : Int} (hpeer : cache.peers.lookup address = some peer)
    (hdec : decodeSnapshot fetched callerTTL = some snapshot)
    (hsize : cache.bytes - peer.size + size ≤ cache.maxCacheBytes) :
    Fetched (cache.complete address (some (indexSnapshot snapshot)) size started done) address
      callerTTL fetched started done := by
  have hfits : ∀ (c : PeerCache) fuel, c.bytes ≤ c.maxCacheBytes → c.shrink fuel = c := by
    intro c fuel hc
    cases fuel with
    | zero => rfl
    | succ fuel => rw [shrink, if_neg (not_lt.mpr hc)]
  simp only [complete, hpeer]
  rw [hfits _ _ hsize]
  refine ⟨{ peer with
    snapshot := some (indexSnapshot snapshot), size := size, lastGood := done,
    fetchedAt := started }, snapshot, ?_, hdec, rfl, rfl, rfl⟩
  simp [Table.lookup_filterMap, hpeer]

theorem validateCallers_some {valid : List Caller}
    (h : validateCallers callers callerTTL = some valid) :
    (∀ caller ∈ callers, validCaller caller = true) ∧
      valid = callers.map (clampCaller callerTTL) := by
  rw [validateCallers] at h
  split at h
  · next hall => exact ⟨all_eq_true.mp hall, (Option.some.inj h).symm⟩
  · cases h

theorem decodeSnapshot_some (h : decodeSnapshot fetched callerTTL = some snapshot) :
    (∀ caller ∈ fetched.callers, validCaller caller = true) ∧
      snapshot.callers = fetched.callers.map (clampCaller callerTTL) ∧
      snapshot.hostname = fetched.hostname ∧
      snapshot.callerAmbiguityMillis =
        min fetched.callerAmbiguityMillis (milliseconds callerTTL) := by
  rw [decodeSnapshot] at h
  repeat (split at h; · cases h)
  split at h
  · next callers knownCallers hcalls hkn =>
    cases h
    obtain ⟨hval, rfl⟩ := validateCallers_some hcalls
    exact ⟨hval, rfl, rfl, rfl⟩
  · cases h

theorem named_of_valid (h : ∀ caller ∈ callers, validCaller caller = true) :
    ∀ c ∈ callersOf callers endpoint, c.service.name ≠ "" := by
  intro c hc
  obtain ⟨caller, hcall, -, hin⟩ := mem_callersOf.mp hc
  have hval := h caller hcall
  rw [validCaller, Bool.and_eq_true, all_eq_true] at hval
  have hname := hval.2 c hin
  rw [Bool.and_eq_true, validService, Bool.and_eq_true, validName, Bool.and_eq_true] at hname
  exact of_decide_eq_true hname.1.1.1

theorem mem_callersOf_clamped : c ∈ callersOf (callers.map (clampCaller callerTTL)) endpoint ↔
      ∃ d ∈ callersOf callers endpoint,
        c = { d with remainingMillis := min d.remainingMillis (milliseconds callerTTL) } := by
  simp only [mem_callersOf, mem_map]
  constructor
  · rintro ⟨_, ⟨caller, hcall, rfl⟩, hdest, hc⟩
    obtain ⟨d, hd, rfl⟩ := mem_map.mp hc
    exact ⟨d, ⟨caller, hcall, hdest, hd⟩, rfl⟩
  · rintro ⟨d, ⟨caller, hcall, hdest, hd⟩, rfl⟩
    exact ⟨_, ⟨caller, hcall, rfl⟩, hdest, mem_map.mpr ⟨d, hd, rfl⟩⟩

/-- What the cache has of the callers of an endpoint at an age. -/
def CachedAlive (callerTTL : Int) (fetched : PeerSnapshot) (endpoint : Endpoint) (age : Int)
    (x : Service) : Prop :=
  ∃ c ∈ callersOf fetched.callers endpoint,
    age < min c.remainingMillis (milliseconds callerTTL) ∧ c.service = x

theorem aliveAt_cached (h : decodeSnapshot fetched callerTTL = some snapshot) (x : Service) :
    AliveAt (((indexSnapshot snapshot).callers.lookup endpoint).getD []) age x ↔
      CachedAlive callerTTL fetched endpoint age x := by
  change AliveAt (callersOf snapshot.callers endpoint) age x ↔ _
  rw [(decodeSnapshot_some h).2.1]
  constructor
  · rintro ⟨c, hc, hage, rfl⟩
    obtain ⟨d, hd, rfl⟩ := mem_callersOf_clamped.mp hc
    exact ⟨d, hd, hage, rfl⟩
  · rintro ⟨d, hd, hage, rfl⟩
    exact ⟨_, mem_callersOf_clamped.mpr ⟨d, hd, rfl⟩, hage, rfl⟩

theorem named_cached (h : decodeSnapshot fetched callerTTL = some snapshot) (x : Service)
    (hx : CachedAlive callerTTL fetched endpoint age x) : x.name ≠ "" := by
  obtain ⟨c, hc, -, rfl⟩ := hx
  exact named_of_valid (decodeSnapshot_some h).1 c hc

theorem use_cacheTTL (peer : CachedPeer) : (cache.use address peer).cacheTTL = cache.cacheTTL := by
  rw [use]
  split
  · rw [removeOldest]
    split <;> rfl
  · rfl

theorem lookup_of_entry
    (hpeer : cache.peers.lookup address = some peer) (hcach : peer.snapshot = some cached) :
    (cache.lookup address now).2 =
      if now - peer.lastGood ≥ cache.cacheTTL then none else some (cached, peer.fetchedAt) := by
  rw [PeerCache.lookup, hpeer, Option.getD_some]
  simp only [PeerCache.fresh, use_cacheTTL, hcach]
  split <;> rfl

theorem callerService_eq_iff (hs : s.name ≠ "") (hclr : cached.ambiguityMillis ≤ milliseconds age) :
    cached.callerService endpoint age = s ↔
      uniqueCaller ((cached.callers.lookup endpoint).getD []) age = s ∨
        s = ⟨cached.hostname, "", false⟩ ∧
          (uniqueCaller ((cached.callers.lookup endpoint).getD []) age).name = "" := by
  rw [CachedSnapshot.callerService]
  rw [if_neg (not_lt.mpr hclr)]
  generalize uniqueCaller ((cached.callers.lookup endpoint).getD []) age = u
  by_cases hu : u.name = ""
  · rw [if_pos hu]
    refine ⟨fun h => .inr ⟨h.symm, hu⟩, ?_⟩
    rintro (rfl | ⟨rfl, -⟩)
    · exact absurd hu hs
    · rfl
  · rw [if_neg hu]
    exact ⟨.inl, fun h => h.elim id fun h => absurd h.2 hu⟩

/-- Of what is cached the caller is one that all others merge into. -/
theorem callerService_cached (hdec : decodeSnapshot fetched callerTTL = some snapshot)
    (hs : s.name ≠ "")
    (hclr : min fetched.callerAmbiguityMillis (milliseconds callerTTL) ≤ milliseconds age)
    (hall : ∀ x, CachedAlive callerTTL fetched endpoint (milliseconds age) x → MergedInto s x) :
    (indexSnapshot snapshot).callerService endpoint age = s ↔
      CachedAlive callerTTL fetched endpoint (milliseconds age) s ∨
        s = ⟨fetched.hostname, "", false⟩ ∧
          ∀ x, ¬ CachedAlive callerTTL fetched endpoint (milliseconds age) x := by
  obtain ⟨-, -, hhost, hambiguity⟩ := decodeSnapshot_some hdec
  have huniq : ∀ r : Service, r.name ≠ "" →
      (uniqueCaller (((indexSnapshot snapshot).callers.lookup endpoint).getD []) age = r ↔
        NamesOne (CachedAlive callerTTL fetched endpoint (milliseconds age)) r) := by
    intro r hr
    rw [uniqueCaller_eq_iff hr fun x hx =>
      named_cached hdec x ((aliveAt_cached hdec x).mp hx)]
    exact ⟨fun h => h.congr (aliveAt_cached hdec),
      fun h => h.congr fun x => (aliveAt_cached hdec x).symm⟩
  have hclr' : (indexSnapshot snapshot).ambiguityMillis ≤ milliseconds age := by
    change snapshot.callerAmbiguityMillis ≤ _
    rw [hambiguity]
    exact hclr
  rw [callerService_eq_iff hs hclr', huniq s hs]
  refine or_congr ⟨NamesOne.one, fun h => ⟨h, hall⟩⟩ (and_congr ?_ ⟨fun hunnamed x hx => ?_, ?_⟩)
  · change s = ⟨snapshot.hostname, "", false⟩ ↔ _
    rw [hhost]
  · obtain ⟨r, hr, hsame⟩ := exists_namesOne hx hall
    have hname : r.name ≠ "" := hsame.1 ▸ hs
    rw [(huniq r hname).mpr hr] at hunnamed
    exact hname hunnamed
  · intro hnone
    rw [uniqueCaller_none fun x hx => hnone x ((aliveAt_cached hdec x).mp hx)]
    rfl

theorem resolves_iff (hfetched : Fetched cache address callerTTL fetched started done)
    (hs : s.name ≠ "")
    (hclr : min fetched.callerAmbiguityMillis (milliseconds callerTTL) ≤
      milliseconds (now - started))
    (hall : ∀ x, CachedAlive callerTTL fetched endpoint (milliseconds (now - started)) x →
      MergedInto s x) :
    Resolves cache address now endpoint s ↔ now - done < cache.cacheTTL ∧
        (CachedAlive callerTTL fetched endpoint (milliseconds (now - started)) s ∨
          s = ⟨fetched.hostname, "", false⟩ ∧
            ∀ x, ¬ CachedAlive callerTTL fetched endpoint (milliseconds (now - started)) x) := by
  obtain ⟨peer, snapshot, hpeer, hdec, hsnap, rfl, rfl⟩ := hfetched.entry
  rw [← callerService_cached hdec hs hclr hall, Resolves, lookup_of_entry hpeer hsnap]
  split
  · next hstale =>
    refine iff_of_false ?_ fun h => absurd h.1 (not_lt.mpr hstale)
    rintro ⟨cached, fetchedAt, h, -⟩
    cases h
  · next hfresh =>
    constructor
    · rintro ⟨cached, fetchedAt, heq, hcall⟩
      cases heq
      exact ⟨not_le.mp hfresh, hcall⟩
    · rintro ⟨-, hcall⟩
      exact ⟨_, _, rfl, hcall⟩

/-! ## Acknowledgements -/

theorem not_aliveAt_nil (x : Service) : ¬ AliveAt (callersOf [] endpoint) age x := by
  rintro ⟨c, hc, -⟩
  cases hc

/-- What is left of some callers is alive. -/
theorem aliveAt_aged (cands : β → List CallerService)
    (remaining : CallerService → Int) (l : List β) (x : Service) :
    AliveAt (callersOf (l.filterMap fun b => agedCaller (key b) remaining (cands b)) endpoint) 0 x ↔
      ∃ b ∈ l, key b = endpoint ∧ ∃ cand ∈ cands b, 0 < remaining cand ∧ cand.service = x := by
  constructor
  · rintro ⟨c, hc, -, rfl⟩
    obtain ⟨b, hb, hkey, cand, hcand, hleft, rfl⟩ :=
      (mem_callersOf_aged key cands remaining l).mp hc
    exact ⟨b, hb, hkey, cand, hcand, hleft, rfl⟩
  · rintro ⟨b, hb, hkey, cand, hcand, hleft, rfl⟩
    refine ⟨⟨cand.service, remaining cand⟩, ?_, hleft, rfl⟩
    exact (mem_callersOf_aged key cands remaining l).mpr ⟨b, hb, hkey, cand, hcand, hleft, rfl⟩

/-- What the cache acknowledges is alive in it. -/
theorem aliveAt_knownCallers
    (hpeer : cache.peers.lookup address = some peer) (hcach : peer.snapshot = some cached)
    (x : Service) :
    AliveAt (callersOf (cache.knownCallers address now) endpoint) 0 x ↔
      (now - peer.lastGood < cache.cacheTTL ∧
        cached.ambiguityMillis ≤ milliseconds (now - peer.fetchedAt) ∧
        0 < milliseconds (cache.cacheTTL - (now - peer.lastGood))) ∧
      AliveAt ((cached.callers.lookup endpoint).getD [])
        (milliseconds (now - peer.fetchedAt)) x := by
  rw [knownCallers, hpeer]
  simp only [PeerCache.fresh, hcach]
  by_cases hstale : now - peer.lastGood ≥ cache.cacheTTL
  · rw [if_pos hstale]
    exact iff_of_false (not_aliveAt_nil x) fun h => absurd h.1.1 (not_lt.mpr hstale)
  rw [if_neg hstale]
  simp only []
  by_cases hamb : cached.ambiguityMillis > milliseconds (now - peer.fetchedAt)
  · rw [if_pos hamb]
    exact iff_of_false (not_aliveAt_nil x) fun h => absurd h.1.2.1 (not_le.mpr hamb)
  rw [if_neg hamb, aliveAt_aged (fun e : Σ _ : Endpoint, List CallerService => e.1) fun e => e.2]
  constructor
  · rintro ⟨⟨e, cands⟩, hin, rfl, cand, hcand, hleft, rfl⟩
    rw [Int.lt_min] at hleft
    refine ⟨⟨not_le.mp hstale, not_lt.mp hamb, hleft.2⟩, cand, ?_, ?_, rfl⟩
    · rw [AList.mem_lookup_iff.mpr hin]
      exact hcand
    · exact sub_pos.mp hleft.1
  · rintro ⟨⟨-, -, hcache⟩, cand, hcand, hage, rfl⟩
    cases hlook : cached.callers.lookup endpoint with
    | none =>
      rw [hlook] at hcand
      cases hcand
    | some cands =>
      rw [hlook] at hcand
      refine ⟨⟨endpoint, cands⟩, AList.mem_lookup_iff.mp hlook, rfl, cand, hcand, ?_, rfl⟩
      exact Int.lt_min.mpr ⟨sub_pos.mpr hage, hcache⟩

/-- What the central store acknowledges for one address. -/
theorem aliveAt_recorded {store : CentralStore} {b : Addr} {host : CentralHost}
    {answer : PeerSnapshot} {recorded : Time}
    (hhost : store.hosts.lookup (store.hostAt b) = some host)
    (hkn : host.known.lookup address = some (newKnownCallers fetched recorded))
    (hans : (store.lookup b [address] now).2 = some answer) (x : Service) :
    AliveAt (callersOf answer.knownCallers endpoint) 0 x ↔
      fetched.callerAmbiguityMillis ≤ milliseconds (now - recorded) ∧
        AliveAt (callersOf fetched.callers endpoint) (milliseconds (now - recorded)) x := by
  have hcalls : answer.knownCallers =
      if fetched.callerAmbiguityMillis > milliseconds (now - recorded) then []
      else fetched.callers.filterMap fun caller => agedCaller caller.destination
        (fun s => s.remainingMillis - milliseconds (now - recorded)) caller.services := by
    rw [CentralStore.lookup, hhost] at hans
    simp only [] at hans
    split at hans
    · cases hans
    · cases hans
      simp only [foldl_cons, hkn]
      rfl
  rw [hcalls]
  by_cases hamb : fetched.callerAmbiguityMillis > milliseconds (now - recorded)
  · rw [if_pos hamb]
    exact iff_of_false (not_aliveAt_nil x) fun h => absurd h.1 (not_le.mpr hamb)
  rw [if_neg hamb, aliveAt_aged Caller.destination Caller.services]
  refine Iff.trans ?_ (and_iff_right (not_lt.mp hamb)).symm
  constructor
  · rintro ⟨caller, hcall, hdest, cand, hcand, hleft, rfl⟩
    exact ⟨cand, mem_callersOf.mpr ⟨caller, hcall, hdest, hcand⟩, sub_pos.mp hleft, rfl⟩
  · rintro ⟨cand, hcand, hage, rfl⟩
    obtain ⟨caller, hcall, hdest, hin⟩ := mem_callersOf.mp hcand
    exact ⟨caller, hcall, hdest, cand, hin, sub_pos.mpr hage, rfl⟩

/-- A caller acknowledged directly is resolved. One acknowledged by the central store is
resolved if the cache still has its entry and one of the callers by that name outlives
the age the entry has there. -/
theorem acknowledged_caller_resolved (cache : PeerCache) (address : Addr) (callerTTL : Int)
    (fetched : PeerSnapshot) (started done now : Time)
    (hfetched : Fetched cache address callerTTL fetched started done) (endpoint : Endpoint)
    (s : Service) (hs : s.name ≠ "") :
    (uniqueCaller (callersOf (cache.knownCallers address now) endpoint) 0 = s →
        Resolves cache address now endpoint s) ∧
      ∀ (store : CentralStore) (b : Addr) (host : CentralHost) (answer : PeerSnapshot)
        (recorded : Time), started ≤ recorded →
        store.hosts.lookup (store.hostAt b) = some host →
        host.known.lookup address = some (newKnownCallers fetched recorded) →
        (store.lookup b [address] now).2 = some answer →
        uniqueCaller (callersOf answer.knownCallers endpoint) 0 = s →
        (Resolves cache address now endpoint s ↔ now - done < cache.cacheTTL ∧
            (CachedAlive callerTTL fetched endpoint (milliseconds (now - started)) s ∨
              s = ⟨fetched.hostname, "", false⟩ ∧ ∀ x,
                ¬ CachedAlive callerTTL fetched endpoint (milliseconds (now - started)) x)) := by
  obtain ⟨peer, snapshot, hpeer, hdec, hsnap, rfl, rfl⟩ := hfetched.entry
  obtain ⟨hval, -, -, hambiguity⟩ := decodeSnapshot_some hdec
  constructor
  · intro huniq
    have halive : ∀ x, AliveAt (callersOf (cache.knownCallers address now) endpoint) 0 x ↔ _ :=
      fun x => (aliveAt_knownCallers hpeer hsnap x).trans (and_congr_right' (aliveAt_cached hdec x))
    rw [uniqueCaller_eq_iff hs fun x hx => named_cached hdec x ((halive x).mp hx).2] at huniq
    obtain ⟨⟨hfresh, hclr, hleft⟩, hone⟩ := (halive s).mp huniq.one
    refine (resolves_iff hfetched hs ?_ fun x hx => ?_).mpr ⟨hfresh, .inl hone⟩
    · rw [← hambiguity]
      exact hclr
    · exact huniq.all x ((halive x).mpr ⟨⟨hfresh, hclr, hleft⟩, hx⟩)
  · intro store b host answer recorded hstarted hhost hkn hans huniq
    have halive : ∀ x, AliveAt (callersOf answer.knownCallers endpoint) 0 x ↔ _ :=
      aliveAt_recorded hhost hkn hans
    have hage : milliseconds (now - recorded) ≤ milliseconds (now - peer.fetchedAt) :=
      Int.tdiv_le_tdiv (by decide) (sub_le_sub_left hstarted now)
    rw [uniqueCaller_eq_iff hs fun x hx => ?_] at huniq
    · obtain ⟨hclr, -⟩ := (halive s).mp huniq.one
      refine resolves_iff hfetched hs (le_trans (min_le_left _ _) (le_trans hclr hage)) ?_
      rintro x ⟨c, hc, halive', rfl⟩
      refine huniq.all _ ((halive _).mpr ⟨hclr, c, hc, ?_, rfl⟩)
      exact lt_of_le_of_lt hage (Int.lt_min.mp halive').1
    · obtain ⟨-, c, hc, -, rfl⟩ := (halive x).mp hx
      exact named_of_valid hval c hc

/-- Host A has a service that calls host B, and both publish. -/
def bothPublished : CentralStore :=
  let empty : CentralStore := ⟨1000000000000, 8, ∅, ∅⟩
  let shop : Caller := ⟨⟨"10.0.0.2", 80⟩, [⟨⟨"shop", "", true⟩, 60000⟩]⟩
  ((empty.publish "A" ["10.0.0.1"] ⟨"host-a", [], [], [shop], [], none, 0⟩ 0).bind fun s =>
    s.publish "B" ["10.0.0.2"] ⟨"host-b", [], [], [], [], none, 0⟩ 0).getD empty

/-- Host B looks up host A. -/
def lookedUp : CentralStore × Option PeerSnapshot := bothPublished.lookup "10.0.0.1" ["10.0.0.2"] 0

/-- The cache of host B, that keeps its entries for a second. -/
def cacheOfB : PeerCache :=
  ((⟨1000000000, 8, 1000000, ∅, 0⟩ : PeerCache).lookup "10.0.0.1" 0).1.complete "10.0.0.1"
    ((lookedUp.2.bind fun snapshot => decodeSnapshot snapshot 60000000000).map indexSnapshot)
    100 0 0

/-- What host B has of host A, and the store has noted that it has it. -/
theorem fetched_cacheOfB : ∃ snapshot host, Fetched cacheOfB "10.0.0.1" 60000000000 snapshot 0 0 ∧
    lookedUp.1.hosts.lookup (lookedUp.1.hostAt "10.0.0.2") = some host ∧
    host.known.lookup "10.0.0.1" = some (newKnownCallers snapshot 0) := by
  have hlooked : lookedUp.2.isSome = true := by decide +kernel
  obtain ⟨snapshot, hsnap⟩ := Option.isSome_iff_exists.mp hlooked
  have hdecode : (lookedUp.2.bind fun snapshot =>
      decodeSnapshot snapshot 60000000000).isSome = true := by decide +kernel
  obtain ⟨decoded, hdec⟩ := Option.isSome_iff_exists.mp hdecode
  have hnoted : (lookedUp.1.hosts.lookup (lookedUp.1.hostAt "10.0.0.2")).bind
      (fun host => host.known.lookup "10.0.0.1") =
      lookedUp.2.map fun snapshot => newKnownCallers snapshot 0 := rfl
  rw [hsnap, Option.map_some, Option.bind_eq_some_iff] at hnoted
  obtain ⟨host, hhost, hknown⟩ := hnoted
  refine ⟨snapshot, host, ?_, hhost, hknown⟩
  rw [cacheOfB, hdec]
  rw [hsnap] at hdec
  have hpeer : ((⟨1000000000, 8, 1000000, ∅, 0⟩ : PeerCache).lookup "10.0.0.1" 0).1.peers.lookup
      "10.0.0.1" = some ⟨0, 0, 0, 0, none⟩ := rfl
  exact complete_fetched hpeer hdec (by decide +kernel)

/-- After half a second the cache and the store acknowledge the caller, and it is
resolved as long as it is alive in what was fetched. -/
theorem acknowledged_caller_resolved_soon : ∃ snapshot answer,
    Resolves cacheOfB "10.0.0.1" 500000000 ⟨"10.0.0.2", 80⟩ ⟨"shop", "", true⟩ ∧
      (lookedUp.1.lookup "10.0.0.2" ["10.0.0.1"] 500000000).2 = some answer ∧
      uniqueCaller (callersOf answer.knownCallers ⟨"10.0.0.2", 80⟩) 0 = ⟨"shop", "", true⟩ ∧
      (CachedAlive 60000000000 snapshot ⟨"10.0.0.2", 80⟩ 500 ⟨"shop", "", true⟩ ∨
        (⟨"shop", "", true⟩ : Service) = ⟨snapshot.hostname, "", false⟩ ∧
          ∀ x, ¬ CachedAlive 60000000000 snapshot ⟨"10.0.0.2", 80⟩ 500 x) := by
  obtain ⟨snapshot, host, hfetched, hhost, hknown⟩ := fetched_cacheOfB
  obtain ⟨hdirect, hcentral⟩ := acknowledged_caller_resolved cacheOfB "10.0.0.1" 60000000000
    snapshot 0 0 500000000 hfetched ⟨"10.0.0.2", 80⟩ ⟨"shop", "", true⟩ (by decide)
  have hresolves := hdirect (by decide +kernel)
  have hasked : (lookedUp.1.lookup "10.0.0.2" ["10.0.0.1"] 500000000).2.map (fun answer =>
      uniqueCaller (callersOf answer.knownCallers ⟨"10.0.0.2", 80⟩) 0) =
      some ⟨"shop", "", true⟩ := by decide +kernel
  obtain ⟨answer, hanswer, huniq⟩ := Option.map_eq_some_iff.mp hasked
  exact ⟨snapshot, answer, hresolves, hanswer, huniq,
    ((hcentral lookedUp.1 "10.0.0.2" host answer 0 le_rfl hhost hknown hanswer huniq).mp
      hresolves).2⟩

/-- After two seconds the central store still acknowledges the caller, and the cache of
host B has no entry any more. -/
theorem acknowledged_after_cache_expiry :
    (lookedUp.1.lookup "10.0.0.2" ["10.0.0.1"] 2000000000).2.map (fun answer =>
        uniqueCaller (callersOf answer.knownCallers ⟨"10.0.0.2", 80⟩) 0) =
      some ⟨"shop", "", true⟩ ∧
      ¬ Resolves cacheOfB "10.0.0.1" 2000000000 ⟨"10.0.0.2", 80⟩ ⟨"shop", "", true⟩ := by
  refine ⟨by decide +kernel, ?_⟩
  rintro ⟨snapshot, fetchedAt, hsome, -⟩
  have hnone : (cacheOfB.lookup "10.0.0.1" 2000000000).2.isNone = true := by decide +kernel
  rw [hsome] at hnone
  cases hnone

end Obi.Refine
