import Obi.Lib.Counts
import Obi.Ref.PeerStore

/-!
# A caller is named only when it is unique

Every observation that still holds is either stored, with an expiry that is no earlier,
or was dropped, and then callers are ambiguous for as long. The sweep removes only what
does not hold any more. So what `callerService` finds in the store is all there is.
-/

namespace Obi.Refine
open Lib Ref Ref.Peer List LocalStore Table Option Int
variable {s' : LocalStore} {t' : Table Service Time} {expires : Time} {T : Type}

/-! ## Merging -/

/-- The same name and namespace. -/
def SameIdentity (a b : Service) : Prop := a.name = b.name ∧ a.ns = b.ns

variable {α : Type} {live : α → Bool} {service : α → Service} {selected r : Service} {l : List α}

/-- What was merged into a result: it says the same of all of them, and is for the graph
only if they all are. -/
structure MergedInto (r other : Service) : Prop where
  same : SameIdentity other r
  graph : r.serviceGraph = true → other.serviceGraph = true

theorem merge_true {other merged : Service} (h : selected.merge other = (merged, true)) :
    (selected.name = "" ∧ merged = other) ∨ SameIdentity selected other ∧ selected.name ≠ "" ∧
        merged = { selected with serviceGraph := selected.serviceGraph && other.serviceGraph } := by
  rw [Service.merge] at h
  split at h
  · next hname => exact .inl ⟨hname, (Prod.mk.inj h).1.symm⟩
  next hname =>
  split at h
  · cases h
  · next hsame =>
    rw [not_or, not_not, not_not] at hsame
    exact .inr ⟨hsame, hname, (Prod.mk.inj h).1.symm⟩

theorem mergeLive_some (h : mergeLive live service selected l = some r) :
    (selected.name ≠ "" → MergedInto r selected) ∧
      ∀ c ∈ l, live c = true → (service c).name ≠ "" → MergedInto r (service c) := by
  fun_induction mergeLive live service selected l with
  | case1 selected =>
    cases h
    exact ⟨fun _ => ⟨⟨rfl, rfl⟩, id⟩, fun _ hc => (nomatch hc)⟩
  | case2 selected c rest hdead ih =>
    refine ⟨(ih h).1, forall_mem_cons.mpr ⟨fun hlive => ?_, (ih h).2⟩⟩
    rw [hlive] at hdead
    cases hdead
  | case3 selected c rest _ merged hmerge ih =>
    obtain ⟨hmrg, hrest⟩ := ih h
    rcases merge_true hmerge with ⟨hname, rfl⟩ | ⟨hsame, hname, rfl⟩
    · exact ⟨fun hnamed => absurd hname hnamed, forall_mem_cons.mpr ⟨fun _ => hmrg, hrest⟩⟩
    obtain ⟨hr, hgraph⟩ := hmrg hname
    refine ⟨fun _ => ⟨hr, fun hg => ?_⟩, forall_mem_cons.mpr ⟨fun _ _ => ⟨?_, fun hg => ?_⟩, hrest⟩⟩
    · exact (Bool.and_eq_true_iff.mp (hgraph hg)).1
    · exact ⟨hsame.1.symm.trans hr.1, hsame.2.symm.trans hr.2⟩
    · exact (Bool.and_eq_true_iff.mp (hgraph hg)).2
  | case4 => cases h

theorem mergeLive_dead (h : ∀ c ∈ l, ¬ live c = true) :
    mergeLive live service selected l = some selected := by
  induction l with
  | nil => rfl
  | cons c rest ih =>
    obtain ⟨hc, hrest⟩ := forall_mem_cons.mp h
    rw [mergeLive, Bool.eq_false_iff.mpr hc]
    exact ih hrest

theorem mergeLive_named (h : mergeLive live service selected l = some r) (hr : r.name ≠ "")
    (hsel : selected.name = "") : ∃ c ∈ l, live c = true := by
  by_contra hnone
  rw [mergeLive_dead fun c hc hlive => hnone ⟨c, hc, hlive⟩, some.injEq] at h
  exact hr (h ▸ hsel)

/-! ## The stored pairs -/

/-- How many services there are for a destination. -/
def services (t : Table Service Time) : Nat := total (fun _ => 1) t

/-- How many services there are over all destinations. -/
def pairs (m : Map2 Endpoint Service Time) : Nat := total services m

variable {m : Map2 Endpoint Service Time}

theorem total_insert_some {K V : Type} [DecidableEq K] {t : Table K V} {k : K} {v w : V}
    (size : V → Nat) (h : t.lookup k = some w) :
    total size (t.insert k v) + size w = total size t + size v := by
  rw [total_insert, total_erase h]
  omega

theorem total_insert_none {K V : Type} [DecidableEq K] {t : Table K V} {k : K} {v : V}
    (size : V → Nat) (h : t.lookup k = none) :
    total size (t.insert k v) = total size t + size v := by
  rw [total_insert, total_erase_none h]

variable {d : Endpoint} {svc : Service}

theorem pairs_insert_some {t : Table Service Time} (h : m.lookup d = some t) :
    pairs (m.insert d t') + services t = pairs m + services t' := total_insert_some services h

theorem pairs_put (m : Map2 Endpoint Service Time) (d : Endpoint) (svc : Service) (expires : Time) :
    pairs (Map2.put m d svc expires) = pairs m + if (Map2.get m d svc).isSome then 0 else 1 := by
  rw [Map2.put, Map2.get]
  cases hd : m.lookup d with
  | none => exact total_insert_none services hd
  | some t =>
    have houter : pairs (m.insert d (t.insert svc expires)) + services t = _ := pairs_insert_some hd
    rw [getD_some, bind_some]
    by_cases hs : (t.lookup svc).isSome = true
    · obtain ⟨old, hold⟩ := isSome_iff_exists.mp hs
      have hinner : services (t.insert svc expires) + 1 = services t + 1 :=
        total_insert_some (fun _ => 1) hold
      rw [if_pos hs]
      omega
    have hinner : services (t.insert svc expires) = services t + 1 :=
      total_insert_none (fun _ => 1) (not_isSome_iff_eq_none.mp hs)
    rw [if_neg hs]
    omega

/-! ## The sweep -/

theorem expireService_lookup (now : Time) (st : Table Service Time × Int) (svc x : Service) :
    (expireService now st svc).1.lookup x =
      if x = svc then (st.1.lookup x).filter (fun expires => expires > now) else st.1.lookup x := by
  rw [expireService]
  by_cases hx : x = svc
  · subst hx
    rw [if_pos rfl]
    cases hs : st.1.lookup x with
    | none => exact hs
    | some expires =>
      by_cases hlive : expires > now
      · simp only [hlive, if_true, filter_some]
        exact hs
      · simp only [hlive, filter_some]
        exact AList.lookup_erase x st.1
  · rw [if_neg hx]
    split
    · rfl
    split
    · rfl
    · exact AList.lookup_erase_ne hx

/-- Entries and their number go together, and are only taken away. -/
def Swept {T : Type} (size : T → Nat) (st st' : T × Int) : Prop :=
  st'.2 - size st'.1 = st.2 - size st.1 ∧ st'.2 ≤ st.2

theorem Swept.trans {size : T → Nat} {a b c : T × Int} (h : Swept size a b)
    (h' : Swept size b c) : Swept size a c :=
  ⟨h'.1.trans h.1, le_trans h'.2 h.2⟩

theorem Swept.refl (size : T → Nat) (a : T × Int) : Swept size a a := ⟨rfl, Int.le_refl _⟩

theorem expireService_swept (now : Time) (st : Table Service Time × Int) (svc : Service) :
    Swept services st (expireService now st svc) := by
  rw [expireService]
  cases hs : st.1.lookup svc with
  | none => exact .refl _ _
  | some expires =>
    simp only []
    split
    · exact .refl _ _
    have htotal : services st.1 = services (st.1.erase svc) + 1 := total_erase hs
    constructor
    · simp only []
      omega
    · exact sub_le_self _ (by decide)

/-- The callers that still hold at a time. -/
def holding (now : Time) (get : Service → Option Time) (svc : Service) : Option Time :=
  (get svc).filter fun expires => expires > now

/-- The loop over the services of a destination. -/
theorem expireServices (now : Time) (t : Table Service Time) (count : Int) :
    (∀ x, (t.keys.foldl (expireService now) (t, count)).1.lookup x =
        holding now (fun svc => t.lookup svc) x) ∧
      Swept services (t, count) (t.keys.foldl (expireService now) (t, count)) := by
  have hloop := foldl_observe (P := Swept services (t, count))
    (fun st x => st.1.lookup x) (Option.filter fun expires => decide (expires > now))
    (fun b => by rw [Option.filter_filter]; simp only [Bool.and_self]) (l := t.keys)
    (fun st svc _ hst =>
      ⟨hst.trans (expireService_swept now st svc), expireService_lookup now st svc⟩)
    (t, count) (.refl _ _)
  refine ⟨fun x => ?_, hloop.1⟩
  rw [hloop.2 x, holding]
  split
  · rfl
  · next hx =>
    rw [AList.lookup_eq_none.mpr hx]
    rfl

theorem get_of_lookup {t : Table Service Time} (h : m.lookup d = some t) :
    Map2.get m d = fun svc => t.lookup svc := by
  funext svc
  rw [Map2.get, h, bind_some]

theorem get_of_lookup_none (h : m.lookup d = none) : Map2.get m d = fun _ => none := by
  funext svc
  rw [Map2.get, h, bind_none]

/-- One round of the loop over the destinations. -/
theorem get_expireDest (now : Time) (st : Map2 Endpoint Service Time × Int)
    (d x : Endpoint) :
    Map2.get (expireDestination now st d).1 x =
      if x = d then holding now (Map2.get st.1 x) else Map2.get st.1 x := by
  rw [expireDestination]
  cases hd : st.1.lookup d with
  | none =>
    by_cases hx : x = d
    · subst hx
      simp only [get_of_lookup_none hd]
      rfl
    · rw [if_neg hx]
  | some t =>
    have hleft := (expireServices now t st.2).1
    simp only []
    generalize t.keys.foldl (expireService now) (t, st.2) = r at hleft
    have hget : Map2.get (if r.1.entries.isEmpty = true then (st.1.erase d, r.2)
        else (st.1.insert d r.1, r.2)).1 x =
          if x = d then (fun svc => r.1.lookup svc) else Map2.get st.1 x := by
      funext svc
      rw [apply_ite Prod.fst, Map2.get_replace, ite_apply]
    rw [hget]
    by_cases hx : x = d
    · subst hx
      rw [if_pos rfl, if_pos rfl, get_of_lookup hd]
      exact funext hleft
    · rw [if_neg hx, if_neg hx]

theorem pairs_replace {t : Table Service Time} (h : m.lookup d = some t) :
    pairs (if t'.entries.isEmpty then m.erase d else m.insert d t') + services t =
      pairs m + services t' := by
  split
  · next hemp =>
    have hnone : services t' = 0 := by
      rw [services, total, isEmpty_iff.mp hemp]
      rfl
    have herase : pairs m = pairs (m.erase d) + services t := total_erase h
    omega
  · exact pairs_insert_some h

theorem expireDest_swept (now : Time) (st : Map2 Endpoint Service Time × Int)
    (d : Endpoint) : Swept pairs st (expireDestination now st d) := by
  rw [expireDestination]
  cases hd : st.1.lookup d with
  | none => exact .refl _ _
  | some t =>
    obtain ⟨hcnt, hle⟩ := (expireServices now t st.2).2
    simp only []
    generalize t.keys.foldl (expireService now) (t, st.2) = r at hcnt hle
    have hpairs : pairs (if r.1.entries.isEmpty then st.1.erase d else st.1.insert d r.1) +
        services t = pairs st.1 + services r.1 := pairs_replace hd
    rw [Swept, apply_ite Prod.fst, apply_ite Prod.snd, ite_self]
    simp only [] at hcnt ⊢
    exact ⟨by omega, hle⟩

/-- What is left after a sweep. -/
theorem expire_spec (s : LocalStore) (now : Time) :
    (∀ x, Map2.get (s.expire now).callers x = holding now (Map2.get s.callers x)) ∧
      Swept pairs (s.callers, s.callerCount)
        ((s.expire now).callers, (s.expire now).callerCount) := by
  have hloop := foldl_observe (P := Swept pairs (s.callers, s.callerCount))
    (fun st x => Map2.get st.1 x) (holding now)
    (fun _ => by funext; simp [holding]) (l := s.callers.keys)
    (fun st d _ hst =>
      ⟨hst.trans (expireDest_swept now st d), get_expireDest now st d⟩)
    (s.callers, s.callerCount) (.refl _ _)
  refine ⟨fun x => (hloop.2 x).trans ?_, hloop.1⟩
  split
  · rfl
  · next hx =>
    simp only [get_of_lookup_none (AList.lookup_eq_none.mpr hx)]
    rfl

/-! ## Runs -/

/-- An observation the store takes. -/
def Observes (e : StoreEvent) (d : Endpoint) (svc : Service) (t : Time) : Prop :=
  e = .observe d svc t ∧ svc.name ≠ "" ∧ 0 < d.port ∧ d.port ≤ 65535

/-- An observation that is stored or made callers ambiguous for as long as it holds, or
that a sweep found not to hold any more. -/
def Covered (ttl : Int) (events : List StoreEvent) (s : LocalStore) (d : Endpoint) (svc : Service)
    (t : Time) : Prop :=
  t + ttl ≤ s.ambiguousUntil ∨
    (∃ expires, Map2.get s.callers d svc = some expires ∧ t + ttl ≤ expires) ∨
    ∃ n, .expire n ∈ events ∧ t + ttl ≤ n

/-- The store after some calls. -/
structure StoreInv (ttl maxCallers : Int) (events : List StoreEvent) (s : LocalStore) : Prop where
  ttl_eq : s.callerTTL = ttl
  max_eq : s.maxCallers = maxCallers
  count : s.callerCount = pairs s.callers
  le : s.callerCount ≤ maxCallers
  stored : ∀ d svc expires, Map2.get s.callers d svc = some expires →
    ∃ e ∈ events, ∃ t, Observes e d svc t ∧ expires = t + ttl
  covered : ∀ e ∈ events, ∀ d svc t, Observes e d svc t → Covered ttl events s d svc t

variable {ttl maxCallers : Int} {events : List StoreEvent} {s : LocalStore} {now : Time}

theorem Covered.more {t : Time} (h : Covered ttl events s d svc t) (later : List StoreEvent)
    (hamb : s'.ambiguousUntil = s.ambiguousUntil)
    (hget : Map2.get s'.callers d svc = Map2.get s.callers d svc) :
    Covered ttl (events ++ later) s' d svc t := by
  rw [Covered, hamb, hget]
  rcases h with hamb | hsto | ⟨n, hn, hle⟩
  · exact .inl hamb
  · exact .inr (.inl hsto)
  · exact .inr (.inr ⟨n, mem_append_left _ hn, hle⟩)

theorem StoreInv.stored_more (h : StoreInv ttl maxCallers events s) (later : List StoreEvent)
    (hsome : Map2.get s.callers d svc = some expires) :
    ∃ e ∈ events ++ later, ∃ t, Observes e d svc t ∧ expires = t + ttl := by
  obtain ⟨e, he, hold⟩ := h.stored d svc expires hsome
  exact ⟨e, mem_append_left _ he, hold⟩

section
variable (h : StoreInv ttl maxCallers events s)
include h

theorem storeInv_expire : StoreInv ttl maxCallers (events ++ [.expire now]) (s.expire now) := by
  obtain ⟨hget, hswept, hle⟩ := expire_spec s now
  refine ⟨h.ttl_eq, h.max_eq, ?_, le_trans hle h.le, ?_, ?_⟩
  · have hcnt := h.count
    simp only [] at hswept
    omega
  · intro d svc expires hsome
    rw [hget, holding, filter_eq_some_iff] at hsome
    exact h.stored_more _ hsome.1
  · intro e he d svc t hobs
    rcases mem_append.mp he with he | he
    · rcases h.covered e he d svc t hobs with hamb | ⟨expires, hsome, hle⟩ | ⟨n, hn, hle⟩
      · exact .inl hamb
      · by_cases hlive : expires > now
        · refine .inr (.inl ⟨expires, ?_, hle⟩)
          rw [hget, holding, hsome, filter_some, decide_eq_true hlive]
          rfl
        · refine .inr (.inr ⟨now, mem_append_right _ mem_cons_self, ?_⟩)
          exact le_trans hle (not_lt.mp hlive)
      · exact .inr (.inr ⟨n, mem_append_left _ hn, hle⟩)
    · rw [mem_singleton.mp he] at hobs
      exact absurd hobs.1 StoreEvent.noConfusion

/-- An observation that is stored, in a new entry or in one that was there. -/
theorem storeInv_put
    (hlast : ∀ e ∈ events, e.time ≤ now) (hobs : Observes (.observe d svc now) d svc now)
    (hcalls : s'.callers = Map2.put s.callers d svc (now + ttl))
    (httl : s'.callerTTL = ttl) (hmax : s'.maxCallers = maxCallers)
    (hamb : s'.ambiguousUntil = s.ambiguousUntil)
    (hcnt : s'.callerCount = pairs s'.callers) (hle : s'.callerCount ≤ maxCallers) :
    StoreInv ttl maxCallers (events ++ [.observe d svc now]) s' := by
  refine ⟨httl, hmax, hcnt, hle, ?_, ?_⟩
  · intro x y expires hsome
    rw [hcalls, Map2.get_put] at hsome
    split at hsome
    · next hxy =>
      obtain ⟨rfl, rfl⟩ := hxy
      refine ⟨_, mem_append_right _ mem_cons_self, now, hobs, ?_⟩
      exact (some.inj hsome).symm
    · exact h.stored_more _ hsome
  · intro e he x y t hseen
    by_cases hxy : x = d ∧ y = svc
    · refine .inr (.inl ⟨now + ttl, by rw [hcalls, Map2.get_put, if_pos hxy], ?_⟩)
      rcases mem_append.mp he with he | he
      · have := hlast e he
        rw [hseen.1] at this
        exact Int.add_le_add_right this ttl
      obtain ⟨heq, -⟩ := hseen
      rw [mem_singleton.mp he] at heq
      cases heq
      exact le_rfl
    · rcases mem_append.mp he with he | he
      · exact (h.covered e he x y t hseen).more _ hamb
          (by rw [hcalls, Map2.get_put, if_neg hxy])
      obtain ⟨heq, -⟩ := hseen
      rw [mem_singleton.mp he] at heq
      cases heq
      exact absurd ⟨rfl, rfl⟩ hxy

/-- An observation that is dropped. -/
theorem storeInv_drop (hlast : ∀ e ∈ events, e.time ≤ now) :
    StoreInv ttl maxCallers (events ++ [.observe d svc now])
      { s with ambiguousUntil := now + ttl } := by
  refine ⟨h.ttl_eq, h.max_eq, h.count, h.le, ?_, ?_⟩
  · exact fun x y expires hsome => h.stored_more _ hsome
  · intro e he x y t hseen
    have htime : e.time ≤ now := by
      rcases mem_append.mp he with he | he
      · exact hlast e he
      · rw [mem_singleton.mp he]
        exact le_rfl
    rw [hseen.1] at htime
    exact .inl (Int.add_le_add_right htime ttl)

/-- A call that does nothing. -/
theorem storeInv_ignore (hnot : ¬ (svc.name ≠ "" ∧ 0 < d.port ∧ d.port ≤ 65535)) :
    StoreInv ttl maxCallers (events ++ [.observe d svc now]) s := by
  refine ⟨h.ttl_eq, h.max_eq, h.count, h.le, ?_, ?_⟩
  · exact fun x y expires hsome => h.stored_more _ hsome
  · intro e he x y t hseen
    rcases mem_append.mp he with he | he
    · exact (h.covered e he x y t hseen).more _ rfl rfl
    obtain ⟨heq, hval⟩ := hseen
    rw [mem_singleton.mp he] at heq
    cases heq
    exact absurd hval hnot

theorem storeInv_observe (d : Endpoint) (svc : Service) (hlast : ∀ e ∈ events, e.time ≤ now) :
    StoreInv ttl maxCallers (events ++ [.observe d svc now]) (s.observe d svc now) := by
  obtain rfl := h.ttl_eq
  rw [observe]
  split
  · next hinvalid =>
    refine storeInv_ignore h fun hval => ?_
    rcases hinvalid with hname | hport | hport
    · exact hval.1 hname
    · exact absurd hval.2.1 (not_lt.mpr hport)
    · exact absurd hval.2.2 (not_le.mpr hport)
  · next hval =>
    have hobs : Observes (.observe d svc now) d svc now := by
      refine ⟨rfl, ?_⟩
      rw [not_or, not_or, not_le, not_lt] at hval
      exact hval
    have hpairs := pairs_put s.callers d svc (now + s.callerTTL)
    have hcnt := h.count
    split
    · next hexists =>
      rw [if_pos hexists] at hpairs
      exact storeInv_put h hlast hobs rfl rfl h.max_eq rfl (by simp only []; omega) h.le
    · next hnew =>
      rw [if_neg hnew] at hpairs
      split
      · exact storeInv_drop h hlast
      · next hroom =>
        rw [h.max_eq] at hroom
        exact storeInv_put h hlast hobs rfl rfl h.max_eq rfl
          (by simp only []; omega) (by simp only []; omega)

end

theorem storeInv_run (hostname : String) (ttl : Int) (hmax : 0 ≤ maxCallers)
    (htimes : events.Pairwise fun a b => a.time ≤ b.time) :
    StoreInv ttl maxCallers events (events.foldl step (newStore hostname ttl maxCallers)) := by
  induction events using reverseRecOn with
  | nil => exact ⟨rfl, rfl, rfl, hmax, fun _ _ _ h => (nomatch h), fun _ h => nomatch h⟩
  | append_singleton events e ih =>
    obtain ⟨hbef, -, hlast⟩ := pairwise_append.mp htimes
    have hinv := ih hbef
    have hle : ∀ x ∈ events, x.time ≤ e.time := fun x hx => hlast x hx e mem_cons_self
    rw [foldl_append]
    cases e with
    | observe d svc now => exact storeInv_observe hinv d svc hle
    | expire now => exact storeInv_expire hinv

/-! ## Queries -/

theorem mem_callers_of : (⟨svc, expires⟩ : Σ _ : Service, Time) ∈ ((m.lookup d).getD ∅).entries ↔
      Map2.get m d svc = some expires := by
  rw [Map2.get]
  cases m.lookup d with
  | none => constructor <;> intro h <;> cases h
  | some t => exact AList.mem_lookup_iff.symm

/-- What `callerService` finds is merged from all that is stored and holds. -/
theorem observedCaller_some {endpoint : Endpoint} (h : s.observedCaller endpoint now = some svc) :
    s.ambiguousUntil ≤ now ∧ svc.name ≠ "" ∧
      (∃ other expires, Map2.get s.callers endpoint other = some expires ∧ now < expires) ∧
      ∀ other expires, Map2.get s.callers endpoint other = some expires → now < expires →
        other.name ≠ "" → MergedInto svc other := by
  rw [observedCaller] at h
  split at h
  · cases h
  · next hclr =>
    split at h
    · cases h
    · next selected hmerge =>
      split at h
      · cases h
      · next hnamed =>
        cases h
        refine ⟨not_lt.mp hclr, hnamed, ?_, ?_⟩
        · obtain ⟨⟨other, expires⟩, hin, hlive⟩ := mergeLive_named hmerge hnamed rfl
          exact ⟨other, expires, mem_callers_of.mp hin, of_decide_eq_true hlive⟩
        · intro other expires hget hlive hoth
          exact (mergeLive_some hmerge).2 ⟨other, expires⟩ (mem_callers_of.mpr hget)
            (decide_eq_true hlive) hoth

/-- The callers are counted, and one is named only if all observations of the endpoint
that hold, the dropped ones too, are of it. -/
theorem caller_named_only_unique (hostname : String) (ttl maxCallers : Int)
    (hmax : 0 ≤ maxCallers) (events : List StoreEvent)
    (htimes : events.Pairwise fun a b => a.time ≤ b.time) :
    (events.foldl step (newStore hostname ttl maxCallers)).callerCount =
        pairs (events.foldl step (newStore hostname ttl maxCallers)).callers ∧
      (events.foldl step (newStore hostname ttl maxCallers)).callerCount ≤ maxCallers ∧
      ∀ endpoint now svc, (∀ e ∈ events, e.time ≤ now) →
        (events.foldl step (newStore hostname ttl maxCallers)).observedCaller
          endpoint now = some svc →
        (events.foldl step (newStore hostname ttl maxCallers)).callerService endpoint now = svc ∧
          (∃ other t, .observe endpoint other t ∈ events ∧ other.name ≠ "" ∧ now < t + ttl) ∧
          (∀ other t, .observe endpoint other t ∈ events → other.name ≠ "" → now < t + ttl →
            other.name = svc.name ∧ other.ns = svc.ns) ∧
          (svc.serviceGraph = true → ∀ other expires, Map2.get (events.foldl step
              (newStore hostname ttl maxCallers)).callers endpoint other = some expires →
            now < expires → other.serviceGraph = true) := by
  have hinv := storeInv_run hostname ttl hmax htimes
  generalize events.foldl step (newStore hostname ttl maxCallers) = s at hinv
  refine ⟨hinv.count, hinv.le, fun endpoint now svc hnow hfnd => ?_⟩
  obtain ⟨hclr, hnamed, ⟨first, expires, hfst, hlive⟩, hall⟩ := observedCaller_some hfnd
  have hval : 0 < endpoint.port ∧ endpoint.port ≤ 65535 := by
    obtain ⟨e, -, t, ⟨-, -, hport⟩, -⟩ := hinv.stored endpoint first expires hfst
    exact hport
  refine ⟨by rw [callerService, hfnd, getD_some], ?_, ?_, ?_⟩
  · obtain ⟨e, he, t, ⟨rfl, hname, -⟩, rfl⟩ := hinv.stored endpoint first expires hfst
    exact ⟨first, t, he, hname, hlive⟩
  · intro other t he hname hholds
    rcases hinv.covered _ he endpoint other t ⟨rfl, hname, hval⟩ with
      hamb | ⟨until_, hget, hle⟩ | ⟨n, hn, hle⟩
    · exact absurd (lt_of_lt_of_le hholds (le_trans hamb hclr)) (lt_irrefl _)
    · exact (hall other until_ hget (lt_of_lt_of_le hholds hle) hname).same
    · exact absurd (lt_of_lt_of_le hholds (le_trans hle (hnow _ hn))) (lt_irrefl _)
  · intro hgraph other until_ hget hholds
    obtain ⟨e, he, t, ⟨rfl, hname, -⟩, -⟩ := hinv.stored endpoint other until_ hget
    exact (hall other until_ hget hholds hname).graph hgraph

/-- Two calls of one service, seen while both hold. -/
theorem caller_named_only_unique_twice :
    ([.observe ⟨"10.0.0.1", 80⟩ ⟨"shop", "", true⟩ 5, .expire 6,
        .observe ⟨"10.0.0.1", 80⟩ ⟨"shop", "", true⟩ 7].foldl step
        (newStore "host" 10 1)).callerCount ≤ 1 ∧
      ([.observe ⟨"10.0.0.1", 80⟩ ⟨"shop", "", true⟩ 5, .expire 6,
        .observe ⟨"10.0.0.1", 80⟩ ⟨"shop", "", true⟩ 7].foldl step
        (newStore "host" 10 1)).callerService ⟨"10.0.0.1", 80⟩ 8 = ⟨"shop", "", true⟩ := by
  obtain ⟨-, hle, hfnd⟩ := caller_named_only_unique "host" 10 1 (by decide) [.observe ⟨"10.0.0.1",
    80⟩ ⟨"shop", "", true⟩ 5, .expire 6, .observe ⟨"10.0.0.1", 80⟩ ⟨"shop", "", true⟩ 7] (by decide)
  exact ⟨hle, (hfnd ⟨"10.0.0.1", 80⟩ 8 ⟨"shop", "", true⟩ (by decide) (by decide +kernel)).1⟩

end Obi.Refine
