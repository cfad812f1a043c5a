import Obi.Ref.KubeStore

/-!
# Processes under pod events

Removing a pod takes from the index by PID namespace the whole namespace of one
process of each of its containers, and adding it again puts back only what the
index by container still has. This module says which namespaces are cleared and
what every other entry looks like after an event.
-/

namespace Obi.Refine
open Lib Ref List Store Map2 Container.Info Table Option
variable {om : ObjectMeta} {s : Store} {first : FirstInfo} {containers a b : List ContainerInfo}
  {n : Nat} {id name : String} {infos : Table PID Container.Info}

/-! ## Removing containers -/

/-- The PID namespaces that go with the containers of a list. -/
def clearedNamespaces (s : Store) (first : FirstInfo) (containers : List ContainerInfo) :
    List Nat :=
  containers.filterMap fun c =>
    ((s.containerIDs.lookup c.id).bind first).map pidNamespace

theorem mem_clearedNamespaces : n ∈ clearedNamespaces s first containers ↔
      ∃ c ∈ containers, ((s.containerIDs.lookup c.id).bind first).map pidNamespace = some n := by
  rw [clearedNamespaces, mem_filterMap]

/-- What removing containers does to the indices over containers and processes. -/
structure Removes (first : FirstInfo) (containers : List ContainerInfo) (s t : Store) : Prop where
  byPID : t.containerByPID = s.containerByPID
  byContainer : ∀ c, t.containerIDs.lookup c =
    if c ∈ containers.map ContainerInfo.id then none else s.containerIDs.lookup c
  pods : ∀ c, t.podsByContainer.lookup c =
    if c ∈ containers.map ContainerInfo.id then none else s.podsByContainer.lookup c
  owners : ∀ o c, c ∉ containers.map ContainerInfo.id →
    Map2.get t.containersByOwner o c = Map2.get s.containersByOwner o c
  namespaces : ∀ n, t.namespaces.lookup n =
    if n ∈ clearedNamespaces s first containers then none else s.namespaces.lookup n

theorem removes_deleteContainer (c : ContainerInfo) :
    Removes first [c] s (deleteContainer first om s c) := by
  have hmem : ∀ n, n ∈ clearedNamespaces s first [c] ↔
      ((s.containerIDs.lookup c.id).bind first).map pidNamespace = some n := by
    simp [mem_clearedNamespaces]
  rw [deleteContainer]
  cases hc : s.containerIDs.lookup c.id with
  | none =>
    refine ⟨rfl, fun c' => ?_, fun c' => ?_, fun o c' hc' => ?_, fun n => ?_⟩
    · simpa using fun h : c' = c.id => h ▸ hc
    · simp [get_erase]
    · rw [get_delete, if_neg fun h => hc' (mem_singleton.mpr h.2)]
    · simp [hmem, hc]
  | some infos =>
    refine ⟨rfl, fun c' => ?_, fun c' => ?_, fun o c' hc' => ?_, fun n => ?_⟩
    · simp [lookup_deleteAll]
    · simp [get_erase]
    · rw [get_delete, if_neg fun h => hc' (mem_singleton.mpr h.2)]
    · cases hfst : first infos with
      | none => simp [hmem, hc, hfst]
      | some info => simp [hmem, hc, hfst, lookup_deleteAll, eq_comm]

theorem ite_none_ite_none {α : Type} {p q : Prop} [Decidable p] [Decidable q] (x : Option α) :
    (if q then none else if p then none else x) = if p ∨ q then none else x := by
  by_cases hp : p <;> by_cases hq : q <;> simp [hq]

theorem Removes.trans {t u : Store} (h : Removes first a s t) (h' : Removes first b t u) :
    Removes first (a ++ b) s u where
  byPID := h'.byPID.trans h.byPID
  byContainer c := by
    simp [h'.byContainer, h.byContainer, ite_none_ite_none]
  pods c := by
    simp [h'.pods, h.pods, ite_none_ite_none]
  owners o c hc := by
    rw [map_append, mem_append, not_or] at hc
    rw [h'.owners o c hc.2, h.owners o c hc.1]
  namespaces n := by
    -- a container removed before has no process left to clear a namespace for
    have hmem : n ∈ clearedNamespaces s first (a ++ b) ↔
        n ∈ clearedNamespaces s first a ∨ n ∈ clearedNamespaces t first b := by
      simp only [mem_clearedNamespaces, mem_append, h.byContainer]
      constructor
      · rintro ⟨c, hc, hn⟩
        by_cases ha : c.id ∈ a.map ContainerInfo.id
        · obtain ⟨c', hc', hid⟩ := mem_map.mp ha
          exact .inl ⟨c', hc', by rw [hid]; exact hn⟩
        rcases hc with hc | hc
        · exact absurd (mem_map_of_mem hc) ha
        · exact .inr ⟨c, hc, by rw [if_neg ha]; exact hn⟩
      · rintro (⟨c, hc, hn⟩ | ⟨c, hc, hn⟩)
        · exact ⟨c, .inl hc, hn⟩
        · split at hn
          · cases hn
          · exact ⟨c, .inr hc, hn⟩
    rw [h'.namespaces, h.namespaces]
    simp [hmem, ite_none_ite_none]

theorem Removes.refl : Removes first [] s s := by
  refine ⟨rfl, fun c => ?_, fun c => ?_, fun _ _ _ => rfl, fun n => ?_⟩
  · rw [map_nil, if_neg not_mem_nil]
  · rw [map_nil, if_neg not_mem_nil]
  · rw [if_neg]
    exact not_mem_nil

theorem removes_deleteContainers (first : FirstInfo) (om : ObjectMeta)
    (containers : List ContainerInfo) (s : Store) :
    Removes first containers s (containers.foldl (deleteContainer first om) s) := by
  induction containers generalizing s with
  | nil => exact .refl
  | cons c rest ih => exact (removes_deleteContainer c).trans (ih _)

theorem removes_delete :
    Removes first om.containers s (s.unlockedDeleteObjectMeta first om) := by
  have h := removes_deleteContainers first om om.containers { s with
      objectMetaByQName := s.objectMetaByQName.erase (qName om)
      objectMetaByIP := om.ips.foldl (deleteIP om) s.objectMetaByIP }
  exact ⟨h.byPID, h.byContainer, h.pods, h.owners, h.namespaces⟩

/-! ## Adding containers -/

/-- Entries that are put into the index by namespace one after the other. -/
def putInfos (entries : List (Σ _ : PID, Container.Info)) (m : Map2 Nat PID Container.Info) :
    Map2 Nat PID Container.Info :=
  entries.foldl (fun m e => Map2.put m e.2.pidNamespace e.1 e.2) m

/-- The processes of the containers of a list. -/
def infosOf (s : Store) (containers : List ContainerInfo) : List (Σ _ : PID, Container.Info) :=
  containers.flatMap fun c => ((s.containerIDs.lookup c.id).map AList.entries).getD []

theorem mem_infosOf {e : Σ _ : PID, Container.Info} : e ∈ infosOf s containers ↔
    ∃ c ∈ containers, Map2.get s.containerIDs c.id e.1 = some e.2 := by
  simp only [infosOf, mem_flatMap, Map2.get]
  refine exists_congr fun c => and_congr_right fun _ => ?_
  cases s.containerIDs.lookup c.id with
  | none => simp
  | some infos => simpa using AList.mem_lookup_iff.symm

section
variable {entries : List (Σ _ : PID, Container.Info)} {m : Map2 Nat PID Container.Info}
  {pid : PID} {info : Container.Info}

/-- An entry of the index was there, or is one of those that were put. -/
theorem get_putInfos (h : Map2.get (putInfos entries m) n pid = some info) :
    Map2.get m n pid = some info ∨ ⟨pid, info⟩ ∈ entries ∧ info.pidNamespace = n := by
  induction entries generalizing m with
  | nil => exact .inl h
  | cons e rest ih =>
    rcases ih h with h | ⟨hmem, hn⟩
    · rw [get_put] at h
      split at h
      · next hkey =>
        obtain rfl : e.2 = info := some.inj h
        rw [hkey.2]
        exact .inr ⟨mem_cons_self, hkey.1.symm⟩
      · exact .inl h
    · exact .inr ⟨mem_cons_of_mem _ hmem, hn⟩

end

/-- The last container of a list with this ID: the one the index by owner has
once all are added. -/
def lastWithID (containers : List ContainerInfo) (id : String) : Option ContainerInfo :=
  containers.reverse.find? fun c => c.id == id

theorem lastWithID_append_own
    (h : id ∈ b.map ContainerInfo.id) : lastWithID (a ++ b) id = lastWithID b id := by
  obtain ⟨c, hc, hid⟩ := mem_map.mp h
  have hsome : (b.reverse.find? fun c => c.id == id).isSome := by
    rw [find?_isSome]
    exact ⟨c, mem_reverse.mpr hc, beq_iff_eq.mpr hid⟩
  obtain ⟨found, hfnd⟩ := isSome_iff_exists.mp hsome
  rw [lastWithID, lastWithID, reverse_append, find?_append, hfnd, some_or]

theorem lastWithID_append_other
    (h : id ∉ b.map ContainerInfo.id) : lastWithID (a ++ b) id = lastWithID a id := by
  have hnone : (b.reverse.find? fun c => c.id == id) = none := by
    rw [find?_eq_none]
    intro c hc hid
    exact h (mem_map.mpr ⟨c, mem_reverse.mp hc, beq_iff_eq.mp hid⟩)
  rw [lastWithID, lastWithID, reverse_append, find?_append, hnone, none_or]

/-- What adding the containers of a pod does to the indices. -/
structure Adds (om : ObjectMeta) (containers : List ContainerInfo) (s t : Store) : Prop where
  byPID : t.containerByPID = s.containerByPID
  byContainer : t.containerIDs = s.containerIDs
  pods : ∀ c, t.podsByContainer.lookup c =
    if c ∈ containers.map ContainerInfo.id then some om else s.podsByContainer.lookup c
  owners : ∀ o c, c ∉ containers.map ContainerInfo.id →
    Map2.get t.containersByOwner o c = Map2.get s.containersByOwner o c
  named : ∀ c ∈ containers.map ContainerInfo.id,
    Map2.get t.containersByOwner (fetchOwnerID om) c = lastWithID containers c
  namespaces : t.namespaces = putInfos (infosOf s containers) s.namespaces

theorem adds_addContainer (c : ContainerInfo) : Adds om [c] s (addContainer om s c) := by
  refine ⟨rfl, rfl, fun c' => ?_, fun o c' hc' => ?_, fun c' hc' => ?_, ?_⟩
  · simp only [map_cons, map_nil, mem_singleton]
    exact get_insert _ _ _ _
  · rw [addContainer, get_put, if_neg fun h => hc' (mem_singleton.mpr h.2)]
  · obtain rfl : c' = c.id := mem_singleton.mp hc'
    rw [addContainer, get_put, if_pos ⟨rfl, rfl⟩, lastWithID, reverse_singleton,
      find?_cons_of_pos (by exact beq_self_eq_true _)]
  · rw [addContainer, infosOf, flatMap_singleton]
    cases s.containerIDs.lookup c.id with
    | none | some infos => rfl

theorem Adds.trans {t u : Store} (h : Adds om a s t)
    (h' : Adds om b t u) : Adds om (a ++ b) s u where
  byPID := h'.byPID.trans h.byPID
  byContainer := h'.byContainer.trans h.byContainer
  pods c := by
    rw [h'.pods, h.pods]
    by_cases ha : c ∈ a.map ContainerInfo.id <;> by_cases hb : c ∈ b.map ContainerInfo.id <;>
      simp [hb]
  owners o c hc := by
    rw [map_append, mem_append, not_or] at hc
    rw [h'.owners o c hc.2, h.owners o c hc.1]
  named c hc := by
    rw [map_append, mem_append] at hc
    by_cases hb : c ∈ b.map ContainerInfo.id
    · rw [h'.named c hb, lastWithID_append_own hb]
    · rw [h'.owners _ c hb, h.named c (hc.resolve_right hb), lastWithID_append_other hb]
  namespaces := by
    have hsame : infosOf t b = infosOf s b := by rw [infosOf, h.byContainer, infosOf]
    rw [h'.namespaces, h.namespaces, hsame, putInfos, putInfos, putInfos, infosOf, infosOf, infosOf,
      flatMap_append, foldl_append]

theorem Adds.refl : Adds om [] s s where
  byPID := rfl
  byContainer := rfl
  pods c := by rw [map_nil, if_neg not_mem_nil]
  owners _ _ _ := rfl
  named c hc := absurd hc not_mem_nil
  namespaces := rfl

theorem adds_addContainers (om : ObjectMeta) (containers : List ContainerInfo) (s : Store) :
    Adds om containers s (containers.foldl (addContainer om) s) := by
  induction containers generalizing s with
  | nil => exact .refl
  | cons c rest ih => exact (adds_addContainer c).trans (ih _)

theorem adds_add : Adds om om.containers s (s.unlockedAddObjectMeta om) := by
  have h := adds_addContainers om om.containers { s with
      objectMetaByQName := s.objectMetaByQName.insert (qName om) om
      objectMetaByIP := om.ips.foldl (addIP om) s.objectMetaByIP }
  exact ⟨h.byPID, h.byContainer, h.pods, h.owners, h.named, h.namespaces⟩

/-! ## The processes behind the indices -/

section
variable {K : Type} [DecidableEq K] {m : Map2 K PID Container.Info} {key : Container.Info → K}
  {byPID : Table PID Container.Info}

/-- Every entry of the index is the known process, under its own key. -/
def IndexedBy (m : Map2 K PID Container.Info) (key : Container.Info → K)
    (byPID : Table PID Container.Info) : Prop :=
  ∀ k pid info, Map2.get m k pid = some info → byPID.lookup pid = some info ∧ key info = k

section
variable (h : IndexedBy m key byPID)
include h

theorem IndexedBy.delete {pid : PID} {info : Container.Info}
    (hinfo : byPID.lookup pid = some info) :
    IndexedBy (Map2.delete m (key info) pid) key (byPID.erase pid) := by
  intro k q i hget
  rw [get_delete] at hget
  split at hget
  · cases hget
  · next hne =>
    obtain ⟨hi, hk⟩ := h k q i hget
    have hq : q ≠ pid := by
      rintro rfl
      obtain rfl : info = i := some.inj (hinfo.symm.trans hi)
      exact hne ⟨hk.symm, rfl⟩
    rw [get_erase, if_neg hq]
    exact ⟨hi, hk⟩

theorem IndexedBy.put {pid : PID} (hnone : byPID.lookup pid = none) (info : Container.Info) :
    IndexedBy (Map2.put m (key info) pid info) key (byPID.insert pid info) := by
  intro k q i hget
  rw [get_put] at hget
  rw [get_insert]
  split at hget
  · next heq =>
    obtain rfl : info = i := some.inj hget
    rw [if_pos heq.2]
    exact ⟨rfl, heq.1.symm⟩
  obtain ⟨hi, hk⟩ := h k q i hget
  have hq : q ≠ pid := by
    rintro rfl
    rw [hnone] at hi
    cases hi
  rw [if_neg hq]
  exact ⟨hi, hk⟩

theorem IndexedBy.congr {byPID' : Table PID Container.Info}
    (hsame : ∀ pid, byPID'.lookup pid = byPID.lookup pid) : IndexedBy m key byPID' := by
  intro k pid info hget
  rw [hsame]
  exact h k pid info hget

/-- `AddProcess` on one index: the entry of the PID moves. -/
theorem IndexedBy.replace (pid : PID) (info : Container.Info) :
    IndexedBy (Map2.put (match byPID.lookup pid with
        | none => m
        | some previous => Map2.delete m (key previous) pid) (key info) pid info) key
      (byPID.insert pid info) := by
  cases hprev : byPID.lookup pid with
  | none => exact h.put hprev info
  | some previous =>
    refine ((h.delete hprev).put (AList.lookup_erase _ _) info).congr fun q => ?_
    rw [get_insert, get_insert, get_erase]
    by_cases hq : q = pid
    · rw [if_pos hq, if_pos hq]
    · rw [if_neg hq, if_neg hq, if_neg hq]

end
end

/-- The entries by container and by namespace are those of known processes, and
a container's pod lists it and has its name in the index by owner. -/
structure ProcessIndexed (s : Store) : Prop where
  byContainer : IndexedBy s.containerIDs containerID s.containerByPID
  byNamespace : IndexedBy s.namespaces pidNamespace s.containerByPID
  pods : ∀ c om, s.podsByContainer.lookup c = some om → c ∈ om.containers.map ContainerInfo.id ∧
    Map2.get s.containersByOwner (fetchOwnerID om) c = lastWithID om.containers c

theorem Removes.indexed {t : Store}
    (hr : Removes first containers s t) (h : ProcessIndexed s) : ProcessIndexed t := by
  refine ⟨fun c pid info hget => ?_, fun n pid info hget => ?_, fun c om hom => ?_⟩
  · rw [hr.byPID]
    rw [Map2.get, hr.byContainer] at hget
    split at hget
    · cases hget
    · exact h.byContainer c pid info hget
  · rw [hr.byPID]
    rw [Map2.get, hr.namespaces] at hget
    split at hget
    · cases hget
    · exact h.byNamespace n pid info hget
  · rw [hr.pods] at hom
    split at hom
    · cases hom
    · next hc =>
      rw [hr.owners _ c hc]
      exact h.pods c om hom

theorem Adds.indexed {t : Store} (ha : Adds om om.containers s t) (h : ProcessIndexed s) :
    ProcessIndexed t := by
  refine ⟨?_, fun n pid info hget => ?_, fun c o ho => ?_⟩
  · rw [ha.byPID, ha.byContainer]
    exact h.byContainer
  · rw [ha.byPID]
    rw [ha.namespaces] at hget
    rcases get_putInfos hget with hget | ⟨hmem, hn⟩
    · exact h.byNamespace n pid info hget
    · obtain ⟨c, -, hget⟩ := mem_infosOf.mp hmem
      exact ⟨(h.byContainer c.id pid info hget).1, hn⟩
  · rw [ha.pods] at ho
    split at ho
    · next hc =>
      obtain rfl : om = o := some.inj ho
      exact ⟨hc, ha.named c hc⟩
    · next hc =>
      rw [ha.owners _ c hc]
      exact h.pods c o ho

theorem indexed_deletePrevious (h : ProcessIndexed s) :
    ProcessIndexed (s.deletePrevious first om) := by
  rw [deletePrevious]
  split
  · exact h
  · exact removes_delete.indexed h

theorem indexed_addProcess (pid : PID) (info : Option Container.Info) (h : ProcessIndexed s) :
    ProcessIndexed (s.addProcess pid info) := by
  cases info with
  | none => exact h
  | some ifp =>
    have hc := h.byContainer.replace pid ifp
    have hn := h.byNamespace.replace pid ifp
    rw [addProcess]
    cases hprev : s.containerByPID.lookup pid with
    | none | some previous =>
      rw [hprev] at hc hn
      exact ⟨hc, hn, h.pods⟩

theorem indexed_deleteProcess (pid : PID) (h : ProcessIndexed s) :
    ProcessIndexed (s.deleteProcess pid) := by
  rw [deleteProcess]
  split
  · exact h
  · next info hinfo => exact ⟨h.byContainer.delete hinfo, h.byNamespace.delete hinfo, h.pods⟩

theorem indexed_call (s : Store) (call : StoreCall) (h : ProcessIndexed s) :
    ProcessIndexed (s.call call) := by
  match call with
  | .addProcess pid info => exact indexed_addProcess pid info h
  | .deleteProcess pid => exact indexed_deleteProcess pid h
  | .on first ⟨.created, some om⟩ => exact adds_add.indexed h
  | .on first ⟨.updated, some om⟩ => exact adds_add.indexed (indexed_deletePrevious h)
  | .on first ⟨.deleted, some om⟩ => exact removes_delete.indexed (indexed_deletePrevious h)
  | .on first ⟨.created, none⟩ | .on first ⟨.updated, none⟩ | .on first ⟨.deleted, none⟩ => exact h
  | .on first ⟨.syncFinished, _⟩ => exact ⟨h.byContainer, h.byNamespace, h.pods⟩

theorem indexed_run (calls : List StoreCall) : ProcessIndexed (calls.foldl call newStore) := by
  refine foldlRecOn calls call ?_ fun s h call _ => indexed_call s call h
  refine ⟨fun c pid info h => ?_, fun n pid info h => ?_, fun c om h => ?_⟩
  · cases h
  · cases h
  · cases h

/-! ## What a lookup finds after an event -/

variable {info : Container.Info} {pid : PID}

/-- The container a lookup goes through: that of the process itself, or else the one of
all the processes of the namespace. -/
def Through (inside : PID → Container.Info → Prop) (pid : PID) (c : String) : Prop :=
  (pid ≠ 0 ∧ ∃ info, inside pid info ∧ info.containerID = c) ∨
    (∃ q info, inside q info) ∧ ∀ q info, inside q info → info.containerID = c

theorem Through.inside {inside : PID → Container.Info → Prop} {c : String}
    (h : Through inside pid c) : ∃ q info, inside q info ∧ info.containerID = c := by
  rcases h with ⟨-, info, h⟩ | ⟨⟨q, info, hin⟩, hc⟩
  · exact ⟨pid, info, h⟩
  · exact ⟨q, info, hin, hc q info hin⟩

section
variable {t u : Store} {removed added : List ContainerInfo} {pid q : PID}
  (hI : ProcessIndexed s) (hr : Removes first removed s t) (ha : Adds om added t u)

include hI

include hr ha

end

/-- The containers the stored version of an object lists. -/
def storedContainers (s : Store) (om : ObjectMeta) : List ContainerInfo :=
  ((s.objectMetaByQName.lookup (qName om)).map ObjectMeta.containers).getD []

/-- The containers an event about `om` removes. -/
def removedContainers (s : Store) (om : ObjectMeta) : EventType → List ContainerInfo
  | .created => []
  | .updated => storedContainers s om
  | .deleted => storedContainers s om ++ om.containers
  | .syncFinished => []

/-- The containers an event about `om` adds. -/
def addedContainers (om : ObjectMeta) : EventType → List ContainerInfo
  | .created | .updated => om.containers
  | .deleted | .syncFinished => []

theorem removes_deletePrevious :
    Removes first (storedContainers s om) s (s.deletePrevious first om) := by
  rw [deletePrevious, storedContainers]
  cases s.objectMetaByQName.lookup (qName om) with
  | none => exact .refl
  | some previous => exact removes_delete

/-- Every event removes containers and then adds some. -/
theorem on_removes_adds (s : Store) (first : FirstInfo) (om : ObjectMeta) (type : EventType) :
    ∃ t, Removes first (removedContainers s om type) s t ∧
      Adds om (addedContainers om type) t (s.on first ⟨type, some om⟩) := by
  cases type with
  | created => exact ⟨s, .refl, adds_add⟩
  | updated => exact ⟨_, removes_deletePrevious, adds_add⟩
  | deleted => exact ⟨_, removes_deletePrevious.trans removes_delete, .refl⟩
  | syncFinished =>
    refine ⟨s.on first ⟨.syncFinished, some om⟩, ?_, .refl⟩
    have h : Removes first [] s s := .refl
    exact ⟨h.byPID, h.byContainer, h.pods, h.owners, h.namespaces⟩

theorem on_byPID (s : Store) (first : FirstInfo) (event : KubeEvent) :
    (s.on first event).containerByPID = s.containerByPID := by
  obtain ⟨type, _ | om⟩ := event
  · cases type <;> rfl
  · obtain ⟨t, hr, ha⟩ := on_removes_adds s first om type
    exact ha.byPID.trans hr.byPID

/-- Only `AddProcess` brings a process back. -/
theorem unknown_call (h : s.containerByPID.lookup pid = none) {call : StoreCall}
    (hcall : ∀ info, call ≠ .addProcess pid info) :
    (s.call call).containerByPID.lookup pid = none := by
  cases call with
  | addProcess q info =>
    have hq : pid ≠ q := by
      rintro rfl
      exact hcall info rfl
    cases info with
    | none => exact h
    | some ifp =>
      rw [call, addProcess]
      cases s.containerByPID.lookup q <;> simp [hq, h]
  | deleteProcess q =>
    rw [call, deleteProcess]
    cases s.containerByPID.lookup q <;> simp [get_erase, h]
  | on first event => rw [call, on_byPID, h]

/-- In every store that can be reached the entries by namespace and by container are
those of known processes under their own keys, and a process that was deleted is in no
index until it is added again. -/
theorem process_indices_consistent (calls : List StoreCall) : let s := calls.foldl call newStore
    (∀ ns pid info, Map2.get s.namespaces ns pid = some info →
      s.containerByPID.lookup pid = some info ∧ info.pidNamespace = ns) ∧
    (∀ cid pid info, Map2.get s.containerIDs cid pid = some info →
      s.containerByPID.lookup pid = some info ∧ info.containerID = cid) ∧
    ∀ (pid : PID) (later : List StoreCall), (∀ info, StoreCall.addProcess pid info ∉ later) →
      let t := later.foldl call (s.deleteProcess pid)
      t.containerByPID.lookup pid = none ∧ (∀ ns, Map2.get t.namespaces ns pid = none) ∧
        ∀ cid, Map2.get t.containerIDs cid pid = none := by
  have hs := indexed_run calls
  refine ⟨hs.byNamespace, hs.byContainer, fun pid later hlater => ?_⟩
  have hnone : (later.foldl call ((calls.foldl call newStore).deleteProcess
      pid)).containerByPID.lookup pid = none := by
    refine foldlRecOn (motive := fun s : Store => s.containerByPID.lookup pid = none) later _ ?_
      fun s h call hmem => unknown_call h fun info heq => hlater info (heq ▸ hmem)
    rw [deleteProcess]
    split
    · assumption
    · exact AList.lookup_erase _ _
  have ht := indexed_run (calls ++ .deleteProcess pid :: later)
  rw [foldl_append] at ht
  refine ⟨hnone, fun ns => ?_, fun cid => ?_⟩
  · refine eq_none_iff_forall_ne_some.mpr fun info h => ?_
    cases hnone.symm.trans (ht.byNamespace ns pid info h).1
  · refine eq_none_iff_forall_ne_some.mpr fun info h => ?_
    cases hnone.symm.trans (ht.byContainer cid pid info h).1

end Obi.Refine
