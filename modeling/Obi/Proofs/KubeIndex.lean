import Obi.Ref.KubeStore

/-!
# The index by IP

An event goes through the indices one after another. Here each step is brought
down to the entry of one IP and of one qualified name, and what an event must
not do for the two to stay in agreement is read off.
-/

namespace Obi.Refine
open Lib Ref Store Option

/-! ## The two indices under an event -/

variable {om : ObjectMeta} {s : Store} {first : FirstInfo} {qn : QualifiedName} {t : Store}

/-- The object that has an IP once `om`, which lists it, is added. -/
def claimIP (om : ObjectMeta) (old : Option ObjectMeta) : Option ObjectMeta :=
  some (match old with
    | some current => if keepsIP current om then current else om
    | none => om)

theorem claimIP_claimIP (old : Option ObjectMeta) :
    claimIP om (claimIP om old) = claimIP om old := by
  have hself : (if keepsIP om om = true then om else om) = om := ite_self om
  cases old with
  | none => simp [claimIP]
  | some current =>
    simp only [claimIP]
    by_cases hkp : keepsIP current om = true
    · rw [if_pos hkp, if_pos hkp]
    · rw [if_neg hkp, hself]

theorem lookup_addIPs (ips : List String) (byIP : Table String ObjectMeta) (ip : String) :
    (ips.foldl (addIP om) byIP).lookup ip =
      if ip ∈ ips then claimIP om (byIP.lookup ip) else byIP.lookup ip := by
  refine Table.lookup_foldl ?_ claimIP_claimIP ips byIP ip
  intro byIP ip j
  rw [addIP]
  cases hold : byIP.lookup ip with
  | none =>
    rw [Table.get_insert]
    by_cases hj : j = ip
    · subst hj
      rw [if_pos rfl, if_pos rfl, hold, claimIP]
    · rw [if_neg hj, if_neg hj]
  | some current =>
    simp only []
    by_cases hj : j = ip
    · subst hj
      rw [if_pos rfl, hold, claimIP]
      split
      · exact hold
      · exact AList.lookup_insert _
    split
    · rfl
    · rw [Table.get_insert, if_neg hj]

/-- An object gives up an IP. -/
def releaseIP (om : ObjectMeta) (old : Option ObjectMeta) : Option ObjectMeta :=
  old.filter fun current => decide (qName current ≠ qName om)

theorem lookup_deleteIPs (ips : List String) (byIP : Table String ObjectMeta) (ip : String) :
    (ips.foldl (deleteIP om) byIP).lookup ip =
      if ip ∈ ips then releaseIP om (byIP.lookup ip) else byIP.lookup ip := by
  refine Table.lookup_foldl ?_ ?_ ips byIP ip
  · intro byIP ip j
    rw [deleteIP]
    cases hold : byIP.lookup ip with
    | none =>
      by_cases hj : j = ip
      · subst hj
        simp [hold, releaseIP]
      · rw [if_neg hj]
    | some current =>
      simp only []
      by_cases hj : j = ip
      · subst hj
        rw [hold, releaseIP]
        by_cases hsame : qName current = qName om
        · simp [Option.filter, hsame]
        · rw [if_neg hsame, hold]
          simp [Option.filter, hsame]
      split
      · rw [Table.get_erase, if_neg hj]
      · rfl
  · intro old
    rw [releaseIP, releaseIP]
    simp

/-- The two indices are left alone. -/
def SameIndices (s t : Store) : Prop :=
  t.objectMetaByIP = s.objectMetaByIP ∧ t.objectMetaByQName = s.objectMetaByQName

theorem foldl_addContainer (containers : List ContainerInfo) (s : Store) :
    SameIndices s (containers.foldl (addContainer om) s) := by
  induction containers generalizing s with
  | nil => exact ⟨rfl, rfl⟩
  | cons c rest ih => exact ih (addContainer om s c)

theorem deleteContainer_indices (first : FirstInfo) (om : ObjectMeta) (c : ContainerInfo)
    (s : Store) : SameIndices s (deleteContainer first om s c) := by
  rw [deleteContainer]
  split
  · exact ⟨rfl, rfl⟩
  · exact ⟨rfl, rfl⟩

theorem foldl_deleteContainer (containers : List ContainerInfo) (s : Store) :
    SameIndices s (containers.foldl (deleteContainer first om) s) := by
  induction containers generalizing s with
  | nil => exact ⟨rfl, rfl⟩
  | cons c rest ih =>
    have hrest := ih (deleteContainer first om s c)
    have hc := deleteContainer_indices first om c s
    exact ⟨hrest.1.trans hc.1, hrest.2.trans hc.2⟩

theorem byIP_add (ip : String) : (s.unlockedAddObjectMeta om).objectMetaByIP.lookup ip =
      if ip ∈ om.ips then claimIP om (s.objectMetaByIP.lookup ip)
      else s.objectMetaByIP.lookup ip := by
  rw [unlockedAddObjectMeta, (foldl_addContainer _ _).1]
  exact lookup_addIPs om.ips s.objectMetaByIP ip

theorem byQName_add (qn : QualifiedName) :
    (s.unlockedAddObjectMeta om).objectMetaByQName.lookup qn =
      if qn = qName om then some om else s.objectMetaByQName.lookup qn := by
  rw [unlockedAddObjectMeta, (foldl_addContainer _ _).2]
  exact Table.get_insert _ _ _ _

theorem byIP_delete (ip : String) : (s.unlockedDeleteObjectMeta first om).objectMetaByIP.lookup ip =
      if ip ∈ om.ips then releaseIP om (s.objectMetaByIP.lookup ip)
      else s.objectMetaByIP.lookup ip := by
  rw [unlockedDeleteObjectMeta, (foldl_deleteContainer _ _).1]
  exact lookup_deleteIPs om.ips s.objectMetaByIP ip

theorem byQName_delete (qn : QualifiedName) :
    (s.unlockedDeleteObjectMeta first om).objectMetaByQName.lookup qn =
      if qn = qName om then none else s.objectMetaByQName.lookup qn := by
  rw [unlockedDeleteObjectMeta, (foldl_deleteContainer _ _).2]
  exact Table.get_erase _ _ _

/-! ## Coherence -/

/-- Every object is stored under its own name. -/
def Keyed (s : Store) : Prop := ∀ qn om, s.objectMetaByQName.lookup qn = some om → qName om = qn

/-- An IP in the index is that of a stored object, in its stored version, and
every IP of a stored object other than a finished pod is in the index. -/
structure IPCoherent (s : Store) : Prop where
  sound : ∀ ip om, s.metaByIP ip = some om →
    s.objectMetaByQName.lookup (qName om) = some om ∧ ip ∈ om.ips
  complete : ∀ qn om, s.objectMetaByQName.lookup qn = some om → om.isFinishedPod = false →
    ∀ ip ∈ om.ips, ∃ o, s.metaByIP ip = some o ∧
      s.objectMetaByQName.lookup (qName o) = some o ∧ ip ∈ o.ips

/-- The index has the IP for the object with this name. -/
def HasIP (s : Store) (qn : QualifiedName) (ip : String) : Prop :=
  ∃ current, s.metaByIP ip = some current ∧ qName current = qn

/-- A stored object with another name, not a finished pod, lists the IP. -/
def OtherLists (s : Store) (qn : QualifiedName) (ip : String) : Prop :=
  ∃ qn' o, s.objectMetaByQName.lookup qn' = some o ∧ qn' ≠ qn ∧ o.isFinishedPod = false ∧ ip ∈ o.ips

/-- An object that is created again keeps the IPs it has in the index. One that
is updated or deleted gives up no IP that another object lists. -/
def KeepsIPs (s : Store) : StoreCall → Prop
  | .on _ ⟨.created, some om⟩ => ∀ ip, HasIP s (qName om) ip → ip ∈ om.ips
  | .on _ ⟨.updated, some om⟩ =>
    ∀ ip, HasIP s (qName om) ip → ip ∉ om.ips → ¬ OtherLists s (qName om) ip
  | .on _ ⟨.deleted, some om⟩ => ∀ ip, HasIP s (qName om) ip → ¬ OtherLists s (qName om) ip
  | _ => True

theorem IPCoherent.of_same (hip : t.objectMetaByIP = s.objectMetaByIP)
    (hqn : t.objectMetaByQName = s.objectMetaByQName) (h : IPCoherent s) : IPCoherent t := by
  refine ⟨?_, ?_⟩
  · simpa only [metaByIP, hip, hqn] using h.sound
  · simpa only [metaByIP, hip, hqn] using h.complete

/-- The object that has an IP is stored and lists it, so completeness is about
the IP being in the index at all. -/
theorem IPCoherent.of_some (hsound : ∀ ip om, s.metaByIP ip = some om →
      s.objectMetaByQName.lookup (qName om) = some om ∧ ip ∈ om.ips)
    (hsome : ∀ qn om, s.objectMetaByQName.lookup qn = some om → om.isFinishedPod = false →
      ∀ ip ∈ om.ips, ∃ o, s.metaByIP ip = some o) : IPCoherent s := by
  refine ⟨hsound, fun qn om hom hfin ip hip => ?_⟩
  obtain ⟨o, ho⟩ := hsome qn om hom hfin ip hip
  exact ⟨o, ho, hsound ip o ho⟩

/-! ### Adding -/

variable {ip : String} {o : ObjectMeta}

theorem metaByIP_add_own (hip : ip ∈ om.ips) :
    ∃ o, (s.unlockedAddObjectMeta om).metaByIP ip = some o ∧
      (o = om ∨ s.metaByIP ip = some o ∧ qName o ≠ qName om) := by
  rw [metaByIP, byIP_add, if_pos hip]
  cases hold : s.objectMetaByIP.lookup ip with
  | none => exact ⟨om, rfl, .inl rfl⟩
  | some current =>
    by_cases hkp : keepsIP current om = true
    · refine ⟨current, by simp [claimIP, hkp], .inr ⟨hold, fun hsame => ?_⟩⟩
      simp [keepsIP, hsame] at hkp
    · exact ⟨om, by rw [claimIP]; simp only [if_neg hkp], .inl rfl⟩

theorem metaByIP_add_other (hip : ip ∉ om.ips) :
    (s.unlockedAddObjectMeta om).metaByIP ip = s.metaByIP ip := by
  rw [metaByIP, byIP_add, if_neg hip, metaByIP]

/-- Adding an object loses no IP. -/
theorem metaByIP_add_isSome (h : s.metaByIP ip = some o) :
    ∃ o', (s.unlockedAddObjectMeta om).metaByIP ip = some o' := by
  by_cases hip : ip ∈ om.ips
  · obtain ⟨o', ho', -⟩ := metaByIP_add_own hip
    exact ⟨o', ho'⟩
  · exact ⟨o, (metaByIP_add_other hip).trans h⟩

/-- Adding an object to a sound index leaves it sound when the index has, under
the object's name, only IPs that it lists. -/
theorem sound_add (hsound : ∀ ip o, s.metaByIP ip = some o → qName o ≠ qName om →
      s.objectMetaByQName.lookup (qName o) = some o ∧ ip ∈ o.ips)
    (hkp : ∀ ip, HasIP s (qName om) ip → ip ∈ om.ips) :
    ∀ ip o, (s.unlockedAddObjectMeta om).metaByIP ip = some o →
      (s.unlockedAddObjectMeta om).objectMetaByQName.lookup (qName o) = some o ∧ ip ∈ o.ips := by
  intro ip o ho
  have hoth : s.metaByIP ip = some o → qName o ≠ qName om →
      (s.unlockedAddObjectMeta om).objectMetaByQName.lookup (qName o) = some o ∧ ip ∈ o.ips := by
    intro hold hne
    rw [byQName_add, if_neg hne]
    exact hsound ip o hold hne
  by_cases hip : ip ∈ om.ips
  · obtain ⟨o', ho', hcase⟩ := metaByIP_add_own hip
    obtain rfl : o' = o := some.inj (ho'.symm.trans ho)
    rcases hcase with rfl | ⟨hold, hne⟩
    · rw [byQName_add, if_pos rfl]
      exact ⟨rfl, hip⟩
    · exact hoth hold hne
  · rw [metaByIP_add_other hip] at ho
    exact hoth ho fun hsame => hip (hkp ip ⟨o, ho, hsame⟩)

theorem created_coherent_iff (h : IPCoherent s) :
    IPCoherent (s.addObjectMeta om) ↔ ∀ ip, HasIP s (qName om) ip → ip ∈ om.ips := by
  rw [addObjectMeta]
  constructor
  · rintro haft ip ⟨current, hcur, hname⟩
    by_contra hip
    -- the index still has the version that was stored before
    have hsame := haft.sound ip current ((metaByIP_add_other hip).trans hcur)
    rw [byQName_add, if_pos hname] at hsame
    obtain rfl : om = current := some.inj hsame.1
    exact hip hsame.2
  · intro hkp
    refine .of_some (sound_add (fun ip o ho _ => h.sound ip o ho) hkp) ?_
    intro qn o ho hfin ip hip
    rw [byQName_add] at ho
    split at ho
    · obtain rfl : om = o := some.inj ho
      obtain ⟨o', ho', -⟩ := metaByIP_add_own hip
      exact ⟨o', ho'⟩
    · obtain ⟨o', ho', -⟩ := h.complete qn o ho hfin ip hip
      exact metaByIP_add_isSome ho'

/-! ### Removing -/

/-- What is left once everything stored under a name is removed. -/
structure Dropped (s t : Store) (qn : QualifiedName) : Prop where
  byQName : ∀ qn', t.objectMetaByQName.lookup qn' =
    if qn' = qn then none else s.objectMetaByQName.lookup qn'
  byIP : ∀ ip o, t.metaByIP ip = some o ↔ s.metaByIP ip = some o ∧ qName o ≠ qn

theorem releaseIP_eq_some {old : Option ObjectMeta} :
    releaseIP om old = some o ↔ old = some o ∧ qName o ≠ qName om := by
  rw [releaseIP, filter_eq_some_iff, decide_eq_true_iff]

theorem dropped_deletePrevious (first : FirstInfo) (om : ObjectMeta) (hkeyed : Keyed s)
    (h : IPCoherent s) :
    Dropped s (s.deletePrevious first om) (qName om) := by
  rw [deletePrevious]
  cases hprev : s.objectMetaByQName.lookup (qName om) with
  | none =>
    refine ⟨fun qn' => ?_, fun ip o => ⟨fun ho => ⟨ho, fun hsame => ?_⟩, fun ho => ho.1⟩⟩
    · by_cases hqn : qn' = qName om
      · rw [if_pos hqn, hqn]
        exact hprev
      · rw [if_neg hqn]
    · have hsto := (h.sound ip o ho).1
      rw [hsame, hprev] at hsto
      cases hsto
  | some previous =>
    have hname : qName previous = qName om := hkeyed _ _ hprev
    refine ⟨fun qn' => ?_, fun ip o => ?_⟩
    · rw [← hname]
      exact byQName_delete qn'
    rw [metaByIP, metaByIP]
    rw [byIP_delete]
    split
    · rw [releaseIP_eq_some, hname]
    · next hip =>
      refine ⟨fun ho => ⟨ho, fun hsame => hip ?_⟩, fun ho => ho.1⟩
      -- the index has only the stored version, which does not list the IP
      have hsto := h.sound ip o ho
      rw [hsame, hprev] at hsto
      obtain rfl : previous = o := some.inj hsto.1
      exact hsto.2

theorem dropped_deleteObjectMeta (first : FirstInfo) (om : ObjectMeta) (hkeyed : Keyed s)
    (h : IPCoherent s) :
    Dropped s (s.deleteObjectMeta first om) (qName om) := by
  have hprev := dropped_deletePrevious first om hkeyed h
  rw [deleteObjectMeta]
  refine ⟨fun qn' => ?_, fun ip o => ?_⟩
  · rw [byQName_delete, hprev.byQName]
    by_cases hqn : qn' = qName om
    · rw [if_pos hqn, if_pos hqn]
    · rw [if_neg hqn]
  · rw [← hprev.byIP, metaByIP, byIP_delete]
    split
    · rw [releaseIP_eq_some]
      refine ⟨fun ho => ho.1, fun ho => ⟨ho, ?_⟩⟩
      exact ((hprev.byIP ip o).mp ho).2
    · exact Iff.rfl

theorem Dropped.sound (hd : Dropped s t qn) (h : IPCoherent s) : ∀ ip o, t.metaByIP ip = some o →
      t.objectMetaByQName.lookup (qName o) = some o ∧ ip ∈ o.ips := by
  intro ip o ho
  obtain ⟨ho, hne⟩ := (hd.byIP ip o).mp ho
  rw [hd.byQName, if_neg hne]
  exact h.sound ip o ho

/-- An IP another object lists is lost exactly when the removed object had it. -/
theorem Dropped.isSome_iff {qn' : QualifiedName} (hd : Dropped s t qn)
    (h : IPCoherent s) (ho : s.objectMetaByQName.lookup qn' = some o)
    (hfin : o.isFinishedPod = false) (hip : ip ∈ o.ips) :
    (∃ o', t.metaByIP ip = some o') ↔ ¬ HasIP s qn ip := by
  obtain ⟨o', ho', -⟩ := h.complete qn' o ho hfin ip hip
  constructor
  · rintro ⟨o₁, ho1⟩ ⟨o₂, ho2, hname⟩
    obtain ⟨hold, hne⟩ := (hd.byIP ip o₁).mp ho1
    obtain rfl : o₁ = o₂ := some.inj (hold.symm.trans ho2)
    exact hne hname
  · intro hnot
    exact ⟨o', (hd.byIP ip o').mpr ⟨ho', fun hname => hnot ⟨o', ho', hname⟩⟩⟩

theorem deleted_coherent_iff (hkeyed : Keyed s) (h : IPCoherent s) :
    IPCoherent (s.deleteObjectMeta first om) ↔
      ∀ ip, HasIP s (qName om) ip → ¬ OtherLists s (qName om) ip := by
  have hd := dropped_deleteObjectMeta first om hkeyed h
  constructor
  · rintro haft ip hhas ⟨qn', o, ho, hne, hfin, hip⟩
    have ho' : (s.deleteObjectMeta first om).objectMetaByQName.lookup qn' = some o := by
      rw [hd.byQName, if_neg hne]
      exact ho
    obtain ⟨o', ho', -⟩ := haft.complete qn' o ho' hfin ip hip
    exact (hd.isSome_iff h ho hfin hip).mp ⟨o', ho'⟩ hhas
  · intro hkp
    refine .of_some (hd.sound h) fun qn' o ho hfin ip hip => ?_
    rw [hd.byQName] at ho
    split at ho
    · cases ho
    · next hne =>
      refine (hd.isSome_iff h ho hfin hip).mpr fun hhas => ?_
      exact hkp ip hhas ⟨qn', o, ho, hne, hfin, hip⟩

theorem updated_coherent_iff (hkeyed : Keyed s) (h : IPCoherent s) :
    IPCoherent (s.updateObjectMeta first om) ↔
      ∀ ip, HasIP s (qName om) ip → ip ∉ om.ips → ¬ OtherLists s (qName om) ip := by
  have hd := dropped_deletePrevious first om hkeyed h
  rw [updateObjectMeta]
  constructor
  · rintro haft ip hhas hnot ⟨qn', o, ho, hne, hfin, hip⟩
    have ho' : ((s.deletePrevious first om).unlockedAddObjectMeta om).objectMetaByQName.lookup
        qn' = some o := by
      rw [byQName_add, if_neg hne, hd.byQName, if_neg hne]
      exact ho
    obtain ⟨o', ho', -⟩ := haft.complete qn' o ho' hfin ip hip
    rw [metaByIP_add_other hnot] at ho'
    exact (hd.isSome_iff h ho hfin hip).mp ⟨o', ho'⟩ hhas
  · intro hkp
    refine .of_some (sound_add (fun ip o ho _ => hd.sound h ip o ho) ?_) ?_
    · rintro ip ⟨current, hcur, hname⟩
      exact absurd hname ((hd.byIP ip current).mp hcur).2
    · intro qn' o ho hfin ip hip
      by_cases hlists : ip ∈ om.ips
      · obtain ⟨o', ho', -⟩ := metaByIP_add_own hlists
        exact ⟨o', ho'⟩
      rw [byQName_add] at ho
      split at ho
      · obtain rfl : om = o := some.inj ho
        exact absurd hip hlists
      · next hne =>
        rw [hd.byQName, if_neg hne] at ho
        rw [metaByIP_add_other hlists]
        refine (hd.isSome_iff h ho hfin hip).mpr fun hhas => ?_
        exact hkp ip hhas hlists ⟨qn', o, ho, hne, hfin, hip⟩

/-! ## Runs -/

theorem keyed_add (h : Keyed s) : Keyed (s.unlockedAddObjectMeta om) := by
  intro qn o ho
  rw [byQName_add] at ho
  split at ho
  · next hqn =>
    obtain rfl : om = o := some.inj ho
    exact hqn.symm
  · exact h qn o ho

theorem keyed_delete (h : Keyed s) : Keyed (s.unlockedDeleteObjectMeta first om) := by
  intro qn o ho
  rw [byQName_delete] at ho
  split at ho
  · cases ho
  · exact h qn o ho

theorem keyed_deletePrevious (h : Keyed s) : Keyed (s.deletePrevious first om) := by
  rw [deletePrevious]
  split
  · exact h
  · exact keyed_delete h

theorem addProcess_indices (pid : PID) (info : Option Container.Info) :
    SameIndices s (s.addProcess pid info) := by
  cases info with
  | none => exact ⟨rfl, rfl⟩
  | some ifp =>
    rw [addProcess]
    cases s.containerByPID.lookup pid with
    | none | some previous => exact ⟨rfl, rfl⟩

theorem deleteProcess_indices (pid : PID) : SameIndices s (s.deleteProcess pid) := by
  rw [deleteProcess]
  split
  · exact ⟨rfl, rfl⟩
  · exact ⟨rfl, rfl⟩

theorem keyed_call (s : Store) (call : StoreCall) (h : Keyed s) : Keyed (s.call call) := by
  match call with
  | .addProcess pid info =>
    intro qn o ho
    rw [Store.call, (addProcess_indices pid info).2] at ho
    exact h qn o ho
  | .deleteProcess pid =>
    intro qn o ho
    rw [Store.call, (deleteProcess_indices pid).2] at ho
    exact h qn o ho
  | .on first ⟨.created, some om⟩ => exact keyed_add h
  | .on first ⟨.updated, some om⟩ => exact keyed_add (keyed_deletePrevious h)
  | .on first ⟨.deleted, some om⟩ => exact keyed_delete (keyed_deletePrevious h)
  | .on first ⟨.created, none⟩ | .on first ⟨.updated, none⟩ | .on first ⟨.deleted, none⟩ => exact h
  | .on first ⟨.syncFinished, _⟩ => exact h

theorem coherent_call_iff (s : Store) (call : StoreCall) (hkeyed : Keyed s)
    (h : IPCoherent s) : IPCoherent (s.call call) ↔ KeepsIPs s call := by
  match call with
  | .addProcess pid info =>
    have hsame := addProcess_indices (s := s) pid info
    exact iff_of_true (.of_same hsame.1 hsame.2 h) trivial
  | .deleteProcess pid =>
    have hsame := deleteProcess_indices (s := s) pid
    exact iff_of_true (.of_same hsame.1 hsame.2 h) trivial
  | .on first ⟨.created, some om⟩ => exact created_coherent_iff h
  | .on first ⟨.updated, some om⟩ => exact updated_coherent_iff hkeyed h
  | .on first ⟨.deleted, some om⟩ => exact deleted_coherent_iff hkeyed h
  | .on first ⟨.created, none⟩ | .on first ⟨.updated, none⟩ => exact iff_of_true h trivial
  | .on first ⟨.deleted, none⟩ => exact iff_of_true h trivial
  | .on first ⟨.syncFinished, _⟩ => exact iff_of_true ⟨h.sound, h.complete⟩ trivial

/-- The index by IP stays coherent throughout a run exactly when no event of it
creates a known object without an IP the index has for it, or takes from the
index an IP another stored object lists. -/
theorem ip_index_coherent_iff (calls : List StoreCall) :
    (∀ before, before <+: calls → IPCoherent (before.foldl Store.call newStore)) ↔
      Along Store.call KeepsIPs newStore calls := by
  have hkeyed : Keyed newStore := by
    intro qn o ho
    cases ho
  have hcoherent : IPCoherent newStore := by
    refine ⟨fun ip o ho => ?_, fun qn o ho => ?_⟩
    · cases ho
    · cases ho
  exact (along_iff keyed_call coherent_call_iff hkeyed hcoherent calls).symm

/-- A service whose IP changes while the connection to the cache is lost. -/
def recreatedService : List StoreCall :=
  [.on (fun _ => none) ⟨.created, some ⟨"web", "default", "Service", ["10.0.0.1"], none, 1⟩⟩,
   .on (fun _ => none) ⟨.created, some ⟨"web", "default", "Service", ["10.0.0.2"], none, 2⟩⟩]

/-- Two services behind one IP, of which the one that came last is deleted. -/
def sharedAddress : List StoreCall :=
  [.on (fun _ => none) ⟨.created, some ⟨"a", "default", "Service", ["10.0.0.1"], none, 1⟩⟩,
   .on (fun _ => none) ⟨.created, some ⟨"b", "default", "Service", ["10.0.0.1"], none, 1⟩⟩,
   .on (fun _ => none) ⟨.deleted, some ⟨"b", "default", "Service", ["10.0.0.1"], none, 2⟩⟩]

/-- In the first run the index keeps a version that is no longer stored; in the
second an IP of a stored service is not found. -/
theorem ip_index_incoherent : ((recreatedService.foldl Store.call newStore).metaByIP "10.0.0.1" =
        some ⟨"web", "default", "Service", ["10.0.0.1"], none, 1⟩ ∧
      (recreatedService.foldl Store.call newStore).objectMetaByQName.lookup
        ⟨"web", "default", "Service"⟩ = some ⟨"web", "default", "Service", ["10.0.0.2"], none, 2⟩) ∧
    ((sharedAddress.foldl Store.call newStore).objectMetaByQName.lookup
        ⟨"a", "default", "Service"⟩ = some ⟨"a", "default", "Service", ["10.0.0.1"], none, 1⟩ ∧
      (sharedAddress.foldl Store.call newStore).metaByIP "10.0.0.1" = none) ∧
    ¬ IPCoherent (recreatedService.foldl Store.call newStore) ∧
    ¬ IPCoherent (sharedAddress.foldl Store.call newStore) := by
  have hrecr : (recreatedService.foldl Store.call newStore).metaByIP "10.0.0.1" =
        some ⟨"web", "default", "Service", ["10.0.0.1"], none, 1⟩ ∧
      (recreatedService.foldl Store.call newStore).objectMetaByQName.lookup
        ⟨"web", "default", "Service"⟩ =
          some ⟨"web", "default", "Service", ["10.0.0.2"], none, 2⟩ := by
    decide +kernel
  have hshared : (sharedAddress.foldl Store.call newStore).objectMetaByQName.lookup
        ⟨"a", "default", "Service"⟩ = some ⟨"a", "default", "Service", ["10.0.0.1"], none, 1⟩ ∧
      (sharedAddress.foldl Store.call newStore).metaByIP "10.0.0.1" = none := by
    decide +kernel
  refine ⟨hrecr, hshared, fun h => ?_, fun h => ?_⟩
  · have hsto := (h.sound _ _ hrecr.1).1
    have heq := hrecr.2.symm.trans hsto
    exact absurd (some.inj heq) (by decide)
  · obtain ⟨o, ho, -⟩ := h.complete _ _ hshared.1 rfl "10.0.0.1" (by decide)
    cases ho

end Obi.Refine
