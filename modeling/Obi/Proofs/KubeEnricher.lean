import Obi.Proofs.KubeProcesses
import Obi.Ref.KubeEnricher

/-!
# The processes of a container are handed on with their pod

Two sources meet in the enricher: the loop puts a process into the table of its
container before it asks the store for the pod, and the store has the pod before `On`
queues it. So a process whose lookup finds nothing is in the table before the pod is
taken off the queue, and a pod that finds no process in the table was recorded before
the process asks. The invariant says it from the side of the table: once the process is
in it and the pod was handled, the process was told, unless its lookup is still to come.
-/

namespace Obi.Refine
open Lib Ref List KubeEnricher Table

/-- The object lists the container. -/
def ListsContainer (om : ObjectMeta) (c : String) : Prop := c ∈ om.containers.map ContainerInfo.id

/-! ## What the loop has handled -/

inductive EnricherHandled
  | processEvents (events : List (Event ProcessAttrs))
  | podEvent (event : Event ObjectMeta)

/-- What a step completes: the handling of a pod event, or of a batch of process
events, which ends with the events it sends. -/
def handledBy (wk : KubeEnricher) : EnrichEvent → List EnricherHandled
  | .advance _ => match wk.loop with
    | .enriching processEvents [] _ => [.processEvents processEvents]
    | .draining (_ + 1) => (wk.podEvents.take 1).map .podEvent
    | _ => []
  | _ => []

def enrichStep (texts : ObjectTexts) (s : KubeEnricher × List EnricherHandled) (e : EnrichEvent) :
    KubeEnricher × List EnricherHandled :=
  (s.1.step texts e, s.2 ++ handledBy s.1 e)

section
variable (texts : ObjectTexts) (P : ObjectMeta) (c : String) (pid : PID)

/-- The event is one of those that may happen around the process and the pod `P` of its
container: nothing but `P` lists the container, `P` is recorded before `On` is called for
it and neither is taken away, and the container of the process is found. -/
def Interleaves (wk : KubeEnricher) : EnrichEvent → Prop
  | .store (.on _ event) => ∀ om, event.resource = some om → (om = P ∧ event.type ≠ .deleted) ∨
        (¬ ListsContainer om c ∧ c ∉ (storedContainers wk.store om).map ContainerInfo.id)
  | .store _ => True
  | .on event => ∀ om, event.resource = some om → ListsContainer om c →
      om = P ∧ event.type ≠ .deleted ∧ wk.store.podsByContainer.lookup c = some P
  | .signalPodEvents => True
  | .wake => wk.loop = .idle ∧ wk.podEventsReady = true
  | .receive events => wk.loop = .idle ∧ ∀ e ∈ events, e.obj.pid = pid → e.type = .created
  | .advance info => ∀ batch e rest out, wk.loop = .enriching batch (e :: rest) out →
      e.obj.pid = pid → ∃ n, info = .ok ⟨c, n⟩

/-- The event creates the process. -/
def Creates (e : Event ProcessAttrs) : Prop := e.type = .created ∧ e.obj.pid = pid

/-- The event creates the process with the metadata of its pod. -/
def CarriesPod (e : Event ProcessAttrs) : Prop :=
  ∃ pp : ProcessAttrs, pp.pid = pid ∧ e = ⟨.created, withMetadata texts pp P c⟩

/-! ## The invariant -/

/-- The events of the batch at hand that the loop did not come to yet. -/
def loopRest : EnrichLoop → List (Event ProcessAttrs)
  | .enriching _ rest _ | .lookingUp _ _ _ rest _ => rest
  | _ => []

def loopBatch : EnrichLoop → List (Event ProcessAttrs)
  | .enriching batch _ _ | .lookingUp _ _ batch _ _ => batch
  | _ => []

/-- What the loop will send at the end of the batch. -/
def loopUnsent : EnrichLoop → List (Event ProcessAttrs)
  | .enriching _ _ out | .lookingUp _ _ _ _ out => out
  | _ => []

def loopLooksUp : EnrichLoop → Prop
  | .lookingUp procInfo _ _ _ _ => procInfo.pid = pid
  | _ => False

/-- The process is in the table of its container. -/
def InTable (wk : KubeEnricher) : Prop :=
  ∃ procs, wk.processByContainer.lookup c = some procs ∧ ∃ p ∈ procs, p.pid = pid

structure Enriched (wk : KubeEnricher) (done : List EnricherHandled) : Prop where
  pods : ∀ om, wk.store.podsByContainer.lookup c = some om → om = P
  queued : ∀ e ∈ wk.podEvents, ListsContainer e.obj c →
    e = ⟨.created, P⟩ ∧ wk.store.podsByContainer.lookup c = some P
  handled : .podEvent ⟨.created, P⟩ ∈ done → wk.store.podsByContainer.lookup c = some P
  cached : ∀ info, wk.containerByPID.lookup pid = some info → info.containerID = c
  placed : ∀ id procs, wk.processByContainer.lookup id = some procs →
    ∀ p ∈ procs, p.pid = pid → id = c
  sent : ∀ e ∈ wk.output.flatten, Creates pid e → CarriesPod texts P c pid e
  unsent : ∀ e ∈ loopUnsent wk.loop, Creates pid e → CarriesPod texts P c pid e
  rest : ∀ e ∈ loopRest wk.loop, e.obj.pid = pid → e.type = .created
  passed : ∀ e ∈ loopBatch wk.loop, Creates pid e → e ∈ loopRest wk.loop ∨ InTable c pid wk
  looking : ∀ proc id batch rest out, wk.loop = .lookingUp proc id batch rest out →
    proc.pid = pid → id = c ∧ InTable c pid wk
  told : InTable c pid wk → .podEvent ⟨.created, P⟩ ∈ done →
    (∃ e ∈ wk.output.flatten ++ loopUnsent wk.loop, CarriesPod texts P c pid e) ∨
      loopLooksUp pid wk.loop
  both : ∀ batch, .processEvents batch ∈ done → (∃ e ∈ batch, Creates pid e) →
    InTable c pid wk ∧ (.podEvent ⟨.created, P⟩ ∈ done →
      ∃ e ∈ wk.output.flatten, CarriesPod texts P c pid e)

end

variable {texts : ObjectTexts} {P : ObjectMeta} {c : String} {pid : PID} {wk : KubeEnricher}
  {done : List EnricherHandled} {info : Except ContainerError Container.Info} {call : StoreCall}
  {id : String} {t : Table String (List ProcessAttrs)}

theorem enriched_new : Enriched texts P c pid newWatcherKubeEnricher [] := by
  constructor <;>
    simp [newWatcherKubeEnricher, newStore, loopUnsent, loopRest, loopBatch]

/-! ## The store and the queue -/

theorem listsContainer_added {om : ObjectMeta} {type : EventType}
    (h : c ∈ (addedContainers om type).map ContainerInfo.id) : ListsContainer om c := by
  cases type with
  | created | updated => exact h
  | deleted | syncFinished => cases h

theorem pods_deleteProcess (s : Store) (q : PID) :
    (s.deleteProcess q).podsByContainer = s.podsByContainer := by
  rw [Store.deleteProcess]
  split <;> rfl

/-- The container's pod stays as it is, or becomes `P`. -/
theorem pods_call (hP : ListsContainer P c) (hcall : Interleaves P c pid wk (.store call)) :
    (wk.store.call call).podsByContainer.lookup c = wk.store.podsByContainer.lookup c ∨
      (wk.store.call call).podsByContainer.lookup c = some P := by
  cases call with
  | addProcess pid info =>
    refine .inl ?_
    cases info with
    | none => rfl
    | some info =>
      simp only [Store.call, Store.addProcess]
      split <;> rfl
  | deleteProcess pid => exact .inl (by rw [Store.call, pods_deleteProcess])
  | on first event =>
    obtain ⟨type, resource⟩ := event
    cases resource with
    | none => cases type <;> exact .inl rfl
    | some om =>
      obtain ⟨t, hrms, hadds⟩ := on_removes_adds wk.store first om type
      simp only [Store.call, hadds.pods, hrms.pods]
      rcases hcall om rfl with ⟨rfl, htype⟩ | ⟨hlists, hsto⟩
      · cases type with
        | created | updated => exact .inr (if_pos hP)
        | deleted => exact absurd rfl htype
        | syncFinished => exact .inl rfl
      rw [if_neg fun h => hlists (listsContainer_added h), if_neg]
      · exact .inl rfl
      · cases type with
        | created => exact not_mem_nil
        | updated => exact hsto
        | deleted =>
          rw [removedContainers, map_append, mem_append, not_or]
          exact ⟨hsto, hlists⟩
        | syncFinished => exact not_mem_nil

theorem enriched_store (hP : ListsContainer P c) (h : Enriched texts P c pid wk done)
    (hcall : Interleaves P c pid wk (.store call)) :
    Enriched texts P c pid { wk with store := wk.store.call call } done := by
  have hpods := pods_call hP hcall
  have hkept : wk.store.podsByContainer.lookup c = some P →
      (wk.store.call call).podsByContainer.lookup c = some P := by
    intro hsome
    rcases hpods with heq | heq
    · exact heq.trans hsome
    · exact heq
  refine { h with pods := ?pods, queued := ?queued, handled := fun hin => hkept (h.handled hin) }
  case pods =>
    intro om hom
    rcases hpods with heq | heq
    · exact h.pods om (heq.symm.trans hom)
    · exact (Option.some.inj (heq.symm.trans hom)).symm
  case queued =>
    intro e he hlists
    exact ⟨(h.queued e he hlists).1, hkept (h.queued e he hlists).2⟩

theorem on_podEvents (wk : KubeEnricher) (event : KubeEvent) :
    ∃ added, wk.on event = { wk with podEvents := wk.podEvents ++ added } ∧
      ∀ e ∈ added, event.resource = some e.obj ∧
        ((e.type = .created ∧ event.type ≠ .deleted) ∨ event.type = .deleted) := by
  obtain ⟨type, resource⟩ := event
  cases resource with
  | none => exact ⟨[], by rw [append_nil]; rfl, forall_mem_nil _⟩
  | some om =>
    simp only [on]
    split
    · exact ⟨[], by rw [append_nil], forall_mem_nil _⟩
    · cases type with
      | created | updated => exact ⟨_, rfl, forall_mem_singleton.mpr ⟨rfl, .inl ⟨rfl, by decide⟩⟩⟩
      | deleted => exact ⟨_, rfl, forall_mem_singleton.mpr ⟨rfl, .inr rfl⟩⟩
      | syncFinished => exact ⟨[], by rw [append_nil], forall_mem_nil _⟩

theorem enriched_on (h : Enriched texts P c pid wk done) {event : KubeEvent}
    (hevent : Interleaves P c pid wk (.on event)) :
    Enriched texts P c pid (wk.on event) done := by
  obtain ⟨added, heq, hadded⟩ := on_podEvents wk event
  rw [heq]
  refine { h with queued := ?queued }
  case queued =>
    intro e he hlists
    rcases mem_append.mp he with he | he
    · exact h.queued e he hlists
    obtain ⟨hresource, htype⟩ := hadded e he
    obtain ⟨hobj, hdeleted, hpod⟩ := hevent _ hresource hlists
    obtain ⟨htype, -⟩ := htype.resolve_right hdeleted
    refine ⟨?_, hpod⟩
    obtain ⟨t, om⟩ := e
    rw [show t = .created from htype, show om = P from hobj]

/-! ## Pod events -/

theorem send_output (wk : KubeEnricher) (events : List (Event ProcessAttrs)) :
    ∃ output, wk.send events = { wk with output := output } ∧
      output.flatten = wk.output.flatten ++ events := by
  rw [send]
  split
  · next hemp =>
    rw [isEmpty_iff.mp hemp, append_nil]
    exact ⟨_, rfl, rfl⟩
  · exact ⟨_, rfl, by rw [flatten_append, flatten_singleton]⟩

variable {pod : ObjectMeta}

theorem mem_onNewPod {e : Event ProcessAttrs} :
    e ∈ wk.onNewPod texts pod ↔ ∃ cnt ∈ pod.containers, ∃ procs,
      wk.processByContainer.lookup cnt.id = some procs ∧
        ∃ p ∈ procs, e = ⟨.created, withMetadata texts p pod cnt.id⟩ := by
  simp only [onNewPod, mem_flatMap]
  refine exists_congr fun cnt => and_congr_right fun _ => ?_
  cases wk.processByContainer.lookup cnt.id with
  | none => simp
  | some procs => simp [eq_comm]

theorem lookup_eraseAll {V : Type} (procs : List ProcessAttrs) (m : Table PID V) {q : PID} {v : V}
    (h : (procs.foldl (fun m p => m.erase p.pid) m).lookup q = some v) : m.lookup q = some v := by
  induction procs generalizing m with
  | nil => exact h
  | cons p rest ih =>
    have hrest := ih (m.erase p.pid) h
    rw [get_erase] at hrest
    split at hrest
    · cases hrest
    · exact hrest

/-- Deleting a pod takes its containers out of the tables and adds nothing to them. -/
theorem onDeletedContainers_tables (containers : List ContainerInfo) (wk : KubeEnricher) :
    ∃ byPID byContainer, containers.foldl onDeletedContainer wk =
        { wk with containerByPID := byPID, processByContainer := byContainer } ∧
      (∀ q info, byPID.lookup q = some info → wk.containerByPID.lookup q = some info) ∧
      (∀ id procs, byContainer.lookup id = some procs →
        wk.processByContainer.lookup id = some procs) ∧
      ∀ id, id ∉ containers.map ContainerInfo.id →
        byContainer.lookup id = wk.processByContainer.lookup id := by
  induction containers generalizing wk with
  | nil => exact ⟨_, _, rfl, fun _ _ h => h, fun _ _ h => h, fun _ _ => rfl⟩
  | cons cnt rest ih =>
    obtain ⟨byPID, byContainer, heq, hpid, hsome, hoth⟩ := ih (wk.onDeletedContainer cnt)
    refine ⟨byPID, byContainer, heq, fun q info h => ?_, fun id procs h => ?_, fun id hid => ?_⟩
    · exact lookup_eraseAll _ _ (hpid q info h)
    · have hkept := hsome id procs h
      rw [onDeletedContainer, get_erase] at hkept
      split at hkept
      · cases hkept
      · exact hkept
    · rw [map_cons, mem_cons, not_or] at hid
      rw [hoth id hid.2, onDeletedContainer, get_erase, if_neg hid.1]

theorem mem_of_mem_concat {x y : EnricherHandled} (h : x ∈ done ++ [y]) (hne : x ≠ y) : x ∈ done :=
  (mem_append.mp h).resolve_right fun hx => hne (mem_singleton.mp hx)

/-- A pod event about another pod, as far as the process is concerned. -/
theorem Enriched.append_other (h : Enriched texts P c pid wk done) {e : Event ObjectMeta}
    (hne : e ≠ ⟨.created, P⟩) : Enriched texts P c pid wk (done ++ [.podEvent e]) := by
  have hin : EnricherHandled.podEvent ⟨.created, P⟩ ∈ done ++ [.podEvent e] →
      .podEvent ⟨.created, P⟩ ∈ done :=
    fun hmem => mem_of_mem_concat hmem fun heq => hne (EnricherHandled.podEvent.inj heq).symm
  refine
    { h with
      handled := fun hmem => h.handled (hin hmem)
      told := fun htab hmem => h.told htab (hin hmem)
      both := ?both }
  case both =>
    intro batch hbat hmake
    replace hbat := mem_of_mem_concat hbat nofun
    exact ⟨(h.both batch hbat hmake).1, fun hmem => (h.both batch hbat hmake).2 (hin hmem)⟩

theorem carries_of_onNewPod (h : Enriched texts P c pid wk done)
    (hpod : ListsContainer pod c → pod = P) {e : Event ProcessAttrs}
    (he : e ∈ wk.onNewPod texts pod) (hmake : Creates pid e) : CarriesPod texts P c pid e := by
  obtain ⟨cnt, hcnt, procs, hprocs, p, hp, rfl⟩ := mem_onNewPod.mp he
  have hpid : p.pid = pid := hmake.2
  have hc : cnt.id = c := h.placed _ _ hprocs p hp hpid
  obtain rfl : pod = P := hpod (mem_map.mpr ⟨cnt, hcnt, hc⟩)
  exact ⟨p, hpid, by rw [hc]⟩

theorem onNewPod_of_inTable (hP : ListsContainer P c) (htab : InTable c pid wk) :
    ∃ e ∈ wk.onNewPod texts P, CarriesPod texts P c pid e := by
  obtain ⟨procs, hprocs, p, hp, hpid⟩ := htab
  obtain ⟨cnt, hcnt, rfl⟩ := mem_map.mp hP
  exact ⟨_, mem_onNewPod.mpr ⟨cnt, hcnt, procs, hprocs, p, hp, rfl⟩, p, hpid, rfl⟩

/-- The pod of the container, taken off the queue, is told to the process in the table. -/
theorem enriched_newPod (hP : ListsContainer P c) (h : Enriched texts P c pid wk done)
    (hloop : loopUnsent wk.loop = [] ∧ ¬ loopLooksUp pid wk.loop)
    (hpod : ListsContainer pod c → pod = P ∧ wk.store.podsByContainer.lookup c = some P) :
    Enriched texts P c pid (wk.send (wk.onNewPod texts pod))
      (done ++ [.podEvent ⟨.created, pod⟩]) := by
  obtain ⟨output, heq, hflat⟩ := send_output wk (wk.onNewPod texts pod)
  rw [heq]
  have hlater : InTable c pid wk → .podEvent ⟨.created, P⟩ ∈ done ++ [.podEvent ⟨.created, pod⟩] →
      ∃ e ∈ output.flatten, CarriesPod texts P c pid e := by
    intro htab hmem
    rw [hflat]
    rcases mem_append.mp hmem with hmem | hmem
    · rcases h.told htab hmem with ⟨e, he, hcar⟩ | hlooks
      · rw [hloop.1, append_nil] at he
        exact ⟨e, mem_append_left _ he, hcar⟩
      · exact absurd hlooks hloop.2
    · cases mem_singleton.mp hmem
      obtain ⟨e, he, hcar⟩ : ∃ e ∈ wk.onNewPod texts P, CarriesPod texts P c pid e :=
        onNewPod_of_inTable hP htab
      exact ⟨e, mem_append_right _ he, hcar⟩
  refine
    { h with handled := ?handled, sent := ?sent, told := fun htab hmem => ?told, both := ?both }
  case handled =>
    intro hmem
    rcases mem_append.mp hmem with hmem | hmem
    · exact h.handled hmem
    · cases mem_singleton.mp hmem
      exact (hpod hP).2
  case sent =>
    intro e he hmake
    rw [hflat] at he
    rcases mem_append.mp he with he | he
    · exact h.sent e he hmake
    · exact carries_of_onNewPod h (fun hlists => (hpod hlists).1) he hmake
  case told =>
    obtain ⟨e, he, hcar⟩ := hlater htab hmem
    exact .inl ⟨e, mem_append_left _ he, hcar⟩
  case both =>
    intro batch hbat hmake
    replace hbat := mem_of_mem_concat hbat nofun
    have htab := (h.both batch hbat hmake).1
    exact ⟨htab, hlater htab⟩

theorem enriched_deletedPod (h : Enriched texts P c pid wk done)
    (hpod : ¬ ListsContainer pod c) : Enriched texts P c pid (wk.onDeletedPod pod) done := by
  obtain ⟨byPID, byContainer, heq, hpid, hsome, hoth⟩ :=
    onDeletedContainers_tables pod.containers wk
  rw [onDeletedPod, heq]
  have htab : InTable c pid { wk with containerByPID := byPID, processByContainer := byContainer }
      ↔ InTable c pid wk := by
    rw [InTable, InTable, hoth c hpod]
  refine
    { h with
      cached := fun info hinfo => h.cached info (hpid _ _ hinfo)
      placed := fun id procs hprocs => h.placed id procs (hsome id procs hprocs)
      passed := ?passed
      looking := ?looking
      told := fun hin => h.told (htab.mp hin)
      both := ?both }
  case passed =>
    intro e he hmake
    rw [htab]
    exact h.passed e he hmake
  case looking =>
    intro proc id batch rest out hloop hproc
    rw [htab]
    exact h.looking proc id batch rest out hloop hproc
  case both =>
    intro batch hbat hmake
    rw [htab]
    exact h.both batch hbat hmake

/-! ## Process events -/

section
variable {procs : List ProcessAttrs} {proc p : ProcessAttrs}

theorem mem_upsertProcess (h : p ∈ upsertProcess procs proc) : p ∈ procs ∨ p = proc := by
  fun_induction upsertProcess procs proc with
  | case1 => exact .inr (mem_singleton.mp h)
  | case2 q rest _ => exact (mem_cons.mp h).symm.imp_left (mem_cons_of_mem _)
  | case3 q rest _ ih =>
    rcases mem_cons.mp h with rfl | h
    · exact .inl mem_cons_self
    · exact (ih h).imp_left (mem_cons_of_mem _)

theorem upsertProcess_self (procs : List ProcessAttrs) (proc : ProcessAttrs) :
    proc ∈ upsertProcess procs proc := by
  fun_induction upsertProcess procs proc with
  | case1 | case2 => exact mem_cons_self
  | case3 q rest _ ih => exact mem_cons_of_mem _ ih

theorem upsertProcess_keeps (proc : ProcessAttrs) (h : p ∈ procs) :
    ∃ p' ∈ upsertProcess procs proc, p'.pid = p.pid := by
  fun_induction upsertProcess procs proc with
  | case1 => cases h
  | case2 q rest hq =>
    rcases mem_cons.mp h with rfl | h
    · exact ⟨proc, mem_cons_self, hq.symm⟩
    · exact ⟨p, mem_cons_of_mem _ h, rfl⟩
  | case3 q rest _ ih =>
    rcases mem_cons.mp h with rfl | h
    · exact ⟨p, mem_cons_self, rfl⟩
    · obtain ⟨p', hp', hpid⟩ := ih h
      exact ⟨p', mem_cons_of_mem _ hp', hpid⟩

/-- The processes of a container, none when it is not in the table. -/
theorem mem_getD_lookup :
    p ∈ (t.lookup id).getD [] ↔ ∃ procs, t.lookup id = some procs ∧ p ∈ procs := by
  cases t.lookup id with
  | none => exact ⟨fun h => (nomatch h), fun ⟨_, h, _⟩ => (nomatch h)⟩
  | some procs => exact ⟨fun h => ⟨procs, rfl, h⟩, fun ⟨_, h, hp⟩ => Option.some.inj h ▸ hp⟩

theorem inTable_iff : InTable c pid wk ↔
    ∃ p ∈ (wk.processByContainer.lookup c).getD [], p.pid = pid := by
  simp only [mem_getD_lookup]
  exact ⟨fun ⟨procs, hprocs, p, hp, hpid⟩ => ⟨p, ⟨procs, hprocs, hp⟩, hpid⟩,
    fun ⟨p, ⟨procs, hprocs, hp⟩, hpid⟩ => ⟨procs, hprocs, p, hp, hpid⟩⟩

theorem Enriched.mem_placed (h : Enriched texts P c pid wk done)
    (hp : p ∈ (wk.processByContainer.lookup id).getD []) (hpid : p.pid = pid) : id = c := by
  obtain ⟨procs, hprocs, hp⟩ := mem_getD_lookup.mp hp
  exact h.placed id procs hprocs p hp hpid

end

/-- The loop goes on with the same tables. -/
theorem Enriched.goOn (h : Enriched texts P c pid wk done)
    {batch rest out : List (Event ProcessAttrs)}
    (huns : ∀ e ∈ out, Creates pid e → CarriesPod texts P c pid e)
    (hrest : ∀ e ∈ rest, e.obj.pid = pid → e.type = .created)
    (hpass : ∀ e ∈ batch, Creates pid e → e ∈ rest ∨ InTable c pid wk)
    (htold : InTable c pid wk → .podEvent ⟨.created, P⟩ ∈ done →
      ∃ e ∈ wk.output.flatten ++ out, CarriesPod texts P c pid e) :
    Enriched texts P c pid { wk with loop := .enriching batch rest out } done :=
  { h with
    unsent := huns
    rest := hrest
    passed := hpass
    looking := fun _ _ _ _ _ hloop => by cases hloop
    told := fun htab hmem => .inl (htold htab hmem) }

section
variable {batch rest out : List (Event ProcessAttrs)} {e : Event ProcessAttrs}

section
variable (h : Enriched texts P c pid wk done)
include h

/-- An event that does not create the process is passed. -/
theorem passed_of_not_creates
    (hloop : wk.loop = .enriching batch (e :: rest) out) (he : ¬ Creates pid e) :
    ∀ e' ∈ batch, Creates pid e' → e' ∈ rest ∨ InTable c pid wk := by
  intro e' hmem hmake
  have hpass := h.passed e' (by rw [hloop]; exact hmem) hmake
  rw [hloop] at hpass
  rcases hpass with hrest | htab
  · rcases mem_cons.mp hrest with rfl | hrest
    · exact absurd hmake he
    · exact .inl hrest
  · exact .inr htab

theorem told_of_enriching (hloop : wk.loop = .enriching batch rest out)
    (htab : InTable c pid wk) (hmem : .podEvent ⟨.created, P⟩ ∈ done) :
    ∃ e ∈ wk.output.flatten ++ out, CarriesPod texts P c pid e := by
  have htold := h.told htab hmem
  rw [hloop] at htold
  rcases htold with htold | hlooks
  · exact htold
  · cases hlooks

/-- An event about another process leaves the process as it is, whatever is sent for it. -/
theorem enriched_pass (hloop : wk.loop = .enriching batch (e :: rest) out) (he : ¬ Creates pid e)
    {more : List (Event ProcessAttrs)} (hmore : ∀ e' ∈ more, ¬ Creates pid e') :
    Enriched texts P c pid { wk with loop := .enriching batch rest (out ++ more) } done := by
  have huns := h.unsent
  have hrest := h.rest
  rw [hloop] at huns hrest
  refine h.goOn ?_ (fun e' he' => hrest e' (mem_cons_of_mem _ he'))
    (passed_of_not_creates h hloop he) ?_
  · intro e' he' hmake
    rcases mem_append.mp he' with he' | he'
    · exact huns e' he' hmake
    · exact absurd hmake (hmore e' he')
  · intro htab hmem
    obtain ⟨e', he', hcar⟩ := told_of_enriching h hloop htab hmem
    rw [← append_assoc]
    exact ⟨e', mem_append_left _ he', hcar⟩

end

theorem mem_register {j : String} {proc p : ProcessAttrs}
    (h : p ∈ ((t.insert id (upsertProcess ((t.lookup id).getD []) proc)).lookup j).getD []) :
    p ∈ (t.lookup j).getD [] ∨ (j = id ∧ p = proc) := by
  rw [get_insert] at h
  split at h
  · next hj =>
    rw [hj]
    exact (mem_upsertProcess h).imp_right fun hp => ⟨rfl, hp⟩
  · exact .inl h

/-- The process is put into the table of its container. -/
theorem enriched_register (h : Enriched texts P c pid wk done)
    (hloop : wk.loop = .enriching batch (e :: rest) out)
    {byPID : Table PID Container.Info}
    (hcach : ∀ cnt, byPID.lookup pid = some cnt → cnt.containerID = c)
    (hid : e.obj.pid = pid → id = c) :
    Enriched texts P c pid { wk with
        containerByPID := byPID
        processByContainer := wk.processByContainer.insert id
          (upsertProcess ((wk.processByContainer.lookup id).getD []) e.obj)
        loop := .lookingUp e.obj id batch rest out } done := by
  have huns := h.unsent
  have hrest := h.rest
  rw [hloop] at huns hrest
  have htab : InTable c pid wk ∨ e.obj.pid = pid → InTable c pid { wk with
        containerByPID := byPID
        processByContainer := wk.processByContainer.insert id
          (upsertProcess ((wk.processByContainer.lookup id).getD []) e.obj)
        loop := .lookingUp e.obj id batch rest out } := by
    rw [inTable_iff, inTable_iff, get_insert]
    rintro (⟨p, hp, hpid⟩ | hpid)
    · split
      · next hc =>
        obtain ⟨p', hp', hsame⟩ := upsertProcess_keeps e.obj (hc ▸ hp)
        exact ⟨p', hp', hsame.trans hpid⟩
      · exact ⟨p, hp, hpid⟩
    · rw [if_pos (hid hpid).symm]
      exact ⟨e.obj, upsertProcess_self _ _, hpid⟩
  refine
    { h with
      cached := hcach
      placed := ?placed
      unsent := huns
      rest := fun e' he' => hrest e' (mem_cons_of_mem _ he')
      passed := ?passed
      looking := ?looking
      told := ?told
      both := fun batch hbat hmake =>
        ⟨htab (.inl (h.both batch hbat hmake).1), (h.both batch hbat hmake).2⟩ }
  case placed =>
    intro j procs hprocs p hp hpid
    rcases mem_register (mem_getD_lookup.mpr ⟨procs, hprocs, hp⟩) with hp | ⟨rfl, rfl⟩
    · exact h.mem_placed hp hpid
    · exact hid hpid
  case passed =>
    intro e' he' hmake
    by_cases he : Creates pid e
    · exact .inr (htab (.inr he.2))
    · exact (passed_of_not_creates h hloop he e' he' hmake).imp_right (htab ∘ .inl)
  case looking =>
    intro proc j batch' rest' out' heq hpid
    cases heq
    exact ⟨hid hpid, htab (.inr hpid)⟩
  case told =>
    intro hin hmem
    by_cases hpid : e.obj.pid = pid
    · exact .inr hpid
    obtain ⟨p, hp, hp'⟩ := inTable_iff.mp hin
    rcases mem_register hp with hp | ⟨-, rfl⟩
    · have htold := told_of_enriching h hloop (inTable_iff.mpr ⟨p, hp, hp'⟩) hmem
      exact .inl htold
    · exact absurd hp' hpid

theorem enriched_onNewProcess (h : Enriched texts P c pid wk done)
    (hloop : wk.loop = .enriching batch (e :: rest) out)
    (hinfo : e.obj.pid = pid → ∃ n, info = .ok ⟨c, n⟩) :
    Enriched texts P c pid (wk.onNewProcess e.obj info batch rest out) done := by
  cases hcache : wk.containerByPID.lookup e.obj.pid with
  | some cnt =>
    simp only [onNewProcess, getContainerInfo, hcache]
    exact enriched_register h hloop h.cached fun hpid => h.cached cnt (hpid ▸ hcache)
  | none =>
    simp only [onNewProcess, getContainerInfo, hcache]
    cases info with
    | error err =>
      have hoth : e.obj.pid ≠ pid := by
        intro hpid
        obtain ⟨n, hn⟩ := hinfo hpid
        cases hn
      have he : ¬ Creates pid e := fun hmake => hoth hmake.2
      have hself : ∀ e' ∈ [(⟨.created, e.obj⟩)], ¬ Creates pid e' := by
        intro e' he' hmake
        rw [mem_singleton.mp he'] at hmake
        exact hoth hmake.2
      cases err with
      | unknownKubeletCgroup | containerNotFound => exact enriched_pass h hloop he hself
      | other =>
        have hnone : Enriched texts P c pid
            { wk with loop := .enriching batch rest (out ++ []) } done :=
          enriched_pass h hloop he fun e' he' => by cases he'
        rw [append_nil] at hnone
        exact hnone
    | ok cnt =>
      have hcnt : e.obj.pid = pid → cnt.containerID = c := by
        intro hpid
        obtain ⟨n, hn⟩ := hinfo hpid
        cases hn
        rfl
      refine enriched_register h hloop (fun cnt' hcnt' => ?_) hcnt
      rw [get_insert] at hcnt'
      split at hcnt'
      · next hpid =>
        cases hcnt'
        exact hcnt hpid.symm
      · exact h.cached cnt' hcnt'

/-- A process that ends is taken out of the table, and no other is. -/
theorem onProcessTerminate_tables (wk : KubeEnricher) (proc : ProcessAttrs) :
    ∃ byContainer, wk.onProcessTerminate proc = { wk with
        processByContainer := byContainer
        containerByPID := wk.containerByPID.erase proc.pid
        store := wk.store.deleteProcess proc.pid } ∧
      ∀ id p, (p ∈ (byContainer.lookup id).getD [] →
          p ∈ (wk.processByContainer.lookup id).getD []) ∧
        (p.pid ≠ proc.pid → p ∈ (wk.processByContainer.lookup id).getD [] →
          p ∈ (byContainer.lookup id).getD []) := by
  refine ⟨_, rfl, fun id p => ?_⟩
  split
  · exact ⟨fun hp => hp, fun _ hp => hp⟩
  split
  · exact ⟨fun hp => hp, fun _ hp => hp⟩
  next cnt _ procInfos hprocs =>
  have hmem : p ∈ procInfos.filter (fun p => p.pid ≠ proc.pid) ↔
      p ∈ procInfos ∧ p.pid ≠ proc.pid := by
    rw [mem_filter, decide_eq_true_iff]
  simp only
  split
  · next hemp =>
    rw [isEmpty_iff.mp hemp] at hmem
    rw [get_erase]
    split
    · next hid =>
      rw [hid, hprocs]
      exact ⟨fun hp => (nomatch hp), fun hne hp => hmem.mpr ⟨hp, hne⟩⟩
    · exact ⟨fun hp => hp, fun _ hp => hp⟩
  · rw [get_insert]
    split
    · next hid =>
      rw [hid, hprocs]
      exact ⟨fun hp => (hmem.mp hp).1, fun hne hp => hmem.mpr ⟨hp, hne⟩⟩
    · exact ⟨fun hp => hp, fun _ hp => hp⟩

section
variable (h : Enriched texts P c pid wk done)
include h

theorem enriched_terminate {proc : ProcessAttrs}
    (hoth : proc.pid ≠ pid) : Enriched texts P c pid (wk.onProcessTerminate proc) done := by
  obtain ⟨byContainer, heq, hmem⟩ := onProcessTerminate_tables wk proc
  rw [heq]
  have htab : InTable c pid { wk with
        processByContainer := byContainer
        containerByPID := wk.containerByPID.erase proc.pid
        store := wk.store.deleteProcess proc.pid } ↔ InTable c pid wk := by
    rw [inTable_iff, inTable_iff]
    refine exists_congr fun p => and_congr_left fun hpid => ?_
    exact ⟨(hmem c p).1, (hmem c p).2 (by rw [hpid]; exact hoth.symm)⟩
  have hpods := pods_deleteProcess wk.store proc.pid
  refine
    { h with
      pods := fun om hom => h.pods om (by rw [← hpods]; exact hom)
      queued := fun e he hlists => by rw [hpods]; exact h.queued e he hlists
      handled := fun hmem => by rw [hpods]; exact h.handled hmem
      cached := ?cached
      placed := fun id procs hprocs p hp hpid =>
        h.mem_placed ((hmem id p).1 (mem_getD_lookup.mpr ⟨procs, hprocs, hp⟩)) hpid
      passed := fun e he hmake => (h.passed e he hmake).imp_right htab.mpr
      looking := fun p id batch rest out hloop hpid =>
        ⟨(h.looking p id batch rest out hloop hpid).1,
          htab.mpr (h.looking p id batch rest out hloop hpid).2⟩
      told := fun hin hmem => h.told (htab.mp hin) hmem
      both := fun batch hbat hmake =>
        ⟨htab.mpr (h.both batch hbat hmake).1, (h.both batch hbat hmake).2⟩ }
  case cached =>
    intro info hinfo
    rw [get_erase, if_neg hoth.symm] at hinfo
    exact h.cached info hinfo

theorem enriched_podLookup {proc : ProcessAttrs}
    (hloop : wk.loop = .lookingUp proc id batch rest out) :
    Enriched texts P c pid (wk.podLookup texts proc id batch rest out) done := by
  have huns := h.unsent
  have hrest := h.rest
  have hpass := h.passed
  have htold := h.told
  have hlooking := h.looking proc id batch rest out hloop
  rw [hloop] at huns hrest hpass htold
  rw [podLookup]
  cases hpod : wk.store.podsByContainer.lookup id with
  | none =>
    refine h.goOn huns hrest hpass fun htab hmem => ?_
    rcases htold htab hmem with htold | hpid
    · exact htold
    have hsome := h.handled hmem
    rw [← (hlooking hpid).1, hpod] at hsome
    cases hsome
  | some pod =>
    have hcar : proc.pid = pid →
        CarriesPod texts P c pid ⟨.created, withMetadata texts proc pod id⟩ := by
      intro hpid
      obtain ⟨rfl, -⟩ := hlooking hpid
      obtain rfl := h.pods pod hpod
      exact ⟨proc, hpid, rfl⟩
    refine h.goOn ?_ hrest hpass fun htab hmem => ?_
    · intro e he hmake
      rcases mem_append.mp he with he | he
      · exact huns e he hmake
      · rw [mem_singleton.mp he] at hmake ⊢
        exact hcar hmake.2
    · rw [← append_assoc]
      rcases htold htab hmem with ⟨e, he, hold⟩ | hpid
      · exact ⟨e, mem_append_left _ he, hold⟩
      · exact ⟨_, mem_append_right _ mem_cons_self, hcar hpid⟩

theorem enriched_finish (hloop : wk.loop = .enriching batch [] out) :
    Enriched texts P c pid (send { wk with loop := .idle } out)
      (done ++ [.processEvents batch]) := by
  obtain ⟨output, heq, hflat⟩ := send_output { wk with loop := .idle } out
  rw [heq]
  have huns := h.unsent
  have hpass := h.passed
  rw [hloop] at huns hpass
  have hold : EnricherHandled.podEvent ⟨.created, P⟩ ∈ done ++ [.processEvents batch] →
      .podEvent ⟨.created, P⟩ ∈ done := fun hmem => mem_of_mem_concat hmem nofun
  have hlater : InTable c pid wk → .podEvent ⟨.created, P⟩ ∈ done ++ [.processEvents batch] →
      ∃ e ∈ output.flatten, CarriesPod texts P c pid e := by
    intro htab hmem
    have htold := told_of_enriching h hloop htab (hold hmem)
    rw [hflat]
    exact htold
  refine
    { h with
      handled := fun hmem => h.handled (hold hmem)
      sent := ?sent
      unsent := fun e he => by cases he
      rest := fun e he => by cases he
      passed := fun e he => by cases he
      looking := fun _ _ _ _ _ hloop => by cases hloop
      told := fun htab hmem => ?told
      both := ?both }
  case sent =>
    intro e he hmake
    rw [hflat] at he
    rcases mem_append.mp he with he | he
    · exact h.sent e he hmake
    · exact huns e he hmake
  case told =>
    obtain ⟨e, he, hcar⟩ := hlater htab hmem
    exact .inl ⟨e, mem_append_left _ he, hcar⟩
  case both =>
    intro batch' hbat hmake
    have htab : InTable c pid wk := by
      rcases mem_append.mp hbat with hbat | hbat
      · exact (h.both batch' hbat hmake).1
      · cases mem_singleton.mp hbat
        obtain ⟨e, he, hmake⟩ := hmake
        exact (hpass e he hmake).resolve_left not_mem_nil
    exact ⟨htab, hlater htab⟩

end
end

/-! ## The loop -/

section
variable (h : Enriched texts P c pid wk done)
include h

theorem enriched_enriching {batch rest out : List (Event ProcessAttrs)} {e : Event ProcessAttrs}
    (hloop : wk.loop = .enriching batch (e :: rest) out)
    (hinfo : e.obj.pid = pid → ∃ n, info = .ok ⟨c, n⟩) :
    Enriched texts P c pid (wk.advance texts info) done := by
  have hrest := h.rest
  rw [hloop] at hrest
  have hfst : e.obj.pid = pid → e.type = .created := hrest e mem_cons_self
  have hself : e.type ≠ .created → ∀ e' ∈ [e], ¬ Creates pid e' := by
    intro hne e' he' hmake
    rw [mem_singleton.mp he'] at hmake
    exact hne hmake.1
  have hends : e.type ≠ .created → Enriched texts P c pid
      { wk.onProcessTerminate e.obj with loop := .enriching batch rest (out ++ [e]) } done := by
    intro hne
    have hoth : e.obj.pid ≠ pid := fun hpid => hne (hfst hpid)
    exact enriched_pass (enriched_terminate h hoth) hloop (fun hc => hne hc.1) (hself hne)
  have hskip : e.type ≠ .created →
      Enriched texts P c pid { wk with loop := .enriching batch rest out } done := by
    intro hne
    have hnone : Enriched texts P c pid
        { wk with loop := .enriching batch rest (out ++ []) } done :=
      enriched_pass h hloop (fun hc => hne hc.1) fun e' he' => by cases he'
    rw [append_nil] at hnone
    exact hnone
  simp only [advance, hloop]
  cases htype : e.type with
  | created => exact enriched_onNewProcess h hloop hinfo
  | deleted | executableReplaced => exact hends (by rw [htype]; decide)
  | instanceDeleted | updated => exact hskip (by rw [htype]; decide)

/-- Without a batch the loop goes from one event to the next. -/
theorem Enriched.noBatch
    (hloop : wk.loop = .idle ∨ ∃ left, wk.loop = .draining left) {next : EnrichLoop}
    (hnext : next = .idle ∨ ∃ left, next = .draining left) {queue : List (Event ObjectMeta)}
    (hqueue : ∀ e ∈ queue, e ∈ wk.podEvents) (ready : Bool) :
    Enriched texts P c pid
      { wk with podEvents := queue, podEventsReady := ready, loop := next } done := by
  have htold : InTable c pid wk → .podEvent ⟨.created, P⟩ ∈ done →
      ∃ e ∈ wk.output.flatten ++ [], CarriesPod texts P c pid e := by
    intro htab hmem
    have htold := h.told htab hmem
    rcases hloop with hloop | ⟨left, hloop⟩
    all_goals
      rw [hloop] at htold
      exact htold.resolve_right id
  rcases hnext with rfl | ⟨left, rfl⟩
  all_goals exact { h with
      queued := fun e he => h.queued e (hqueue e he)
      unsent := fun e he => by cases he
      rest := fun e he => by cases he
      passed := fun e he => by cases he
      looking := fun _ _ _ _ _ hloop => by cases hloop
      told := fun htab hmem => .inl (htold htab hmem) }

end

theorem enriched_draining (hP : ListsContainer P c) (h : Enriched texts P c pid wk done)
    {left : Nat} (hloop : wk.loop = .draining (left + 1)) {e : Event ObjectMeta}
    {rest : List (Event ObjectMeta)} (hqueue : wk.podEvents = e :: rest) :
    Enriched texts P c pid
      (enrichPodEvent texts { wk with podEvents := rest, loop := .draining left } e)
      (done ++ [.podEvent e]) := by
  have hlists := h.queued e (by rw [hqueue]; exact mem_cons_self)
  have hnext : Enriched texts P c pid { wk with podEvents := rest, loop := .draining left } done :=
    h.noBatch (.inr ⟨_, hloop⟩) (.inr ⟨left, rfl⟩)
      (fun e' he' => by rw [hqueue]; exact mem_cons_of_mem _ he') wk.podEventsReady
  obtain ⟨type, pod⟩ := e
  have hoth : type ≠ .created → Enriched texts P c pid
      { wk with podEvents := rest, loop := .draining left } (done ++ [.podEvent ⟨type, pod⟩]) :=
    fun hne => hnext.append_other fun heq => hne (congrArg Event.type heq)
  cases type with
  | created =>
    refine enriched_newPod hP hnext ⟨rfl, id⟩ fun hin => ?_
    exact ⟨congrArg Event.obj (hlists hin).1, (hlists hin).2⟩
  | deleted =>
    refine enriched_deletedPod (hoth (by decide)) fun hin => ?_
    cases (hlists hin).1
  | executableReplaced | instanceDeleted | updated => exact hoth (by decide)

theorem enriched_advance (hP : ListsContainer P c) (h : Enriched texts P c pid wk done)
    (hinfo : Interleaves P c pid wk (.advance info)) :
    Enriched texts P c pid (wk.advance texts info) (done ++ handledBy wk (.advance info)) := by
  cases hloop : wk.loop with
  | idle =>
    simp only [advance, handledBy, hloop, append_nil]
    exact h
  | draining left =>
    cases left with
    | zero =>
      simp only [advance, handledBy, hloop, append_nil]
      exact h.noBatch (.inr ⟨0, hloop⟩) (.inl rfl) (fun _ he => he) true
    | succ left =>
      simp only [advance, handledBy, hloop]
      cases hqueue : wk.podEvents with
      | nil =>
        have hidle := h.noBatch (.inr ⟨_, hloop⟩) (.inl rfl) (fun _ he => he) wk.podEventsReady
        rw [hqueue] at hidle
        rw [take_nil, map_nil, append_nil]
        exact hidle
      | cons e rest => exact enriched_draining hP h hloop hqueue
  | enriching batch rest out =>
    cases rest with
    | nil =>
      simp only [advance, handledBy, hloop]
      exact enriched_finish h hloop
    | cons e rest =>
      simp only [handledBy, hloop, append_nil]
      exact enriched_enriching h hloop fun hpid => hinfo batch e rest out hloop hpid
  | lookingUp proc id batch rest out =>
    simp only [advance, handledBy, hloop, append_nil]
    exact enriched_podLookup h hloop

theorem enriched_step (hP : ListsContainer P c) (s : KubeEnricher × List EnricherHandled)
    (e : EnrichEvent) (h : Enriched texts P c pid s.1 s.2) (he : Interleaves P c pid s.1 e) :
    Enriched texts P c pid (enrichStep texts s e).1 (enrichStep texts s e).2 := by
  cases e with
  | store call =>
    simp only [enrichStep, handledBy, append_nil]
    exact enriched_store hP h he
  | on event =>
    simp only [enrichStep, handledBy, append_nil]
    exact enriched_on h he
  | signalPodEvents =>
    simp only [enrichStep, handledBy, append_nil]
    exact { h with }
  | wake =>
    simp only [enrichStep, handledBy, append_nil]
    exact h.noBatch (.inl he.1) (.inr ⟨_, rfl⟩) (fun _ he => he) false
  | receive events =>
    simp only [enrichStep, handledBy, append_nil]
    have htold := h.told
    rw [he.1] at htold
    exact
      { h with
        unsent := fun e he => by cases he
        rest := he.2
        passed := fun e he _ => .inl he
        looking := fun _ _ _ _ _ hloop => by cases hloop
        told := htold }
  | advance info => exact enriched_advance hP h he

/-- Whatever the order in which the store records the pod, `On` is called for it, the
queue is drained and the process is handled: every event that creates the process
carries the metadata of the pod, and once both were handled there is one. -/
theorem container_process_not_lost (texts : ObjectTexts) (P : ObjectMeta) (c : String) (pid : PID)
    (hP : ListsContainer P c) (events : List EnrichEvent)
    (hevents : Along (enrichStep texts) (fun s e => Interleaves P c pid s.1 e)
      (newWatcherKubeEnricher, []) events) :
    let s := events.foldl (enrichStep texts) (newWatcherKubeEnricher, [])
    (∀ e ∈ s.1.output.flatten, Creates pid e → CarriesPod texts P c pid e) ∧
      ((∃ batch, .processEvents batch ∈ s.2 ∧ ∃ e ∈ batch, Creates pid e) →
        .podEvent ⟨.created, P⟩ ∈ s.2 →
        ∃ e ∈ s.1.output.flatten, Creates pid e ∧ CarriesPod texts P c pid e) := by
  intro s
  have h : Enriched texts P c pid s.1 s.2 := hevents.inv (enriched_step hP) enriched_new
  refine ⟨h.sent, fun hbat hpod => ?_⟩
  obtain ⟨batch, hin, hmake⟩ := hbat
  obtain ⟨e, he, pp, hpid, rfl⟩ := (h.both batch hin hmake).2 hpod
  exact ⟨_, he, ⟨rfl, hpid⟩, pp, hpid, rfl⟩

/-- The process is handled before its pod is recorded, and told when the pod is taken off
the queue. -/
theorem container_process_not_lost_late : let texts : ObjectTexts := ⟨fun _ => ∅, fun _ => ∅⟩
    let proc : ProcessAttrs := ⟨7, 1, ⟨0, 0⟩, [], none, ∅, ∅, 0, 0, ""⟩
    let pod : ObjectMeta := ⟨"web", "default", "Pod", [], some ⟨[⟨"c1", "app"⟩], [], false⟩, 0⟩
    let info : Except ContainerError Container.Info := .ok ⟨"c1", 4⟩
    let events : List EnrichEvent :=
      [.receive [⟨.created, proc⟩], .advance info, .advance info, .advance info,
        .store (.on (fun _ => none) ⟨.created, some pod⟩), .on ⟨.created, some pod⟩,
        .signalPodEvents, .wake, .advance info]
    let s := events.foldl (enrichStep texts) (newWatcherKubeEnricher, [])
    ∃ e ∈ s.1.output.flatten, Creates 7 e ∧ CarriesPod texts pod "c1" 7 e := by
  intro texts proc pod info events s
  have hinfo : ∃ n, info = .ok ⟨"c1", n⟩ := ⟨4, rfl⟩
  have hevents : Along (enrichStep texts) (fun s e => Interleaves pod "c1" 7 s.1 e)
      (newWatcherKubeEnricher, []) events := by
    refine ⟨⟨rfl, fun e he _ => ?_⟩, fun _ _ _ _ _ _ => hinfo, fun _ _ _ _ _ _ => hinfo,
      fun _ _ _ _ _ _ => hinfo, fun om hom => .inl ⟨(Option.some.inj hom).symm, by decide⟩,
      fun om hom _ => ⟨(Option.some.inj hom).symm, by decide, rfl⟩, trivial, ⟨rfl, rfl⟩,
      fun _ _ _ _ _ _ => hinfo, trivial⟩
    rw [mem_singleton.mp he]
  obtain ⟨-, hboth⟩ := container_process_not_lost texts pod "c1" 7 mem_cons_self events hevents
  refine hboth ⟨[⟨.created, proc⟩], ?_, ⟨.created, proc⟩, mem_cons_self, rfl, rfl⟩ ?_
  · exact mem_cons_self
  · exact mem_cons_of_mem _ mem_cons_self

end Obi.Refine
