import Obi.Ref.Matcher
import Obi.Spec.Lifecycle

/-!
# The events of the criteria matcher tell its history

Every method changes the history of at most one process and says so by an event, so
the events of a batch lead from the processes tracked before to those tracked after.
A refresh matches every process again in a copy: what it sends is the difference of
two histories. The copy has maps of its own, so what was tried in it before an error
is not seen in the matcher.
-/

namespace Obi.Refine
open Lib Spec Ref Matcher Table GoMaps
open List (append_assoc append_nil contains_iff_mem filterMap_cons_none filterMap_cons_some
  filter_cons_of_neg filter_cons_of_pos flatMap_cons foldl foldl_cons map_append map_cons
  map_flatMap map_singleton mem_cons mem_cons_of_mem mem_cons_self mem_filter mem_mergeSort
  mem_toFinset toFinset_card_le)

variable {Selector : Type} (ops : MatcherOps Selector) {m m' : Matcher Selector} {pid : PID}

/-! ## Tables of processes -/

/-- The processes of a history. -/
def trackedPIDs (t : Table PID (ProcessMatch Selector)) : Finset PID := t.keys.toFinset

def matchEvents (out : List (Event (ProcessMatch Selector))) : List LifecycleEvent :=
  lifecycle (fun pm => pm.process.pid) out

theorem mem_trackedPIDs {t : Table PID (ProcessMatch Selector)} :
    pid ∈ trackedPIDs t ↔ ∃ pm, t.lookup pid = some pm := by
  rw [trackedPIDs, mem_toFinset, ← Option.isSome_iff_exists, AList.lookup_isSome]
  exact Iff.rfl

theorem alreadyMatched_iff : m.alreadyMatched pid = true ↔ pid ∈ trackedPIDs m.processHistory := by
  rw [alreadyMatched, Option.isSome_iff_exists, mem_trackedPIDs]

/-- The same processes were observed, if with other ports and criteria. -/
def SameObserved (t t' : Table PID (ObservedProcess Selector)) : Prop :=
  ∀ pid, (t'.lookup pid).map (fun o => (o.attrs.pid, o.process.pid)) =
    (t.lookup pid).map fun o => (o.attrs.pid, o.process.pid)

theorem SameObserved.refl (t : Table PID (ObservedProcess Selector)) : SameObserved t t :=
  fun _ => rfl

variable {t : Table PID (ObservedProcess Selector)} {obj : ProcessAttrs} {visiting : List PID}
  {n : Matcher Selector} {o : ObservedProcess Selector} {e : Option (Event (ProcessMatch Selector))}
  {proc : ProcessInfo} {u : Table PID (ObservedProcess Selector)}

theorem SameObserved.trans {v : Table PID (ObservedProcess Selector)} (h : SameObserved t u)
    (h' : SameObserved u v) : SameObserved t v :=
  fun pid => (h' pid).trans (h pid)

theorem SameObserved.insert {o' : ObservedProcess Selector} (hold : t.lookup pid = some o)
    (hattrs : o'.attrs.pid = o.attrs.pid) (hprocess : o'.process.pid = o.process.pid) :
    SameObserved t (t.insert pid o') := by
  intro q
  rw [get_insert]
  split
  · next hq => rw [hq, hold, Option.map_some, Option.map_some, hattrs, hprocess]
  · rfl

theorem SameObserved.isSome (h : SameObserved t u) :
    (u.lookup pid).isSome = (t.lookup pid).isSome := by
  rw [← Option.isSome_map, h pid, Option.isSome_map]

/-- Processes are filed under their PIDs, and those that are tracked were observed. -/
structure FiledByPID (m : Matcher Selector) : Prop where
  observed : ∀ pid o, m.observed.lookup pid = some o → o.attrs.pid = pid ∧ o.process.pid = pid
  history : ∀ pid pm, m.processHistory.lookup pid = some pm → pm.process.pid = pid
  seen : ∀ pid ∈ trackedPIDs m.processHistory, (m.observed.lookup pid).isSome = true

theorem FiledByPID.sameObserved (h : FiledByPID m) (hsame : SameObserved m.observed m'.observed)
    (hhist : m'.processHistory = m.processHistory) : FiledByPID m' := by
  refine ⟨fun pid o ho => ?_, fun pid pm hpm => ?_, fun pid hpid => ?_⟩
  · have heq := hsame pid
    rw [ho] at heq
    cases hold : m.observed.lookup pid with
    | none =>
      rw [hold] at heq
      cases heq
    | some old =>
      rw [hold, Option.map_some, Option.map_some, Option.some.injEq, Prod.mk.injEq] at heq
      rw [heq.1, heq.2]
      exact h.observed pid old hold
  · rw [hhist] at hpm
    exact h.history pid pm hpm
  · rw [hsame.isSome]
    rw [hhist] at hpid
    exact h.seen pid hpid

/-! ## What a method does to the history -/

/-- The history is changed for one process, as the event says. -/
inductive HistoryChange (pid : PID) (t : Table PID (ProcessMatch Selector)) :
    Table PID (ProcessMatch Selector) → Option (Event (ProcessMatch Selector)) → Prop
  | keep : HistoryChange pid t t none
  | create {pm : ProcessMatch Selector} (hnew : pid ∉ trackedPIDs t) (hpid : pm.process.pid = pid) :
      HistoryChange pid t (t.insert pid pm) (some ⟨.created, pm⟩)
  | delete {pm : ProcessMatch Selector} (hold : t.lookup pid = some pm)
      (hpid : pm.process.pid = pid) :
      HistoryChange pid t (t.erase pid) (some ⟨.deleted, pm⟩)

theorem HistoryChange.leads {t u : Table PID (ProcessMatch Selector)}
    (h : HistoryChange pid t u e) :
    Leads (trackedPIDs t) (matchEvents e.toList) (trackedPIDs u) := by
  cases h with
  | keep => exact .nil _
  | @create pm hnew hpid =>
    have hkeys : trackedPIDs (t.insert pid pm) = insert pid (trackedPIDs t) := by
      ext q
      simp only [trackedPIDs, mem_toFinset, Finset.mem_insert]
      exact AList.mem_insert t
    rw [hkeys, Option.toList_some, matchEvents, lifecycle, map_singleton, hpid]
    exact .created hnew
  | @delete pm hold hpid =>
    have hkeys : trackedPIDs (t.erase pid) = (trackedPIDs t).erase pid := by
      ext q
      simp only [trackedPIDs, mem_toFinset, Finset.mem_erase]
      exact AList.mem_erase
    rw [hkeys, Option.toList_some, matchEvents, lifecycle, map_singleton, hpid]
    exact .deleted (mem_trackedPIDs.mpr ⟨pm, hold⟩)

theorem FiledByPID.change (h : FiledByPID m) (hsame : SameObserved m.observed m'.observed)
    (hchg : HistoryChange pid m.processHistory m'.processHistory e)
    (hpid : (m.observed.lookup pid).isSome = true) : FiledByPID m' := by
  have hfl : FiledByPID { m with observed := m'.observed } := h.sameObserved hsame rfl
  refine ⟨hfl.observed, fun q pm hpm => ?_, fun q hq => ?_⟩
  · generalize m'.processHistory = t at hchg hpm
    cases hchg with
    | keep => exact h.history q pm hpm
    | create hnew hp =>
      rw [get_insert] at hpm
      split at hpm
      · next hq =>
        cases hpm
        rw [hp, hq]
      · exact h.history q pm hpm
    | delete hold hp =>
      rw [get_erase] at hpm
      split at hpm
      · cases hpm
      · exact h.history q pm hpm
  · rw [hsame.isSome]
    obtain ⟨pm, hpm⟩ := mem_trackedPIDs.mp hq
    generalize m'.processHistory = t at hchg hpm
    cases hchg with
    | keep => exact h.seen q (mem_trackedPIDs.mpr ⟨pm, hpm⟩)
    | create hnew hp =>
      rw [get_insert] at hpm
      split at hpm
      · next hq => rw [hq]; exact hpid
      · exact h.seen q (mem_trackedPIDs.mpr ⟨pm, hpm⟩)
    | delete hold hp =>
      rw [get_erase] at hpm
      split at hpm
      · cases hpm
      · exact h.seen q (mem_trackedPIDs.mpr ⟨pm, hpm⟩)

theorem confirmCriteria_spec (m : Matcher Selector) (pid : PID) (criteria : List Selector) :
    SameObserved m.observed (m.confirmCriteria ops pid criteria).observed ∧
      (m.confirmCriteria ops pid criteria).processHistory = m.processHistory := by
  rw [confirmCriteria]
  split
  · exact ⟨.refl _, rfl⟩
  · next o ho => exact ⟨.insert ho rfl rfl, rfl⟩

theorem inheritLogEnricher_spec (m : Matcher Selector) (pid : PID) (criteria : List Selector) :
    SameObserved m.observed (m.inheritLogEnricher pid criteria).observed ∧
      (m.inheritLogEnricher pid criteria).processHistory = m.processHistory := by
  rw [inheritLogEnricher]
  split
  · exact ⟨.refl _, rfl⟩
  · next o ho => exact ⟨.insert ho rfl rfl, rfl⟩

theorem filterDeleted_spec (h : FiledByPID m) (obj : ProcessAttrs) :
    SameObserved m.observed (m.filterDeleted obj).1.observed ∧
      HistoryChange obj.pid m.processHistory (m.filterDeleted obj).1.processHistory
        (m.filterDeleted obj).2 := by
  rw [filterDeleted]
  split
  · exact ⟨.refl _, .keep⟩
  · next pm hpm =>
    refine ⟨?_, .delete hpm (h.history _ _ hpm)⟩
    split
    · exact .refl _
    · next o ho => exact .insert ho rfl rfl

theorem inherit_spec (m : Matcher Selector)
    (hproc : proc.pid = obj.pid) (pm : ProcessMatch Selector) :
    SameObserved m.observed (m.inherit ops obj proc pm).1.observed ∧
      HistoryChange obj.pid m.processHistory (m.inherit ops obj proc pm).1.processHistory
        (m.inherit ops obj proc pm).2 := by
  obtain ⟨hsame, hhist⟩ := confirmCriteria_spec ops m obj.pid pm.criteria
  obtain ⟨hsame', hhist'⟩ := inheritLogEnricher_spec
    (m.confirmCriteria ops obj.pid pm.criteria) obj.pid pm.logEnricherCriteria
  simp only [inherit]
  split
  · refine ⟨hsame.trans hsame', ?_⟩
    rw [hhist', hhist]
    exact .keep
  · next htrkd =>
    refine ⟨hsame.trans hsame', ?_⟩
    rw [hhist', hhist]
    exact .create (fun hin => htrkd (alreadyMatched_iff.mpr hin)) hproc

section
variable (h : FiledByPID m)
include h

/-- What `filterCreated` does for an observed process. -/
theorem filterCreated_spec
    (hobj : (m.observed.lookup obj.pid).isSome = true) (findingCriteria : List Selector) :
    SameObserved m.observed (m.filterCreated ops obj findingCriteria).1.observed ∧
      HistoryChange obj.pid m.processHistory
        (m.filterCreated ops obj findingCriteria).1.processHistory
        (m.filterCreated ops obj findingCriteria).2 := by
  obtain ⟨o, ho⟩ := Option.isSome_iff_exists.mp hobj
  have hproc : o.process.pid = obj.pid := (h.observed _ _ ho).2
  have hinfo : m.observedInfo ops obj = .ok o.process := by rw [observedInfo, ho]
  have hgiveUp : SameObserved m.observed
        (if m.alreadyMatched obj.pid then m.filterDeleted obj else (m, none)).1.observed ∧
      HistoryChange obj.pid m.processHistory
        (if m.alreadyMatched obj.pid then m.filterDeleted obj else (m, none)).1.processHistory
        (if m.alreadyMatched obj.pid then m.filterDeleted obj else (m, none)).2 := by
    split
    · exact filterDeleted_spec h obj
    · exact ⟨.refl _, .keep⟩
  simp only [filterCreated, hinfo]
  cases hmatch : m.matchCriteria ops obj o.process findingCriteria with
  | some pm =>
    have hpm : pm.process = o.process := by
      simp only [matchCriteria] at hmatch
      split at hmatch
      · cases hmatch
      · cases hmatch
        rfl
    obtain ⟨hsame, hhist⟩ := confirmCriteria_spec ops m obj.pid pm.criteria
    simp only
    split
    · refine ⟨hsame, ?_⟩
      rw [hhist]
      exact .keep
    · next htrkd =>
      refine ⟨hsame, ?_⟩
      rw [hhist]
      exact .create (fun hin => htrkd (alreadyMatched_iff.mpr hin)) (hpm ▸ hproc)
  | none =>
    cases m.processHistory.lookup o.process.ppid with
    | none => exact hgiveUp
    | some pm =>
      simp only
      split
      · exact hgiveUp
      · exact inherit_spec ops m hproc pm

theorem observe_spec (hproc : proc.pid = obj.pid) : FiledByPID (m.observe obj proc) ∧
      ((m.observe obj proc).observed.lookup obj.pid).isSome = true := by
  simp only [observe]
  refine ⟨⟨fun q o ho => ?_, h.history, fun q hq => ?_⟩, ?_⟩
  · rw [get_insert] at ho
    split at ho
    · next hq =>
      cases ho
      rw [hq]
      split <;> exact ⟨rfl, hproc⟩
    · exact h.observed q o ho
  · rw [get_insert]
    split
    · rfl
    · exact h.seen q hq
  · rw [get_insert, if_pos rfl]
    rfl

/-- One event of a batch. -/
theorem filterEvent_spec (ev : Event ProcessAttrs) : FiledByPID (m.filterEvent ops ev).1 ∧
      HistoryChange ev.obj.pid m.processHistory (m.filterEvent ops ev).1.processHistory
        (m.filterEvent ops ev).2 := by
  rw [filterEvent]
  split
  · rw [filterDeleted]
    have hgone : ∀ q o, (m.observed.erase ev.obj.pid).lookup q = some o →
        o.attrs.pid = q ∧ o.process.pid = q := by
      intro q o ho
      rw [get_erase] at ho
      split at ho
      · cases ho
      · exact h.observed q o ho
    have hkept : ∀ q ∈ trackedPIDs m.processHistory, q ≠ ev.obj.pid →
        ((m.observed.erase ev.obj.pid).lookup q).isSome = true := by
      intro q hq hne
      rw [get_erase, if_neg hne]
      exact h.seen q hq
    split
    · next hnone =>
      refine ⟨⟨hgone, h.history, fun q hq => hkept q hq ?_⟩, .keep⟩
      rintro rfl
      obtain ⟨pm, hpm⟩ := mem_trackedPIDs.mp hq
      rw [hnone] at hpm
      cases hpm
    · next pm hpm =>
      have hnone : (m.observed.erase ev.obj.pid).lookup ev.obj.pid = none := by
        rw [get_erase, if_pos rfl]
      simp only [hnone]
      refine ⟨⟨hgone, fun q pm' hpm' => ?_, fun q hq => ?_⟩, .delete hpm (h.history _ _ hpm)⟩
      · rw [get_erase] at hpm'
        split at hpm'
        · cases hpm'
        · exact h.history q pm' hpm'
      · obtain ⟨pm', hpm'⟩ := mem_trackedPIDs.mp hq
        rw [get_erase] at hpm'
        split at hpm'
        · cases hpm'
        · next hne => exact hkept q (mem_trackedPIDs.mpr ⟨pm', hpm'⟩) hne
  · split
    · exact ⟨h, .keep⟩
    · next proc hproc =>
      have hpid : proc.pid = ev.obj.pid := by
        rw [processInfo] at hproc
        split at hproc
        · cases hproc
        · cases hproc
          rfl
      obtain ⟨hfl, hsome⟩ := observe_spec h hpid
      obtain ⟨hsame, hchg⟩ := filterCreated_spec ops hfl hsome m.criteria
      exact ⟨hfl.change hsame hchg hsome, hchg⟩

/-- A batch of events leads from the processes tracked before it to those after. -/
theorem filter_spec (events : List (Event ProcessAttrs)) : FiledByPID (m.filter ops events).1 ∧
      Leads (trackedPIDs m.processHistory) (matchEvents (m.filter ops events).2)
        (trackedPIDs (m.filter ops events).1.processHistory) := by
  induction events generalizing m with
  | nil => exact ⟨h, .nil _⟩
  | cons ev rest ih =>
    obtain ⟨hfl, hchg⟩ := filterEvent_spec ops h ev
    obtain ⟨hfl', hleads⟩ := ih hfl
    refine ⟨hfl', ?_⟩
    simp only [Matcher.filter, matchEvents, lifecycle_append]
    exact hchg.leads.append hleads

end

/-! ## Matching again -/

/-- The number of observed processes a call has not marked yet. -/
def unmarkedCount (t : Table PID (ObservedProcess Selector)) (visiting : List PID) : Nat :=
  (t.keys.toFinset.filter (· ∉ visiting)).card

theorem unmarkedCount_le (t : Table PID (ObservedProcess Selector)) (visiting : List PID) :
    unmarkedCount t visiting ≤ t.keys.length :=
  (Finset.card_filter_le _ _).trans (toFinset_card_le _)

theorem unmarkedCount_cons (ho : t.lookup pid = some o) (hnew : pid ∉ visiting) :
    unmarkedCount t (pid :: visiting) < unmarkedCount t visiting := by
  have hkey : pid ∈ t.keys.toFinset := by
    rw [mem_toFinset]
    exact AList.lookup_isSome.mp (by rw [ho]; rfl)
  refine Finset.card_lt_card (Finset.ssubset_iff_of_subset ?_ |>.mpr ⟨pid, ?_, ?_⟩)
  · intro q hq
    rw [Finset.mem_filter, mem_cons, not_or] at hq
    exact Finset.mem_filter.mpr ⟨hq.1, hq.2.2⟩
  · exact Finset.mem_filter.mpr ⟨hkey, hnew⟩
  · intro hin
    exact (Finset.mem_filter.mp hin).2 mem_cons_self

/-- The fuel of `rematch` is bookkeeping: any two amounts above the number of processes
that are not marked give the same. -/
theorem rematch_fuel {previous : Matcher Selector} {a b : Nat}
    (ha : unmarkedCount m.observed visiting < a) (hb : unmarkedCount m.observed visiting < b) :
    Matcher.rematch ops previous a pid (m, visiting) =
      Matcher.rematch ops previous b pid (m, visiting) := by
  induction a generalizing b pid visiting with
  | zero => omega
  | succ a ih =>
    cases b with
    | zero => omega
    | succ b =>
      rw [rematch, rematch]
      split
      · rfl
      · next hmark =>
        rw [Bool.or_eq_true, not_or, contains_iff_mem] at hmark
        cases ho : m.observed.lookup pid with
        | none => rfl
        | some o =>
          have hless := unmarkedCount_cons ho hmark.2
          have hsame : rematch ops previous a o.process.ppid (m, pid :: visiting) =
              rematch ops previous b o.process.ppid (m, pid :: visiting) :=
            ih (by omega) (by omega)
          simp [hsame]

/-- The walk to the parents ends, also when they form a cycle: no process is gone through
twice. -/
theorem rematch_ends (previous m : Matcher Selector) (pid : PID) (visiting : List PID) (k : Nat) :
    Matcher.rematch ops previous (m.observed.keys.length + 1 + k) pid (m, visiting) =
      Matcher.rematch ops previous (m.observed.keys.length + 1) pid (m, visiting) := by
  have hle := unmarkedCount_le m.observed visiting
  exact rematch_fuel ops (by omega) (by omega)

/-- Every process is matched, or left, under its own PID. -/
theorem rematch_spec {previous : Matcher Selector} (fuel : Nat) (pid : PID) (visiting : List PID)
    (h : FiledByPID m) :
    FiledByPID (Matcher.rematch ops previous fuel pid (m, visiting)).1 ∧ SameObserved m.observed
        (Matcher.rematch ops previous fuel pid (m, visiting)).1.observed := by
  induction fuel generalizing m pid visiting with
  | zero => exact ⟨h, .refl _⟩
  | succ fuel ih =>
    rw [rematch]
    split
    · exact ⟨h, .refl _⟩
    · cases ho : m.observed.lookup pid with
      | none => exact ⟨h, .refl _⟩
      | some o =>
        obtain ⟨hfl, hsame⟩ := ih o.process.ppid (pid :: visiting) h
        simp only
        generalize rematch ops previous fuel o.process.ppid (m, pid :: visiting) = s at hfl hsame
        have hpid : o.attrs.pid = pid := (h.observed pid o ho).1
        have hsome : (s.1.observed.lookup o.attrs.pid).isSome = true := by
          rw [hsame.isSome, hpid, ho]
          rfl
        obtain ⟨hsame', hchg⟩ := filterCreated_spec ops hfl hsome
          (s.1.criteriaForRefresh ops pid previous)
        exact ⟨hfl.change hsame' hchg hsome, hsame.trans hsame'⟩

theorem refreshPorts_spec (previous : Matcher Selector)
    (reads : RefreshReads) (hseen : (m.observed.lookup pid).isSome = true) :
    let r := m.refreshPorts ops reads previous pid
    SameObserved m.observed r.1.observed ∧ r.2 ≠ .error .nilProcess ∧
      r.1.processHistory = m.processHistory := by
  intro r
  simp only [r, refreshPorts]
  split
  · exact ⟨.refl _, nofun, rfl⟩
  split
  · exact ⟨.refl _, nofun, rfl⟩
  split
  · exact ⟨.refl _, nofun, rfl⟩
  obtain ⟨o, ho⟩ := Option.isSome_iff_exists.mp hseen
  simp only [ho]
  exact ⟨.insert ho rfl rfl, nofun, trivial⟩

/-- Ports are read again of processes that were observed. -/
theorem refreshRetainedPorts_spec (previous : Matcher Selector)
    (reads : RefreshReads) (pids fresh : List PID) (h : FiledByPID m)
    (hseen : ∀ pid ∈ pids, (m.observed.lookup pid).isSome = true) :
    let r := Matcher.refreshRetainedPorts ops reads previous pids (m, fresh)
    SameObserved m.observed r.1.observed ∧ r.2 ≠ .error .nilProcess ∧
      r.1.processHistory = m.processHistory := by
  induction pids generalizing m fresh with
  | nil => exact ⟨.refl _, nofun, rfl⟩
  | cons pid rest ih =>
    obtain ⟨hsame, hnil, hhist⟩ := refreshPorts_spec ops previous reads (hseen pid mem_cons_self)
    intro r
    simp only [r, refreshRetainedPorts]
    generalize m.refreshPorts ops reads previous pid = s at hsame hnil hhist
    obtain ⟨m1, result⟩ := s
    cases result with
    | error err => exact ⟨hsame, fun heq => hnil (by cases heq; rfl), hhist⟩
    | ok read =>
      have hfl : FiledByPID m1 := h.sameObserved hsame hhist
      obtain ⟨hsame', hnil', hhist'⟩ := ih (if read then fresh ++ [pid] else fresh) hfl
        fun q hq => by rw [hsame.isSome]; exact hseen q (mem_cons_of_mem _ hq)
      exact ⟨hsame.trans hsame', hnil', hhist'.trans hhist⟩

/-! ## The difference of two histories -/

section
variable {next previous : Matcher Selector}

/-- What is sent for a tracked process. -/
def matchChange (ops : MatcherOps Selector) (next previous : Matcher Selector) (pid : PID) :
    List (Event (ProcessMatch Selector)) :=
  match previous.processHistory.lookup pid with
  | none => []
  | some old => match next.processHistory.lookup pid with
    | none => [⟨.deleted, old⟩]
    | some replacement =>
      if samplingConfig ops old = samplingConfig ops replacement then []
      else [⟨.updated, replacement⟩]

theorem compareMatch_events (next previous : Matcher Selector)
    (s : List (Event (ProcessMatch Selector)) × Option PID) (pid : PID) :
    (Matcher.compareMatch ops next previous s pid).1 =
      s.1 ++ matchChange ops next previous pid := by
  rw [compareMatch, matchChange]
  cases previous.processHistory.lookup pid with
  | none => exact (append_nil _).symm
  | some old =>
    cases next.processHistory.lookup pid with
    | none => rfl
    | some replacement =>
      simp only
      split
      · exact (append_nil _).symm
      · rfl

theorem foldl_compareMatch_events (next previous : Matcher Selector)
    (pids : List PID) (s : List (Event (ProcessMatch Selector)) × Option PID) :
    (pids.foldl (Matcher.compareMatch ops next previous) s).1 =
      s.1 ++ pids.flatMap (matchChange ops next previous) := by
  induction pids generalizing s with
  | nil => exact (append_nil _).symm
  | cons pid rest ih => rw [foldl_cons, ih, compareMatch_events, flatMap_cons, append_assoc]

variable {pids : List PID}

/-- Of the processes tracked before, those that are not matched again end. -/
theorem leads_compare (hnext : FiledByPID next) (hprev : FiledByPID previous)
    (hperm : pids.Perm previous.processHistory.keys) :
    Leads (trackedPIDs previous.processHistory)
      (matchEvents (pids.flatMap (matchChange ops next previous)))
      ((trackedPIDs previous.processHistory).filter (· ∈ trackedPIDs next.processHistory)) := by
  have hmem : ∀ pid ∈ pids, pid ∈ trackedPIDs previous.processHistory := fun pid hpid =>
    mem_toFinset.mpr (hperm.mem_iff.mp hpid)
  have hevs : matchEvents (pids.flatMap (matchChange ops next previous)) =
      pids.flatMap fun pid => matchEvents (matchChange ops next previous pid) := by
    rw [matchEvents, lifecycle, map_flatMap]
    rfl
  have hset : (trackedPIDs previous.processHistory).filter
        (fun pid => pid ∈ pids → pid ∈ trackedPIDs next.processHistory) =
      (trackedPIDs previous.processHistory).filter (· ∈ trackedPIDs next.processHistory) := by
    refine Finset.filter_congr fun pid hpid => ?_
    exact ⟨fun h => h (hperm.mem_iff.mpr (mem_toFinset.mp hpid)), fun h _ => h⟩
  rw [hevs, ← hset]
  refine Leads.review (hperm.nodup_iff.mpr previous.processHistory.keys_nodup) hmem ?_ ?_
  · intro pid hpid hkept
    obtain ⟨old, hold⟩ := mem_trackedPIDs.mp (hmem pid hpid)
    obtain ⟨replacement, hrep⟩ := mem_trackedPIDs.mp hkept
    simp only [matchChange, hold, hrep]
    split
    · exact .inl rfl
    · refine .inr ?_
      rw [matchEvents, lifecycle, map_singleton, hnext.history _ _ hrep]
  · intro pid hpid hgone
    obtain ⟨old, hold⟩ := mem_trackedPIDs.mp (hmem pid hpid)
    have hnone : next.processHistory.lookup pid = none := by
      rw [Option.eq_none_iff_forall_ne_some]
      exact fun pm hpm => hgone (mem_trackedPIDs.mpr ⟨pm, hpm⟩)
    simp only [matchChange, hold, hnone]
    rw [matchEvents, lifecycle, map_singleton, hprev.history _ _ hold]

/-- The matches that are new. -/
theorem newMatches_events (hnext : FiledByPID next)
    (hpids : ∀ pid ∈ pids, pid ∈ trackedPIDs next.processHistory) :
    matchEvents (next.newMatches previous pids) =
      (pids.filter fun pid => !previous.alreadyMatched pid).map fun pid => (.created, pid) := by
  induction pids with
  | nil => rfl
  | cons pid rest ih =>
    have hrest := ih fun q hq => hpids q (mem_cons_of_mem _ hq)
    obtain ⟨pm, hpm⟩ := mem_trackedPIDs.mp (hpids pid mem_cons_self)
    rw [newMatches] at hrest ⊢
    cases hold : previous.alreadyMatched pid with
    | true =>
      rw [filterMap_cons_none (by rw [hold]; rfl), filter_cons_of_neg (by rw [hold]; decide)]
      exact hrest
    | false =>
      rw [filterMap_cons_some (by rw [hold, hpm]; rfl), filter_cons_of_pos (by rw [hold]; rfl),
        map_cons, ← hrest, matchEvents, lifecycle, map_cons, hnext.history _ _ hpm]
      rfl

theorem leads_newMatches (previous : Matcher Selector) (hnext : FiledByPID next)
    (hperm : pids.Perm next.processHistory.keys) :
    Leads ((trackedPIDs previous.processHistory).filter (· ∈ trackedPIDs next.processHistory))
      (matchEvents (next.newMatches previous pids)) (trackedPIDs next.processHistory) := by
  have hmem : ∀ pid, pid ∈ pids ↔ pid ∈ trackedPIDs next.processHistory := fun pid =>
    hperm.mem_iff.trans mem_toFinset.symm
  have hnew : ∀ pid, pid ∈ pids.filter (fun pid => !previous.alreadyMatched pid) ↔
      pid ∈ trackedPIDs next.processHistory ∧ pid ∉ trackedPIDs previous.processHistory := by
    intro pid
    rw [mem_filter, hmem, Bool.not_eq_true', ← Bool.not_eq_true, alreadyMatched_iff]
  rw [newMatches_events hnext fun pid hpid => (hmem pid).mp hpid]
  have hset : (trackedPIDs previous.processHistory).filter (· ∈ trackedPIDs next.processHistory) ∪
      (pids.filter fun pid => !previous.alreadyMatched pid).toFinset =
        trackedPIDs next.processHistory := by
    ext pid
    rw [Finset.mem_union, mem_toFinset, hnew]
    by_cases hold : pid ∈ trackedPIDs previous.processHistory
    · simp [hold]
    · simp [hold]
  have hnodup : (pids.filter fun pid => !previous.alreadyMatched pid).Nodup :=
    (hperm.nodup_iff.mpr next.processHistory.keys_nodup).filter _
  have hleads := Leads.createAll hnodup
    (s := (trackedPIDs previous.processHistory).filter (· ∈ trackedPIDs next.processHistory))
    fun pid hpid hin => ((hnew pid).mp hpid).2 (mem_filter.mp hin).1
  rw [hset] at hleads
  exact hleads

end

/-! ## References -/

variable {h : GoMaps Selector} {v next : MatcherVar Selector}

/-- The maps of a struct were made. -/
def Allocated (h : GoMaps Selector) (v : MatcherVar Selector) : Prop :=
  v.processHistory < h.historyCount ∧ v.observed < h.observedCount

/-- Two structs share no map. -/
def SharesNoMap (v next : MatcherVar Selector) : Prop :=
  v.processHistory ≠ next.processHistory ∧ v.observed ≠ next.observed

theorem deref_assign_self (h : GoMaps Selector) (v : MatcherVar Selector) (m : Matcher Selector) :
    (h.assign v m).deref v =
      { h.deref v with processHistory := m.processHistory, observed := m.observed } := by
  simp [deref, assign]

theorem filedByPID_assign (hm : FiledByPID m) : FiledByPID ((h.assign v m).deref v) := by
  rw [deref_assign_self]
  exact hm.sameObserved (.refl _) rfl

theorem trial_spec (update : CriteriaUpdate Selector) (hv : Allocated h v) :
    SharesNoMap v (h.trial v update).2 ∧ (h.trial v update).1.deref v = h.deref v ∧
      Allocated (h.trial v update).1 v ∧
      Allocated (h.trial v update).1 (h.trial v update).2 ∧
      ((h.trial v update).1.deref (h.trial v update).2).processHistory = ∅ ∧
      ((h.trial v update).1.deref (h.trial v update).2).observed = (h.deref v).observed := by
  have hhist : v.processHistory ≠ h.historyCount := ne_of_lt hv.1
  have hobs : v.observed ≠ h.observedCount := ne_of_lt hv.2
  refine ⟨⟨hhist, hobs⟩, ?_, ⟨Nat.lt_succ_of_lt hv.1, Nat.lt_succ_of_lt hv.2⟩,
    ⟨Nat.lt_succ_self _, Nat.lt_succ_self _⟩, ?_, ?_⟩
  · simp [deref, trial, Function.update_of_ne hhist, Function.update_of_ne hobs]
  · simp [deref, trial]
  · simp [deref, trial]

/-- What matching every process again keeps. -/
structure Trial (v next : MatcherVar Selector) (m : Matcher Selector) (h : GoMaps Selector) :
    Prop where
  kept : h.deref v = m
  filed : FiledByPID (h.deref next)
  old : Allocated h v
  new : Allocated h next

theorem trial_assign (hapart : SharesNoMap v next) (hh : Trial v next m h)
    (hn : FiledByPID n) : Trial v next m (h.assign next n) :=
  ⟨by simpa [deref, assign, Function.update_of_ne hapart.1,
      Function.update_of_ne hapart.2] using hh.kept, filedByPID_assign hn, hh.old, hh.new⟩

theorem trial_rematch (hapart : SharesNoMap v next) (pids : List PID)
    (visiting : List PID) (hh : Trial v next m h) :
    Trial v next m (pids.foldl (rematchTrial ops v next) (h, visiting)).1 := by
  induction pids generalizing h visiting with
  | nil => exact hh
  | cons pid rest ih =>
    have hnext : FiledByPID (rematch ops (h.deref v)
        ((h.deref next).observed.keys.length + 1) pid (h.deref next, visiting)).1 :=
      (rematch_spec ops _ _ _ hh.filed).1
    have hround := trial_assign hapart hh hnext
    exact ih _ hround

theorem filedByPID_empty (hfl : FiledByPID m)
    (hhist : n.processHistory = ∅) (hobs : n.observed = m.observed) : FiledByPID n := by
  refine ⟨fun pid o ho => ?_, fun pid pm hpm => ?_, fun pid hpid => ?_⟩
  · rw [hobs] at ho
    exact hfl.observed pid o ho
  · rw [hhist] at hpm
    cases hpm
  · obtain ⟨pm, hpm⟩ := mem_trackedPIDs.mp hpid
    rw [hhist] at hpm
    cases hpm

theorem sameObserved_settle (next previous : Matcher Selector) (freshPorts : List PID) :
    SameObserved next.observed (filterMap
      (fun pid o => some (next.settleObserved ops previous freshPorts pid o)) next.observed) := by
  intro pid
  rw [lookup_filterMap]
  cases next.observed.lookup pid with
  | none => rfl
  | some o =>
    simp only [settleObserved]
    split <;> rfl

theorem of_error {ε α : Type} {e : ε} {P : ε → Prop} {Q : α → Prop} (h : P e) :
    (∀ err, (Except.error e : Except ε α) = .error err → P err) ∧
      ∀ a, (Except.error e : Except ε α) = .ok a → Q a :=
  ⟨fun _ heq => Except.error.inj heq ▸ h, fun _ heq => nomatch heq⟩

/-- A refresh that fails leaves the matcher as it was; one that does not sends what
leads from the processes tracked before to those tracked after. -/
theorem refresh_spec (hv : Allocated h v)
    (hfl : FiledByPID (h.deref v)) (update : CriteriaUpdate Selector) (reads : RefreshReads) :
    let r := refresh ops h v update reads
    (∀ err, r.2 = .error err → r.1.2 = v ∧ r.1.1.deref v = h.deref v ∧ Allocated r.1.1 v ∧
      err ≠ .nilProcess) ∧
    ∀ events, r.2 = .ok events → Allocated r.1.1 r.1.2 ∧ FiledByPID (r.1.1.deref r.1.2) ∧
      Leads (trackedPIDs (h.deref v).processHistory) (matchEvents events)
        (trackedPIDs (r.1.1.deref r.1.2).processHistory) := by
  intro r
  simp only [r, refresh]
  cases reads.startErr with
  | some err => exact of_error ⟨rfl, rfl, hv, nofun⟩
  | none =>
    obtain ⟨hapart, hkept, hold, hnew, hemp, hcopy⟩ := trial_spec update hv
    generalize h.trial v update = t at hapart hkept hold hnew hemp hcopy
    obtain ⟨h₁, next⟩ := t
    have htrial : FiledByPID (h₁.deref next) := filedByPID_empty hfl hemp hcopy
    have hseen : ∀ pid ∈ (h₁.deref v).processHistory.keys.mergeSort (fun a b => decide (a ≤ b)),
        ((h₁.deref next).observed.lookup pid).isSome = true := by
      intro pid hpid
      rw [mem_mergeSort, hkept] at hpid
      rw [hcopy]
      exact hfl.seen pid (mem_toFinset.mpr hpid)
    obtain ⟨hsame, hnil, hhist⟩ := refreshRetainedPorts_spec ops (h₁.deref v) reads _ []
      htrial hseen
    generalize refreshRetainedPorts ops reads (h₁.deref v) _ (h₁.deref next, []) = ports
      at hsame hnil hhist
    obtain ⟨m, fresh⟩ := ports
    have hh2 : Trial v next (h.deref v) (h₁.assign next m) :=
      trial_assign hapart ⟨hkept, htrial, hold, hnew⟩ (htrial.sameObserved hsame hhist)
    cases fresh with
    | error err => exact of_error ⟨rfl, hh2.kept, hh2.old, fun heq => hnil (by rw [heq])⟩
    | ok freshPorts =>
      generalize h₁.assign next m = h2 at hh2
      have hh3 := trial_rematch ops hapart (reads.overObserved.order (h2.deref v).observed.keys) []
        hh2
      generalize (foldl (rematchTrial ops v next) (h2, [])
        (reads.overObserved.order (h2.deref v).observed.keys)).1 = h3 at hh3
      have hcompare := foldl_compareMatch_events ops (h3.deref next) (h3.deref v)
        (reads.overHistory.order (h3.deref v).processHistory.keys) ([], none)
      generalize foldl (compareMatch ops (h3.deref next) (h3.deref v)) ([], none)
        (reads.overHistory.order (h3.deref v).processHistory.keys) = compared at hcompare
      obtain ⟨events, conflicting⟩ := compared
      cases conflicting with
      | some pid => exact of_error ⟨rfl, hh3.kept, hh3.old, nofun⟩
      | none =>
        cases reads.endErr with
        | some err => exact of_error ⟨rfl, hh3.kept, hh3.old, nofun⟩
        | none =>
          refine ⟨fun err heq => (nomatch heq), fun sent heq => ?_⟩
          cases heq
          have hprev : FiledByPID (h3.deref v) := hh3.kept ▸ hfl
          have hsettled := sameObserved_settle ops (h3.deref next) (h3.deref v) freshPorts
          refine ⟨hh3.new, filedByPID_assign (hh3.filed.sameObserved hsettled rfl), ?_⟩
          have hleads := (leads_compare ops hh3.filed hprev (reads.overHistory.perm _)).append
              (leads_newMatches (h3.deref v) hh3.filed (reads.overReplacement.perm _))
          have hevs : events = (reads.overHistory.order (h3.deref v).processHistory.keys).flatMap
                (matchChange ops (h3.deref next) (h3.deref v)) := hcompare
          rw [← hh3.kept]
          show Leads _ (matchEvents (events ++ _)) (trackedPIDs
            (Function.update h3.histories next.processHistory
              (h3.deref next).processHistory next.processHistory))
          rw [Function.update_self, hevs, matchEvents, lifecycle, map_append]
          exact hleads

/-! ## Runs -/

/-- What holds between two rounds of the loop. -/
structure TellsHistory (s : MatcherRun Selector) : Prop where
  allocated : Allocated s.maps s.matcher
  filed : FiledByPID (s.maps.deref s.matcher)
  leads : Leads ∅ (matchEvents s.output) (trackedPIDs (s.maps.deref s.matcher).processHistory)

theorem tellsHistory_start (criteria exclude logEnricher : List Selector)
    (sampler : Option SamplerConfig) :
    TellsHistory (MatcherRun.start criteria exclude logEnricher sampler) := by
  refine ⟨⟨zero_lt_one, zero_lt_one⟩, ⟨fun pid o ho => ?_, fun pid pm hpm => ?_, ?_⟩, .nil _⟩
  · cases ho
  · cases hpm
  · intro pid hpid
    cases mem_toFinset.mp hpid

variable {s : MatcherRun Selector}

/-- A batch of events. -/
theorem tellsHistory_events (hs : TellsHistory s)
    (events : List (Event ProcessAttrs)) : TellsHistory (s.step ops (.events events)) := by
  obtain ⟨hfl, hleads⟩ := filter_spec ops hs.filed events
  refine ⟨hs.allocated, filedByPID_assign hfl, ?_⟩
  have hhist : ((s.step ops (.events events)).maps.deref s.matcher).processHistory =
      ((s.maps.deref s.matcher).filter ops events).1.processHistory := by
    show (deref (assign _ _ _) _).processHistory = _
    rw [deref_assign_self]
  have houtput : (s.step ops (.events events)).output =
      s.output ++ ((s.maps.deref s.matcher).filter ops events).2 := rfl
  have hmatcher : (s.step ops (.events events)).matcher = s.matcher := rfl
  rw [hmatcher, hhist, houtput, matchEvents, lifecycle_append]
  exact hs.leads.append hleads

/-- A refresh, as `Run` uses it. -/
theorem step_update (s : MatcherRun Selector)
    (update : CriteriaUpdate Selector) (reads : RefreshReads) :
    let r := refresh ops s.maps s.matcher update reads
    s.step ops (.update update reads) =
      ⟨r.1.1, r.1.2, s.output ++ match r.2 with | .ok events => events | .error _ => []⟩ := by
  intro r
  rw [MatcherRun.step]
  generalize hr : refresh ops s.maps s.matcher update reads = result
  obtain ⟨⟨h, v⟩, outcome⟩ := result
  have hrr : r = ((h, v), outcome) := hr
  rw [hrr]
  cases outcome with
  | error err => simp
  | ok events => rfl

theorem tellsHistory_update (hs : TellsHistory s)
    (update : CriteriaUpdate Selector) (reads : RefreshReads) :
    TellsHistory (s.step ops (.update update reads)) := by
  obtain ⟨hfail, hdone⟩ := refresh_spec ops hs.allocated hs.filed update reads
  rw [step_update]
  cases hresult : (refresh ops s.maps s.matcher update reads).2 with
  | error err =>
    obtain ⟨hsame, hkept, halloc, -⟩ := hfail err hresult
    simp only [append_nil]
    exact ⟨by rw [hsame]; exact halloc, by rw [hsame, hkept]; exact hs.filed,
      by rw [hsame, hkept]; exact hs.leads⟩
  | ok events =>
    obtain ⟨halloc, hfl, hleads⟩ := hdone events hresult
    refine ⟨halloc, hfl, ?_⟩
    rw [matchEvents, lifecycle_append]
    exact hs.leads.append hleads

theorem tellsHistory_run (inputs : List (MatcherInput Selector)) (hs : TellsHistory s) :
    TellsHistory (inputs.foldl (MatcherRun.step ops) s) := by
  induction inputs generalizing s with
  | nil => exact hs
  | cons input rest ih =>
    refine ih ?_
    cases input with
    | events events => exact tellsHistory_events ops hs events
    | update update reads => exact tellsHistory_update ops hs update reads

/-- What a matcher sends creates, updates and deletes each process in turn, and leads to
the processes of its history. A refresh that fails sends nothing and is not seen in the
matcher, and none of them meets a process that was not observed. -/
theorem matcher_events_tell_history (ops : MatcherOps Selector)
    (criteria exclude logEnricher : List Selector) (sampler : Option SamplerConfig)
    (inputs : List (MatcherInput Selector)) :
    let s := inputs.foldl (MatcherRun.step ops)
      (MatcherRun.start criteria exclude logEnricher sampler)
    Leads ∅ (matchEvents s.output) (trackedPIDs (s.maps.deref s.matcher).processHistory) ∧
      ∀ (update : CriteriaUpdate Selector) (reads : RefreshReads) (err : RefreshError),
        (refresh ops s.maps s.matcher update reads).2 = .error err →
          let s' := s.step ops (.update update reads)
          s'.output = s.output ∧ s'.maps.deref s'.matcher = s.maps.deref s.matcher ∧
            err ≠ .nilProcess := by
  intro s
  have hs : TellsHistory s :=
    tellsHistory_run ops inputs (tellsHistory_start criteria exclude logEnricher sampler)
  refine ⟨hs.leads, fun update reads err herr => ?_⟩
  obtain ⟨hsame, hkept, -, hnil⟩ := (refresh_spec ops hs.allocated hs.filed update reads).1 err herr
  intro s'
  have hs' : s' = _ := step_update ops s update reads
  rw [hs', herr]
  exact ⟨append_nil _, by rw [hsame]; exact hkept, hnil⟩

end Obi.Refine
