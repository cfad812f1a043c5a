import Obi.Proofs.SelectionSources
import Obi.Ref.DynamicMatcher
import Obi.Spec.Lifecycle

/-!
# A selected process is instrumented

The matcher deletes a process when a removal reaches it, unless the selection is
what the process was matched with. If the process was selected again with other
attributes, it has to be seen again after that: then it is matched anew. So the
only way to lose a selected process is a removal that is taken from its channel
after the last sight of the process.
-/

namespace Obi.Refine
open Lib Ref Spec List DynamicSelector MatcherLoop DynamicMatcher
variable {view : SignalView} {pid : PID} {d : DynamicSelector}

/-! ## One PID of a view -/

section
variable (hwf : WellFormedRecords d.byPID)
include hwf

theorem signalsAt_bit (i : Nat) : (signalsAt d.byPID pid).getLsbD i = true ↔
      (sourcesAt d.byPID pid).explicit.getLsbD i = true ∨
        ∃ key, ((sourcesAt d.byPID pid).workload key).getLsbD i = true := by
  rw [signalsAt, hwf.signals_eq, recomputed_bit]
  rfl

theorem selected_addPID (opts : DynamicPIDAttributes) :
    pid ∈ selected (d.call (.addPID view pid opts)).1.byPID view := by
  obtain ⟨i, hi⟩ := ne_zero_iff.mp (mask_ne_zero view)
  refine mem_selected.mpr (contains_iff.mpr ⟨i, ?_, hi⟩)
  refine (signalsAt_bit (tells_call hwf (.addPID view pid opts)).wellFormed i).mpr (.inl ?_)
  have hsrcs : sourcesAt (d.call (.addPID view pid opts)).1.byPID pid =
      (sourcesAt d.byPID pid).add view.mask none := by
    have hadd : sourcesAt (d.addSignalsFrom view.mask (some opts) none [pid]).1.byPID pid =
        if pid ∈ [pid] then (sourcesAt d.byPID pid).add view.mask none
        else sourcesAt d.byPID pid :=
      sourcesAt_addFrom hwf (by intro h; cases h) pid
    rw [if_pos mem_cons_self] at hadd
    exact hadd
  rw [hsrcs, Sources.add, Sources.addExplicit, BitVec.getLsbD_or, hi, Bool.or_true]

theorem not_selected_removePIDs :
    pid ∉ selected (d.call (.removePIDs view [pid])).1.byPID view := by
  intro hsel
  obtain ⟨i, hbit, hi⟩ := contains_iff.mp (mem_selected.mp hsel)
  have hsrcs : sourcesAt (d.call (.removePIDs view [pid])).1.byPID pid =
      (sourcesAt d.byPID pid).remove view.mask := by
    have hrm : sourcesAt (d.removeSignals view.mask [pid]).1.byPID pid =
        if pid ∈ [pid] then (sourcesAt d.byPID pid).remove view.mask
        else sourcesAt d.byPID pid :=
      sourcesAt_removeSignals hwf pid
    rw [if_pos mem_cons_self] at hrm
    exact hrm
  rw [signalsAt_bit (tells_call hwf (.removePIDs view [pid])).wellFormed, hsrcs] at hbit
  simp only [Sources.remove, getLsbD_and_not, hi, Bool.not_true, Bool.and_false,
    Bool.false_eq_true] at hbit
  rcases hbit with hno | ⟨-, hno⟩ <;> exact hno

/-- The view is told of a PID it did not have. -/
theorem added_addPID (opts : DynamicPIDAttributes) : (d.call (.addPID view pid opts)).2.added view =
      if pid ∈ selected d.byPID view then [] else [pid] := by
  have hround : AddRound pid (d.byPID, fun _ => []) (addSignalsTo view.mask
      (some opts) none (d.byPID, fun _ => []) pid) :=
    addRound_addTo hwf (mask_ne_zero view) (some opts) none pid
  have hguard : ¬ (([pid]).isEmpty || view.mask == 0) = true := by simpa using mask_ne_zero view
  have hcall : d.call (.addPID view pid opts) =
      ({ d with byPID := (addSignalsTo view.mask (some opts) none (d.byPID, fun _ => []) pid).1 },
        { Notices.none with added := (addSignalsTo view.mask (some opts) none
          (d.byPID, fun _ => []) pid).2 }) := by
    change d.addSignalsFrom view.mask (some opts) none [pid] = _
    rw [addSignalsFrom, if_neg hguard]
    rfl
  have hnew : pid ∈ selected (d.call (.addPID view pid opts)).1.byPID view :=
    selected_addPID hwf opts
  rw [hcall, mem_selected] at hnew
  rw [hcall]
  simp only [hround.batch view, hnew, and_true, mem_selected, nil_append]
  by_cases hold : view.contains (signalsAt d.byPID pid) = true
  · rw [if_neg (by rw [hold]; exact Bool.noConfusion), if_pos hold]
  · rw [if_pos (Bool.not_eq_true _ ▸ hold), if_neg hold]

/-- The view is told of a PID it had. -/
theorem removed_removePIDs : (d.call (.removePIDs view [pid])).2.removed view =
      if pid ∈ selected d.byPID view then [pid] else [] := by
  have hround : RemoveRound pid (d.byPID, fun _ => [])
      (removeSignalsOf view.mask (d.byPID, fun _ => []) pid) :=
    removeRound_removeOf hwf view.mask pid
  have hcall : d.call (.removePIDs view [pid]) =
      ({ d with byPID := (removeSignalsOf view.mask (d.byPID, fun _ => []) pid).1 },
        { Notices.none with
          removed := (removeSignalsOf view.mask (d.byPID, fun _ => []) pid).2 }) :=
    rfl
  have hnew : pid ∉ selected (d.call (.removePIDs view [pid])).1.byPID view :=
    not_selected_removePIDs hwf
  rw [hcall, mem_selected] at hnew
  rw [hcall]
  simp [hround.batch view, Bool.not_eq_true _ ▸ hnew, mem_selected]

end

/-! ## The matcher -/

theorem materialize_nothing {m : DynamicMatcher} (h : m.selector.byWorkload = ∅)
    (reads : MatcherReads) (q : PID) (md : Option (Table String String)) :
    m.materialize view reads q md = m := by
  have hfind : m.selector.findMatchingWorkload view.mask md reads.order = none := by
    rw [findMatchingWorkload, findSome?_eq_none_iff]
    intro key _
    rw [h]
    rfl
  rw [materialize, materializeMatchingWorkloads, hfind]

theorem includesPID_selected :
    d.includesPID view.mask pid = true ↔ pid ∈ selected d.byPID view := by
  rw [mem_selected]
  exact Iff.rfl

/-- A PID the view has, has criteria. -/
theorem selectorForPID_some (h : pid ∈ selected d.byPID view) :
    ∃ attrs, d.selectorForPID view pid = some ⟨pid, attrs⟩ := by
  rw [selectorForPID, if_pos (includesPID_selected.mpr h)]
  cases hr : d.byPID.lookup pid with
  | none =>
    rw [mem_selected, signalsAt, hr, Option.getD_none, show DynamicPIDRecord.zero.signals = 0 from
      rfl, contains_zero] at h
    cases h
  | some r => exact ⟨_, rfl⟩

/-- The processes of a history. -/
def historyPIDs (m : DynamicMatcher) : Finset PID := m.processHistory.keys.toFinset

/-- What a listener is told by the output. -/
def lifecycleEvents (out : List (Event DynamicMatch)) : List LifecycleEvent :=
  lifecycle (fun procMatch => procMatch.process.pid) out

/-- No process but this one is tracked, and no workload is selected. -/
structure OnlyPID (pid : PID) (m : DynamicMatcher) : Prop where
  workloads : m.selector.byWorkload = ∅
  only : ∀ q procMatch, m.processHistory.lookup q = some procMatch →
    q = pid ∧ procMatch.process.pid = pid

variable {m : DynamicMatcher}

theorem mem_historyPIDs {q : PID} :
    q ∈ historyPIDs m ↔ ∃ procMatch, m.processHistory.lookup q = some procMatch := by
  rw [historyPIDs, mem_toFinset, ← Option.isSome_iff_exists, AList.lookup_isSome]
  exact Iff.rfl

/-- What the matcher does to its history for one process. -/
inductive HistoryStep (pid : PID) (m : DynamicMatcher) :
    DynamicMatcher × List (Event DynamicMatch) → Prop
  | keep : HistoryStep pid m (m, [])
  | create {procMatch : DynamicMatch} (hnew : pid ∉ historyPIDs m)
      (hpid : procMatch.process.pid = pid) :
      HistoryStep pid m ({ m with processHistory := m.processHistory.insert pid procMatch },
        [⟨.created, procMatch⟩])
  | delete {procMatch : DynamicMatch} (hold : m.processHistory.lookup pid = some procMatch) :
      HistoryStep pid m ({ m with processHistory := m.processHistory.erase pid },
        [⟨.deleted, procMatch⟩])

namespace HistoryStep

variable {r : DynamicMatcher × List (Event DynamicMatch)} (h : HistoryStep pid m r)
include h

theorem selector_eq : r.1.selector = m.selector := by
  cases h <;> rfl

theorem onlyPID (hm : OnlyPID pid m) : OnlyPID pid r.1 := by
  refine ⟨by rw [h.selector_eq]; exact hm.workloads, ?_⟩
  intro q procMatch hq
  cases h with
  | keep => exact hm.only q procMatch hq
  | create hnew hpid =>
    by_cases hqp : q = pid
    · subst hqp
      rw [AList.lookup_insert, Option.some.injEq] at hq
      exact ⟨rfl, hq ▸ hpid⟩
    · rw [AList.lookup_insert_ne hqp] at hq
      exact hm.only q procMatch hq
  | delete hold =>
    by_cases hqp : q = pid
    · subst hqp
      rw [AList.lookup_erase] at hq
      cases hq
    · rw [AList.lookup_erase_ne hqp] at hq
      exact hm.only q procMatch hq

theorem leads (hm : OnlyPID pid m) :
    Leads (historyPIDs m) (lifecycleEvents r.2) (historyPIDs r.1) := by
  cases h with
  | keep => exact .nil _
  | @create procMatch hnew hpid =>
    have hkeys : historyPIDs { m with processHistory := m.processHistory.insert pid procMatch } =
        insert pid (historyPIDs m) := by
      ext q
      simp only [historyPIDs, mem_toFinset, Finset.mem_insert]
      exact AList.mem_insert m.processHistory
    rw [hkeys, lifecycleEvents, lifecycle, map_singleton, hpid]
    exact .created hnew
  | @delete procMatch hold =>
    have hkeys : historyPIDs { m with processHistory := m.processHistory.erase pid } =
        (historyPIDs m).erase pid := by
      ext q
      simp only [historyPIDs, mem_toFinset, Finset.mem_erase]
      exact AList.mem_erase
    rw [hkeys, lifecycleEvents, lifecycle, map_singleton, (hm.only pid procMatch hold).2]
    exact .deleted (mem_historyPIDs.mpr ⟨procMatch, hold⟩)

end HistoryStep

theorem filter_created (reads : MatcherReads) (obj : ProcessAttrs) :
    m.filter view reads [⟨.created, obj⟩] =
      ((m.filterCreated view reads obj).1, (m.filterCreated view reads obj).2.toList) := rfl

/-- A sight of the process: it is tracked from then on if it is selected. -/
theorem filter_seen (hm : OnlyPID pid m) (reading : ProcReading) (order : List WorkloadKey)
    (seen : ProcessAttrs) :
    HistoryStep pid m (m.filter view ⟨fun _ => .ok reading, order⟩
        [⟨.created, { seen with pid := pid }⟩]) ∧
      (pid ∈ historyPIDs (m.filter view ⟨fun _ => .ok reading, order⟩
          [⟨.created, { seen with pid := pid }⟩]).1 ↔
        pid ∈ historyPIDs m ∨ pid ∈ selected m.selector.byPID view) := by
  rw [filter_created, filterCreated]
  by_cases hold : pid ∈ historyPIDs m
  · obtain ⟨procMatch, hlook⟩ := mem_historyPIDs.mp hold
    rw [if_pos (by rw [hlook]; rfl), materialize_nothing hm.workloads]
    exact ⟨.keep, fun _ => .inl hold, fun _ => hold⟩
  have hnone : m.processHistory.lookup pid = none := by
    rw [← Option.not_isSome_iff_eq_none, Option.isSome_iff_exists]
    exact mt mem_historyPIDs.mpr hold
  rw [if_neg (by rw [hnone]; exact Bool.false_ne_true)]
  simp only [processInfo, matchDynamicCriteria, materialize_nothing hm.workloads]
  by_cases hsel : pid ∈ selected m.selector.byPID view
  · obtain ⟨attrs, hselector⟩ := selectorForPID_some hsel
    rw [includesPID_selected.mpr hsel, hselector]
    refine ⟨.create hold rfl, fun _ => .inr hsel, fun _ => ?_⟩
    exact mem_historyPIDs.mpr ⟨_, AList.lookup_insert m.processHistory⟩
  -- only the process itself could be tracked, so its parent is not
  have hparent : m.processHistory.lookup reading.ppid = none := by
    cases hp : m.processHistory.lookup reading.ppid with
    | none => rfl
    | some procMatch =>
      rw [(hm.only _ _ hp).1, hnone] at hp
      cases hp
  rw [Bool.eq_false_iff.mpr (mt includesPID_selected.mp hsel)]
  simp only [Bool.not_false, if_true, hparent]
  exact ⟨.keep, .inl, fun h => h.resolve_right hsel⟩

/-- A removal: the process is kept if its selection is what it was matched with. -/
theorem syntheticDeletes_one : HistoryStep pid m (m.syntheticDeletesForRemovedPIDs view [pid]) ∧
      (pid ∈ historyPIDs (m.syntheticDeletesForRemovedPIDs view [pid]).1 ↔
        ∃ procMatch, m.processHistory.lookup pid = some procMatch ∧
          m.selectionUnchanged view pid procMatch = true) := by
  change HistoryStep pid m (syntheticDelete view (m, []) pid) ∧
    (pid ∈ historyPIDs (syntheticDelete view (m, []) pid).1 ↔ _)
  rw [syntheticDelete]
  cases hold : m.processHistory.lookup pid with
  | none =>
    refine ⟨.keep, ?_⟩
    rw [mem_historyPIDs]
    simp [hold]
  | some procMatch =>
    simp only [Option.some.injEq, exists_eq_left']
    split
    · next hsame => exact ⟨.keep, fun _ => hsame, fun _ => mem_historyPIDs.mpr ⟨_, hold⟩⟩
    · next hsame =>
      refine ⟨.delete hold, ?_⟩
      rw [mem_historyPIDs]
      simp [hsame]

/-! ## Runs -/

/-- What holds whenever the matcher waits for its channels. -/
structure MatcherInv (view : SignalView) (pid : PID) (s : MatcherLoop) : Prop where
  records : WellFormedRecords s.matcher.selector.byPID
  only : OnlyPID pid s.matcher
  seen : ∀ batch ∈ s.input, ∃ seen : ProcessAttrs, batch = [⟨.created, { seen with pid := pid }⟩]
  taken : ∀ batch ∈ s.removed, batch = [pid]
  leads : Leads ∅ (lifecycleEvents s.output) (historyPIDs s.matcher)
  tracked : pid ∈ selected s.matcher.selector.byPID view → s.due = 0 → s.input = [] →
    pid ∈ historyPIDs s.matcher
  untracked : pid ∉ selected s.matcher.selector.byPID view → s.removed = [] →
    pid ∉ historyPIDs s.matcher

theorem MatcherInv.init (view : SignalView) (pid : PID) : MatcherInv view pid .init where
  records := selectorAfter_wf []
  only := ⟨rfl, fun _ _ h => nomatch h⟩
  seen := fun _ h => nomatch h
  taken := fun _ h => nomatch h
  leads := .nil _
  tracked := fun h => by
    rw [mem_selected, show signalsAt _ pid = 0 from rfl, contains_zero] at h
    cases h
  untracked := fun _ _ h => by
    obtain ⟨procMatch, hnone⟩ := mem_historyPIDs.mp h
    cases hnone

variable {s : MatcherLoop}

section
variable (h : MatcherInv view pid s)
include h

theorem matcherInv_addPID (opts : DynamicPIDAttributes) :
    MatcherInv view pid (s.step view pid (.addPID opts)) := by
  refine ⟨(tells_call h.records (.addPID view pid opts)).wellFormed, ⟨?_, h.only.only⟩, h.seen,
    h.taken, h.leads, ?_, ?_⟩
  · exact (byWorkload_addFrom (some opts) none [pid]).trans h.only.workloads
  · intro _ hdue hinput
    have hdue' : s.due + (if pid ∈ selected s.matcher.selector.byPID view then []
        else [pid]).length = 0 := by
      rw [← added_addPID h.records opts]
      exact hdue
    by_cases hsel : pid ∈ selected s.matcher.selector.byPID view
    · exact h.tracked hsel (Nat.eq_zero_of_add_eq_zero_right hdue') hinput
    · rw [if_neg hsel] at hdue'
      cases hdue'
  · intro hsel
    exact absurd (selected_addPID h.records opts) hsel

theorem matcherInv_removePIDs : MatcherInv view pid (s.step view pid .removePIDs) := by
  have hrem : (s.matcher.selector.call (.removePIDs view [pid])).2.removed view = _ :=
    removed_removePIDs h.records
  have hstep : (s.step view pid .removePIDs).removed =
      if pid ∈ selected s.matcher.selector.byPID view then s.removed ++ [[pid]]
      else s.removed := by
    rw [step]
    simp only []
    rw [hrem]
    split <;> rfl
  refine ⟨(tells_call h.records (.removePIDs view [pid])).wellFormed, ⟨?_, h.only.only⟩, h.seen,
    ?_, h.leads, ?_, ?_⟩
  · exact h.only.workloads
  · intro batch hbat
    rw [hstep] at hbat
    split at hbat
    · rcases mem_append.mp hbat with hbat | hbat
      · exact h.taken batch hbat
      · exact mem_singleton.mp hbat
    · exact h.taken batch hbat
  · intro hsel
    exact absurd hsel (not_selected_removePIDs h.records)
  · intro _ hnone
    rw [hstep] at hnone
    split at hnone
    · exact absurd hnone (append_ne_nil_of_right_ne_nil _ (cons_ne_nil _ _))
    · next hsel => exact h.untracked hsel hnone

theorem matcherInv_rescan (seen : ProcessAttrs) :
    MatcherInv view pid (s.step view pid (.rescan seen)) := by
  rw [step]
  split
  · exact h
  refine ⟨h.records, h.only, ?_, h.taken, h.leads, ?_, h.untracked⟩
  · intro batch hbat
    rcases mem_append.mp hbat with hbat | hbat
    · exact h.seen batch hbat
    · exact ⟨seen, mem_singleton.mp hbat⟩
  · intro _ _ hinput
    exact absurd hinput (append_ne_nil_of_right_ne_nil _ (cons_ne_nil _ _))

/-- What the matcher puts out follows what it put out before. -/
theorem MatcherInv.leads_append
    {r : DynamicMatcher × List (Event DynamicMatch)} (hr : HistoryStep pid s.matcher r) :
    Leads ∅ (lifecycleEvents (s.output ++ r.2)) (historyPIDs r.1) := by
  rw [lifecycleEvents, lifecycle_append]
  exact h.leads.append (hr.leads h.only)

theorem matcherInv_recvInput (reading : ProcReading) (order : List WorkloadKey) :
    MatcherInv view pid (s.step view pid (.receiveInput reading order)) := by
  rw [step]
  cases hinput : s.input with
  | nil => exact h
  | cons batch rest =>
    have hmem : ∀ b, b ∈ batch :: rest → b ∈ s.input := fun b hb => hinput ▸ hb
    obtain ⟨seen, rfl⟩ := h.seen batch (hmem batch mem_cons_self)
    obtain ⟨htrk, hthen⟩ := @filter_seen view pid s.matcher h.only reading order seen
    refine ⟨?_, htrk.onlyPID h.only, fun b hb => h.seen b (hmem b (mem_cons_of_mem _ hb)),
      h.taken, h.leads_append htrk, ?_, ?_⟩
    · exact htrk.selector_eq ▸ h.records
    · intro hsel _ _
      exact hthen.mpr (.inr (htrk.selector_eq ▸ hsel))
    · intro hsel hrem hpid
      have hsel' : pid ∉ selected s.matcher.selector.byPID view := htrk.selector_eq ▸ hsel
      exact h.untracked hsel' hrem ((hthen.mp hpid).resolve_right hsel')

end

/-- The removal that is next finds the process selected with other attributes: then
the process is still to be seen. -/
def InTime (view : SignalView) (pid : PID) (s : MatcherLoop) : MatcherEvent → Prop
  | .receiveRemoved =>
    s.removed ≠ [] → s.matcher.selector.includesPID view.mask pid = true →
      (∃ procMatch, s.matcher.processHistory.lookup pid = some procMatch ∧
        s.matcher.selectionUnchanged view pid procMatch = false) →
      0 < s.due ∨ s.input ≠ []
  | _ => True

theorem matcherInv_recvRemoved (h : MatcherInv view pid s)
    (hok : InTime view pid s .receiveRemoved) :
    MatcherInv view pid (s.step view pid .receiveRemoved) := by
  rw [step]
  cases hrem : s.removed with
  | nil => exact h
  | cons batch rest =>
    have hmem : ∀ b, b ∈ batch :: rest → b ∈ s.removed := fun b hb => hrem ▸ hb
    obtain rfl := h.taken batch (hmem batch mem_cons_self)
    obtain ⟨htrk, hthen⟩ := @syntheticDeletes_one view pid s.matcher
    refine ⟨?_, htrk.onlyPID h.only, h.seen,
      fun b hb => h.taken b (hmem b (mem_cons_of_mem _ hb)), h.leads_append htrk, ?_, ?_⟩
    · exact htrk.selector_eq ▸ h.records
    · intro hsel hdue hinput
      have hsel' : pid ∈ selected s.matcher.selector.byPID view := htrk.selector_eq ▸ hsel
      obtain ⟨procMatch, hlook⟩ := mem_historyPIDs.mp (h.tracked hsel' hdue hinput)
      refine hthen.mpr ⟨procMatch, hlook, ?_⟩
      by_contra hchanged
      rcases hok (hrem ▸ cons_ne_nil _ _) (includesPID_selected.mpr hsel')
        ⟨procMatch, hlook, Bool.eq_false_iff.mpr hchanged⟩ with hlt | hne
      · exact absurd hdue (ne_of_gt hlt)
      · exact hne hinput
    · intro hsel _ hpid
      have hsel' : pid ∉ selected s.matcher.selector.byPID view := htrk.selector_eq ▸ hsel
      obtain ⟨procMatch, -, hsame⟩ := hthen.mp hpid
      rw [selectionUnchanged, selectorForPID,
        if_neg (mt includesPID_selected.mp hsel')] at hsame
      cases hsame

theorem matcherInv_step (h : MatcherInv view pid s) (e : MatcherEvent) (hok : InTime view pid s e) :
    MatcherInv view pid (s.step view pid e) := by
  cases e with
  | addPID opts => exact matcherInv_addPID h opts
  | removePIDs => exact matcherInv_removePIDs h
  | rescan seen => exact matcherInv_rescan h seen
  | receiveInput reading order => exact matcherInv_recvInput h reading order
  | receiveRemoved => exact matcherInv_recvRemoved h hok

/-- The events put out are those of the history, and once nothing waits the process is
tracked if it is selected. -/
theorem selected_process_tracked (view : SignalView) (pid : PID) (events : List MatcherEvent)
    (hintime : Along (step view pid) (InTime view pid) .init events) :
    Leads ∅ (lifecycleEvents (events.foldl (step view pid) .init).output)
        (historyPIDs (events.foldl (step view pid) .init).matcher) ∧
      ((events.foldl (step view pid) .init).due = 0 →
        (events.foldl (step view pid) .init).input = [] →
        (events.foldl (step view pid) .init).removed = [] →
        (pid ∈ historyPIDs (events.foldl (step view pid) .init).matcher ↔
          (events.foldl (step view pid) .init).matcher.selector.includesPID
            view.mask pid = true)) := by
  have h : MatcherInv view pid (events.foldl (step view pid) .init) :=
    hintime.inv (fun s e hs hok => matcherInv_step hs e hok) (MatcherInv.init view pid)
  refine ⟨h.leads, fun hdue hinput hrem => ⟨fun hpid => ?_, fun hsel => ?_⟩⟩
  · by_contra hsel
    exact h.untracked (mt includesPID_selected.mpr hsel) hrem hpid
  · exact h.tracked (includesPID_selected.mp hsel) hdue hinput

/-- A process as the poll sees it. -/
def oneSight : ProcessAttrs := ⟨7, 1, ⟨1, 1⟩, [], none, ∅, ∅, 0, 0, ""⟩

/-- The process is selected under a name and seen, and the matcher takes it up. -/
def selectedAs (name : String) : List MatcherEvent :=
  [.addPID ⟨name, "", ∅⟩, .rescan oneSight, .receiveInput ⟨1, "/bin/a", ""⟩ []]

def afterMatching (events : List MatcherEvent) : MatcherLoop :=
  events.foldl (step .appSignals 7) .init

/-- It is taken back and selected under another name, and the matcher hears of the removal
before it sees the process again. -/
def renamedTo (name : String) : List MatcherEvent :=
  [.removePIDs, .addPID ⟨name, "", ∅⟩, .receiveRemoved, .rescan oneSight,
    .receiveInput ⟨1, "/bin/a", ""⟩ []]

/-- Twice renamed, the process is tracked. -/
theorem selected_process_tracked_renamed : (7 : PID) ∈ historyPIDs
    (afterMatching (selectedAs "a" ++ renamedTo "b" ++ renamedTo "c")).matcher :=
  ((selected_process_tracked .appSignals 7 (selectedAs "a" ++ renamedTo "b" ++ renamedTo "c")
    ⟨trivial, trivial, trivial, trivial, trivial, fun _ _ _ => .inl (by decide +kernel),
      trivial, trivial, trivial, trivial, fun _ _ _ => .inl (by decide +kernel), trivial, trivial,
      trivial⟩).2 (by decide +kernel) (by decide +kernel) (by decide +kernel)).mpr
    (by decide +kernel)

/-- The process is taken back and selected under another name, and is seen before the
matcher hears of the removal: it is selected and not tracked. -/
theorem selected_process_lost :
    (afterMatching (selectedAs "a" ++ .removePIDs :: selectedAs "b" ++ [.receiveRemoved])).due = 0 ∧
      (afterMatching
        (selectedAs "a" ++ .removePIDs :: selectedAs "b" ++ [.receiveRemoved])).input.length = 0 ∧
      (afterMatching
        (selectedAs "a" ++ .removePIDs :: selectedAs "b" ++ [.receiveRemoved])).removed = [] ∧
      (afterMatching (selectedAs "a" ++ .removePIDs :: selectedAs "b" ++
        [.receiveRemoved])).matcher.selector.includesPID SignalView.appSignals.mask 7 = true ∧
      7 ∉ historyPIDs (afterMatching
        (selectedAs "a" ++ .removePIDs :: selectedAs "b" ++ [.receiveRemoved])).matcher := by
  decide +kernel

end Obi.Refine
