import Obi.Proofs.DynamicSelector
import Obi.Spec.SelectionSources

/-!
# The sources of a selection are kept apart

A record has one mask for the caller and one for each workload, and all of them
are to tell the history of the PID. `addSignalsFrom` gives up before it writes
the record when the union of the masks stays the same and there are no options:
a caller who adds a PID that a workload selects already is forgotten, and the
PID goes with the workload. Where that does not happen, a PID is selected for a
signal exactly when one of its sources still selects it.
-/

namespace Obi.Refine
open Lib Ref Spec DynamicSelector BitVec Option List

/-! ## Signals of a mask -/

section
variable {s : Signal} {a b : DynamicPIDSignal}

def signalBit : Signal → Nat
  | .traces => 0
  | .appMetrics => 1
  | .networkMetrics => 2
  | .statsMetrics => 3

theorem view_mask_twoPow (s : Signal) : s.view.mask = twoPow 8 (signalBit s) := by
  cases s <;> rfl

theorem signal_in_iff : s.In a ↔ a.getLsbD (signalBit s) = true := by
  have hlt : signalBit s < 8 := by cases s <;> decide
  rw [Signal.In, view_mask_twoPow, ne_zero_iff]
  simp only [getLsbD_and, getLsbD_twoPow, Bool.and_eq_true, decide_eq_true_iff]
  constructor
  · rintro ⟨i, hi, -, rfl⟩
    exact hi
  · intro h
    exact ⟨_, h, hlt, rfl⟩

theorem signal_in_or : s.In (a ||| b) ↔ s.In a ∨ s.In b := by
  rw [signal_in_iff, signal_in_iff, signal_in_iff, getLsbD_or, Bool.or_eq_true]

theorem signal_in_and_not : s.In (a &&& ~~~b) ↔ s.In a ∧ ¬ s.In b := by
  rw [signal_in_iff, signal_in_iff, signal_in_iff, getLsbD_and_not, Bool.and_eq_true,
    Bool.not_eq_true', Bool.not_eq_true]

theorem not_signal_in_zero : ¬ s.In 0 := by
  rw [signal_in_iff]
  exact not_getLsbD_zero

end

/-! ## The sources of a record -/

@[ext]
structure Sources where
  explicit : DynamicPIDSignal
  workload : WorkloadKey → DynamicPIDSignal

namespace Sources

variable (mask : DynamicPIDSignal) (key : WorkloadKey)

def none : Sources := ⟨0, fun _ => 0⟩

def addExplicit (s : Sources) : Sources := { s with explicit := s.explicit ||| mask }

def addWorkload (s : Sources) : Sources :=
  { s with workload := fun k => if k = key then s.workload k ||| mask else s.workload k }

def remove (s : Sources) : Sources := ⟨s.explicit &&& ~~~mask, fun k => s.workload k &&& ~~~mask⟩

def removeWorkload (s : Sources) : Sources :=
  { s with workload := fun k => if k = key then s.workload k &&& ~~~mask else s.workload k }

def clear (s : Sources) : Sources := { s with workload := fun _ => 0 }

/-- A source is added: the caller itself, or a workload. -/
def add (s : Sources) : Option WorkloadKey → Sources
  | Option.none => s.addExplicit mask
  | some key => s.addWorkload mask key

theorem add_add (s : Sources) (src : Option WorkloadKey) :
    (s.add mask src).add mask src = s.add mask src := by
  cases src with
  | none =>
    refine Sources.ext ?_ rfl
    exact (BitVec.or_assoc _ _ _).trans (by rw [BitVec.or_self]; rfl)
  | some key =>
    refine Sources.ext rfl (funext fun k => ?_)
    simp only [add, addWorkload]
    split
    · rw [BitVec.or_assoc, BitVec.or_self]
    · rfl

theorem add_zero (s : Sources) (src : Option WorkloadKey) : s.add 0 src = s := by
  cases src with
  | none => exact Sources.ext (or_zero) rfl
  | some key =>
    refine Sources.ext rfl (funext fun k => ?_)
    simp only [add, addWorkload]
    split
    · exact or_zero
    · rfl

theorem remove_none : none.remove mask = none := Sources.ext zero_and (funext fun _ => zero_and)

end Sources

def sourcesOf (r : DynamicPIDRecord) : Sources :=
  ⟨r.explicitSignals, DynamicPIDRecord.signalsFrom r⟩

/-- The sources of a PID, none when it has no record. -/
def sourcesAt (byPID : PIDRecords) (pid : PID) : Sources :=
  sourcesOf ((byPID.lookup pid).getD .zero)

variable {r : DynamicPIDRecord} {mask : DynamicPIDSignal} {key : WorkloadKey}

theorem sourcesOf_addSource (src : Option WorkloadKey) :
    sourcesOf (r.addSource mask src) = (sourcesOf r).add mask src := by
  cases src with
  | none => rfl
  | some key =>
    refine Sources.ext rfl (funext fun k => ?_)
    refine eq_of_bits fun i => ?_
    simp only [sourcesOf, Sources.add, Sources.addWorkload, addSource_from]
    by_cases hk : k = key
    · rw [if_pos hk, hk, decide_eq_true rfl, Bool.true_and, getLsbD_or]
    · have hne : ¬ some key = some k := fun h => hk (some.inj h).symm
      rw [if_neg hk, decide_eq_false hne, Bool.false_and, Bool.or_false]

theorem sourcesOf_withoutSignals :
    sourcesOf (withoutSignals mask r) = (sourcesOf r).remove mask := by
  refine Sources.ext rfl (funext fun k => eq_of_bits fun i => ?_)
  simp only [sourcesOf, withoutSignals, Sources.remove, clearWorkloads_from, getLsbD_and_not]

open DynamicSelector in
theorem sourcesOf_withoutWorkload :
    sourcesOf (withoutWorkload mask key r) = (sourcesOf r).removeWorkload mask key := by
  refine Sources.ext withoutWorkload_explicit (funext fun k => eq_of_bits fun i => ?_)
  simp only [sourcesOf, Sources.removeWorkload, withoutWorkload_from]
  split
  · next hk => rw [decide_eq_true hk, Bool.true_and, getLsbD_and_not]
  · next hk => rw [decide_eq_false hk, Bool.false_and, Bool.not_false, Bool.and_true]

/-- A record without a signal has no source. -/
theorem sourcesOf_eq_none (h : r.recomputedSignals = 0) : sourcesOf r = .none := by
  have hbit : ∀ i, ¬ r.recomputedSignals.getLsbD i = true := by
    intro i
    rw [h]
    exact not_getLsbD_zero
  refine Sources.ext (eq_of_bits fun i => ?_) (funext fun k => eq_of_bits fun i => ?_)
  · exact iff_of_false (fun hi => hbit i (recomputed_bit.mpr (.inl hi))) not_getLsbD_zero
  · exact iff_of_false (fun hi => hbit i (recomputed_bit.mpr (.inr ⟨k, hi⟩)))
      not_getLsbD_zero

variable {byPID : PIDRecords} {opts : Option DynamicPIDAttributes} {pids : List PID}

theorem sourcesAt_insert (pid q : PID) :
    sourcesAt (byPID.insert pid r) q = if q = pid then sourcesOf r else sourcesAt byPID q := by
  rw [sourcesAt, Table.get_insert]
  split
  · rfl
  · rfl

/-- Storing a record, or dropping it when nothing is left, stores its sources. -/
theorem sourcesAt_store (pid q : PID) : sourcesAt (if r.recomputedSignals = 0 then byPID.erase pid
      else byPID.insert pid { r with signals := r.recomputedSignals }) q =
      if q = pid then sourcesOf r else sourcesAt byPID q := by
  split
  · next h =>
    rw [sourcesAt, Table.get_erase, sourcesOf_eq_none h]
    split <;> rfl
  · rw [sourcesAt_insert]
    rfl

/-- A map of workloads that says nothing new may be shared or not. -/
theorem sourcesAt_writeThrough {pid : PID} {m : Option (Table WorkloadKey DynamicPIDSignal)}
    (hm : ∀ r, byPID.lookup pid = some r →
      sourcesOf { r with fromWorkloads := m } = sourcesOf r) (q : PID) :
    sourcesAt (writeThrough byPID pid m) q = sourcesAt byPID q := by
  rw [writeThrough]
  cases hr : byPID.lookup pid with
  | none => rfl
  | some r =>
    simp only []
    split
    · rw [sourcesAt_insert]
      split
      · next hq => rw [hm r hr, hq, sourcesAt, hr, getD_some]
      · rfl
    · rfl

/-! ## Rounds -/

variable {st : PIDRecords × ByView} {pid : PID} {d' : DynamicSelector} {src : Option WorkloadKey}
  {w : WorkloadKey × DynamicWorkloadRecord}

/-- If the union of the masks has the signals already, so has the mask of the
caller. -/
def RecordsExplicit (byPID : PIDRecords) (mask : DynamicPIDSignal) (pid : PID) : Prop :=
  signalsAt byPID pid ||| mask = signalsAt byPID pid →
    (sourcesAt byPID pid).explicit ||| mask = (sourcesAt byPID pid).explicit

theorem sourcesAt_addTo (hwf : WellFormedRecords st.1)
    (hsafe : opts = none → src = none ∧ RecordsExplicit st.1 mask pid) (q : PID) :
    sourcesAt (addSignalsTo mask opts src st pid).1 q =
      if q = pid then (sourcesAt st.1 q).add mask src else sourcesAt st.1 q := by
  have hold := hwf.signals_eq pid
  generalize hr : (st.1.lookup pid).getD .zero = old at hold
  have hat : sourcesAt st.1 pid = sourcesOf old := by rw [sourcesAt, hr]
  have hbit : ∀ i, ({ old with attrs := opts.getD old.attrs }.addSource mask
      src).recomputedSignals.getLsbD i = true ↔
        old.signals.getLsbD i = true ∨ mask.getLsbD i = true := by
    intro i
    rw [addSource_bit, hold]
    exact Iff.rfl
  have hnew : sourcesOf ({ old with attrs := opts.getD old.attrs }.addSource mask src) =
      (sourcesAt st.1 pid).add mask src := by
    rw [sourcesOf_addSource, hat]
    rfl
  generalize hadd : { old with attrs := opts.getD old.attrs }.addSource mask src = new at hbit hnew
  have hsto : sourcesAt (st.1.insert pid { new with signals := new.recomputedSignals }) q =
      if q = pid then (sourcesAt st.1 q).add mask src else sourcesAt st.1 q := by
    rw [sourcesAt_insert]
    split
    · next hq => rw [hq, ← hnew]; rfl
    · rfl
  rw [addSignalsTo.eq_def]
  simp only [hr, hadd]
  split
  · next hsame =>
    cases opts with
    | some attrs => exact hsto
    | none =>
      obtain ⟨rfl, hexp⟩ := hsafe rfl
      have hcovered : signalsAt st.1 pid ||| mask = signalsAt st.1 pid := by
        rw [signalsAt, hr]
        refine eq_of_bits fun i => ?_
        rw [getLsbD_or, Bool.or_eq_true, ← hbit, hsame]
      rw [sourcesAt_writeThrough]
      · split
        · next hq =>
          subst hq
          exact Sources.ext (hexp hcovered).symm rfl
        · rfl
      intro r hlook
      obtain rfl : r = old := by rw [← hr, hlook, getD_some]
      subst hadd
      rfl
  · exact hsto

theorem sourcesAt_removeOf (hwf : WellFormedRecords st.1) (q : PID) :
    sourcesAt (removeSignalsOf mask st pid).1 q =
      if q = pid then (sourcesAt st.1 q).remove mask else sourcesAt st.1 q := by
  rw [removeSignalsOf]
  cases hr : st.1.lookup pid with
  | none =>
    simp only []
    split
    · next hq =>
      have hnone : sourcesAt st.1 q = .none := by rw [hq, sourcesAt, hr]; rfl
      rw [hnone, Sources.remove_none]
    · rfl
  | some old =>
    have hat : sourcesAt st.1 pid = sourcesOf old := by rw [sourcesAt, hr, getD_some]
    simp only []
    split
    · next hsame =>
      change (withoutSignals mask old).recomputedSignals = old.signals at hsame
      -- the union has none of the signals, so no source has
      have hout : ∀ i, old.recomputedSignals.getLsbD i = true → mask.getLsbD i = false := by
        intro i hi
        rw [← (hwf pid old hr).1, ← hsame, withoutSignals_bit] at hi
        exact hi.2
      have hrm : (sourcesOf old).remove mask = sourcesOf old := by
        refine Sources.ext (eq_of_bits fun i => ?_) (funext fun k => eq_of_bits fun i => ?_)
        · simp only [Sources.remove, getLsbD_and_not, Bool.and_eq_true, Bool.not_eq_true']
          exact ⟨fun h => h.1, fun h => ⟨h, hout i (recomputed_bit.mpr (.inl h))⟩⟩
        · simp only [Sources.remove, getLsbD_and_not, Bool.and_eq_true, Bool.not_eq_true']
          exact ⟨fun h => h.1, fun h => ⟨h, hout i (recomputed_bit.mpr (.inr ⟨k, h⟩))⟩⟩
      rw [sourcesAt_writeThrough]
      · split
        · next hq => rw [hq, hat, hrm]
        · rfl
      intro r hlook
      obtain rfl : old = r := some.inj (hr.symm.trans hlook)
      have hwork : (sourcesOf (withoutSignals mask old)).workload = (sourcesOf old).workload := by
        rw [sourcesOf_withoutSignals, hrm]
      exact Sources.ext rfl hwork
    · refine (sourcesAt_store (r := withoutSignals mask old) pid q).trans ?_
      rw [sourcesOf_withoutSignals]
      split
      · next hq => rw [hq, hat]
      · rfl

theorem sourcesAt_clearOf (q : PID) : sourcesAt (clearSourcesOf st pid).1 q =
      if q = pid then (sourcesAt st.1 q).clear else sourcesAt st.1 q := by
  rw [clearSourcesOf]
  cases hr : st.1.lookup pid with
  | none =>
    simp only []
    split
    · next hq =>
      have hnone : sourcesAt st.1 q = .none := by rw [hq, sourcesAt, hr]; rfl
      rw [hnone]
      rfl
    · rfl
  | some old =>
    have hat : sourcesAt st.1 pid = sourcesOf old := by rw [sourcesAt, hr, getD_some]
    simp only []
    split
    · next hemp =>
      split
      · next hq =>
        refine Sources.ext rfl (funext fun k => ?_)
        have hlook : old.workloads.lookup k = none := by
          rw [AList.lookup, isEmpty_iff.mp hemp]
          rfl
        rw [hq, hat]
        exact congrArg (fun o : Option DynamicPIDSignal => o.getD 0) hlook
      · rfl
    · refine (sourcesAt_store pid q).trans ?_
      split
      · next hq => rw [hq, hat]; rfl
      · rfl

/-! ## Operations -/

variable {d : DynamicSelector}

theorem sourcesAt_addFrom (hwf : WellFormedRecords d.byPID)
    (hsafe : opts = none → src = none ∧ ∀ pid ∈ pids, RecordsExplicit d.byPID mask pid) (q : PID) :
    sourcesAt (d.addSignalsFrom mask opts src pids).1.byPID q =
      if q ∈ pids then (sourcesAt d.byPID q).add mask src else sourcesAt d.byPID q := by
  rw [addSignalsFrom]
  split
  · next hnone =>
    rcases Bool.or_eq_true _ _ ▸ hnone with hemp | hzero
    · rw [isEmpty_iff.mp hemp, if_neg not_mem_nil]
    · rw [eq_of_beq hzero, Sources.add_zero, ite_self]
  · next hnone =>
    have hmask : mask ≠ 0 := by
      rintro rfl
      exact hnone (Bool.or_true _)
    refine (foldl_observe (P := fun st : PIDRecords × ByView => WellFormedRecords st.1 ∧
        (opts = none → src = none ∧ ∀ pid ∈ pids, RecordsExplicit st.1 mask pid))
      (fun st q => sourcesAt st.1 q) (fun s => s.add mask src)
      (fun s => Sources.add_add mask s src) ?_ (d.byPID, fun _ => []) ⟨hwf, hsafe⟩).2 q
    rintro st pid hpid ⟨hwf, hsafe⟩
    have hround := addRound_addTo hwf hmask opts src pid
    have hsrcs : ∀ q, sourcesAt (addSignalsTo mask opts src st pid).1 q =
        if q = pid then (sourcesAt st.1 q).add mask src else sourcesAt st.1 q :=
      sourcesAt_addTo hwf fun h => ⟨(hsafe h).1, (hsafe h).2 pid hpid⟩
    refine ⟨⟨hround.wellFormed, fun hopts => ⟨(hsafe hopts).1, fun p hp => ?_⟩⟩, hsrcs⟩
    obtain ⟨rfl, hexp⟩ := hsafe hopts
    rw [RecordsExplicit, hsrcs]
    by_cases hq : p = pid
    · intro _
      rw [if_pos hq]
      exact (BitVec.or_assoc _ _ _).trans (by rw [BitVec.or_self]; rfl)
    · rw [if_neg hq, hround.others p hq]
      exact hexp p hp

theorem sourcesAt_removeSignals (hwf : WellFormedRecords d.byPID) (q : PID) :
    sourcesAt (d.removeSignals mask pids).1.byPID q =
      if q ∈ pids then (sourcesAt d.byPID q).remove mask else sourcesAt d.byPID q := by
  rw [removeSignals]
  split
  · next hemp => rw [isEmpty_iff.mp hemp, if_neg not_mem_nil]
  refine (foldl_observe (P := fun st : PIDRecords × ByView => WellFormedRecords st.1)
    (fun st q => sourcesAt st.1 q) (Sources.remove mask)
    (fun s => by simp [Sources.remove, BitVec.and_assoc]) ?_
    (d.byPID, fun _ => []) hwf).2 q
  intro st pid _ hwf
  exact ⟨(removeRound_removeOf hwf mask pid).wellFormed, sourcesAt_removeOf hwf⟩

theorem sourcesAt_clearSources (q : PID) :
    sourcesAt (d.clearWorkloadSources pids).1.byPID q =
      if q ∈ pids then (sourcesAt d.byPID q).clear else sourcesAt d.byPID q := by
  rw [clearWorkloadSources]
  split
  · next hemp => rw [isEmpty_iff.mp hemp, if_neg not_mem_nil]
  refine (foldl_observe (P := fun _ : PIDRecords × ByView => True)
    (fun st q => sourcesAt st.1 q) Sources.clear (fun _ => rfl) ?_
    (d.byPID, fun _ => []) trivial).2 q
  intro st pid _ _
  exact ⟨trivial, sourcesAt_clearOf⟩

theorem sourcesAt_workloadGone (hwf : WellFormedRecords byPID) (q : PID) :
    sourcesAt (workloadRemoved mask key byPID) q = (sourcesAt byPID q).removeWorkload mask key := by
  rw [sourcesAt, sourcesAt, ← sourcesOf_withoutWorkload, workloadRemoved, Table.lookup_filterMap]
  cases hr : byPID.lookup q with
  | none => rfl
  | some r =>
    rw [bind_some, getD_some]
    split
    · next hdrop =>
      rw [withoutWorkload_wf (hwf q r hr).1] at hdrop
      rw [sourcesOf_eq_none hdrop.1]
      rfl
    · rw [getD_some]

theorem sourcesAt_addWorkload (q : PID) :
    sourcesAt (d.addWorkload mask key opts).1.byPID q = sourcesAt d.byPID q := by
  rw [addWorkload]
  split
  · rfl
  simp only []
  split
  · rw [sourcesAt, sourcesAt, Table.lookup_filterMap]
    cases d.byPID.lookup q with
    | none => rfl
    | some r =>
      rw [bind_some]
      split
      · rfl
      · rfl
  · rfl

/-! ## Runs -/

/-- The signals a workload was added for, none when it is not there. -/
def workloadMask (d : DynamicSelector) (key : WorkloadKey) : DynamicPIDSignal :=
  ((d.byWorkload.lookup key).getD ⟨0, .zero⟩).signals

/-- The masks of every record tell its history, and no record has a signal of a
workload that the workload itself has lost. -/
structure Explains (d : DynamicSelector) (events : List SourceEvent) : Prop where
  wellFormed : WellFormedRecords d.byPID
  bounded : ∀ pid key s, Signal.In s ((sourcesAt d.byPID pid).workload key) →
    s.In (workloadMask d key)
  explicit : ∀ pid s, Signal.In s (sourcesAt d.byPID pid).explicit ↔ ExplicitlySelected events pid s
  workload : ∀ pid key s, Signal.In s ((sourcesAt d.byPID pid).workload key) ↔
    WorkloadSelected events key pid s

theorem workloadMask_of_same (h : d'.byWorkload = d.byWorkload) :
    workloadMask d' key = workloadMask d key := by
  rw [workloadMask, workloadMask, h]

section
variable {events : List SourceEvent} {e : SourceEvent}
  (h : Explains d events) (hwf : WellFormedRecords d'.byPID)
  (hexp : ∀ pid s, Signal.In s (sourcesAt d'.byPID pid).explicit ↔
    e.Adds pid s ∨ (s.In (sourcesAt d.byPID pid).explicit ∧ ¬ e.Removes pid s))
  (hwork : ∀ pid key s, Signal.In s ((sourcesAt d'.byPID pid).workload key) ↔
    e.Materializes pid s key ∨
      (s.In ((sourcesAt d.byPID pid).workload key) ∧ ¬ e.RemovesWorkload pid s key))
include h hwf hexp hwork

theorem Explains.next
    (hbounded : ∀ pid key s, Signal.In s ((sourcesAt d'.byPID pid).workload key) →
      s.In (workloadMask d' key)) : Explains d' (events ++ [e]) := by
  refine ⟨hwf, hbounded, fun pid s => ?_, fun pid key s => ?_⟩
  · rw [hexp, h.explicit]
    exact since_concat.symm
  · rw [hwork, h.workload]
    exact since_concat.symm

/-- Where the workloads stay as they are. -/
theorem Explains.next_same (hsame : d'.byWorkload = d.byWorkload)
    (hmat : ∀ pid key s, e.Materializes pid s key → s.In (workloadMask d key)) :
    Explains d' (events ++ [e]) := by
  refine h.next hwf hexp hwork fun pid key s hs => ?_
  rw [workloadMask_of_same hsame]
  rcases (hwork pid key s).mp hs with hnew | ⟨hold, -⟩
  · exact hmat pid key s hnew
  · exact h.bounded pid key s hold

end

/-- A PID is selected for a signal when one of its sources selects it. -/
theorem includesPID_iff (hwf : WellFormedRecords d.byPID) (s : Signal) :
    d.includesPID s.view.mask pid = true ↔ s.In (sourcesAt d.byPID pid).explicit ∨
        ∃ key, s.In ((sourcesAt d.byPID pid).workload key) := by
  rw [includesPID, decide_eq_true_iff, hwf.signals_eq]
  change Signal.In s _ ↔ _
  simp only [signal_in_iff, recomputed_bit]
  exact Iff.rfl

section
variable {events : List SourceEvent}

theorem byWorkload_addFrom (opts : Option DynamicPIDAttributes)
    (src : Option WorkloadKey) (pids : List PID) :
    (d.addSignalsFrom mask opts src pids).1.byWorkload = d.byWorkload := by
  rw [addSignalsFrom]
  split
  · rfl
  · rfl

section
variable (h : Explains d events)
include h

theorem explains_addSignals (hsafe : opts = none → ∀ pid ∈ pids, RecordsExplicit d.byPID mask pid) :
    Explains (d.addSignals mask opts pids).1 (events ++ [.added mask pids]) := by
  rw [addSignals]
  have hsrcs : ∀ q, sourcesAt (d.addSignalsFrom mask opts none pids).1.byPID q = _ :=
    sourcesAt_addFrom h.wellFormed fun hopts => ⟨rfl, hsafe hopts⟩
  refine h.next_same (tells_addFrom h.wellFormed opts none pids).wellFormed (fun pid s => ?_)
    (fun pid key s => ?_) (byWorkload_addFrom opts none pids) fun _ _ _ hmat => hmat.elim
  · rw [hsrcs]
    simp only [SourceEvent.Adds, SourceEvent.Removes, not_false_eq_true, and_true]
    split
    · next hpid =>
      simp only [Sources.add, Sources.addExplicit, signal_in_or, hpid, true_and]
      exact or_comm
    · next hpid => simp [hpid]
  · rw [hsrcs]
    simp only [SourceEvent.Materializes, SourceEvent.RemovesWorkload, not_false_eq_true, and_true,
      false_or]
    split
    · rfl
    · rfl

theorem explains_removeSignals (pids : List PID) :
    Explains (d.removeSignals mask pids).1 (events ++ [.removed mask pids]) := by
  have hsrcs : ∀ q, sourcesAt (d.removeSignals mask pids).1.byPID q = _ :=
    sourcesAt_removeSignals h.wellFormed
  have hsame : (d.removeSignals mask pids).1.byWorkload = d.byWorkload := by
    rw [removeSignals]
    split
    · rfl
    · rfl
  refine h.next_same (tells_removeSignals h.wellFormed mask pids).wellFormed (fun pid s => ?_)
    (fun pid key s => ?_) hsame fun _ _ _ hmat => hmat.elim
  · rw [hsrcs]
    simp only [SourceEvent.Adds, SourceEvent.Removes]
    split
    · next hpid => simp [Sources.remove, signal_in_and_not, hpid]
    · next hpid => simp [hpid]
  · rw [hsrcs]
    simp only [SourceEvent.Materializes, SourceEvent.RemovesWorkload]
    split
    · next hpid => simp [Sources.remove, signal_in_and_not, hpid]
    · next hpid => simp [hpid]

theorem explains_clearSources (pids : List PID) :
    Explains (d.clearWorkloadSources pids).1 (events ++ [.cleared pids]) := by
  have hsame : (d.clearWorkloadSources pids).1.byWorkload = d.byWorkload := by
    rw [clearWorkloadSources]
    split
    · rfl
    · rfl
  refine h.next_same (tells_clearSources h.wellFormed pids).wellFormed (fun pid s => ?_)
    (fun pid key s => ?_) hsame fun _ _ _ hmat => hmat.elim
  · rw [sourcesAt_clearSources]
    simp only [SourceEvent.Adds, SourceEvent.Removes, not_false_eq_true, and_true, false_or]
    split
    · rfl
    · rfl
  · rw [sourcesAt_clearSources]
    simp only [SourceEvent.Materializes, SourceEvent.RemovesWorkload]
    split
    · next hpid =>
      simp only [Sources.clear, not_signal_in_zero, hpid, not_true_eq_false, and_false, false_or]
    · next hpid => simp [hpid]

theorem explains_addWorkload (key : WorkloadKey)
    (opts : Option DynamicPIDAttributes) : Explains (d.addWorkload mask key opts).1 events := by
  have hmask : ∀ k s, Signal.In s (workloadMask d k) →
      s.In (workloadMask (d.addWorkload mask key opts).1 k) := by
    intro k s hs
    rw [addWorkload]
    split
    · exact hs
    rw [workloadMask, Table.get_insert]
    split
    · next hk => exact signal_in_or.mpr (.inl (hk ▸ hs))
    · exact hs
  refine ⟨(tells_addWorkload h.wellFormed mask key opts).wellFormed, fun pid k s hs => ?_,
    fun pid s => ?_, fun pid k s => ?_⟩
  · rw [sourcesAt_addWorkload] at hs
    exact hmask k s (h.bounded pid k s hs)
  · rw [sourcesAt_addWorkload]
    exact h.explicit pid s
  · rw [sourcesAt_addWorkload]
    exact h.workload pid k s

/-- `removeWorkload` gives up early only where there is nothing to take. -/
theorem sourcesAt_removeWorkload (mask : DynamicPIDSignal)
    (key : WorkloadKey) (pid : PID) (s : Signal) (k : WorkloadKey) :
    (sourcesAt (d.removeWorkload mask key).1.byPID pid).explicit =
        (sourcesAt d.byPID pid).explicit ∧
      (s.In ((sourcesAt (d.removeWorkload mask key).1.byPID pid).workload k) ↔
        s.In ((sourcesAt d.byPID pid).workload k) ∧ ¬ (key = k ∧ s.In mask)) ∧
      (s.In (workloadMask d k) ∧ ¬ (key = k ∧ s.In mask) →
        s.In (workloadMask (d.removeWorkload mask key).1 k)) := by
  -- where nothing changes, the workload had none of the signals
  have hkeep : ¬ (s.In (workloadMask d key) ∧ s.In mask) →
      (s.In ((sourcesAt d.byPID pid).workload k) ↔
        s.In ((sourcesAt d.byPID pid).workload k) ∧ ¬ (key = k ∧ s.In mask)) := by
    intro hnone
    refine ⟨fun hs => ⟨hs, ?_⟩, fun hs => hs.1⟩
    rintro ⟨rfl, hmask⟩
    exact hnone ⟨h.bounded pid key s hs, hmask⟩
  rw [removeWorkload]
  split
  · next hzero =>
    refine ⟨rfl, hkeep fun hs => ?_, fun hs => hs.1⟩
    rw [hzero] at hs
    exact not_signal_in_zero hs.2
  split
  · next hnone =>
    refine ⟨rfl, hkeep fun hs => ?_, fun hs => hs.1⟩
    rw [workloadMask, hnone] at hs
    exact not_signal_in_zero hs.1
  · next old hold =>
    have hmask : workloadMask d key = old.signals := by rw [workloadMask, hold, getD_some]
    simp only []
    split
    · next hsame =>
      refine ⟨rfl, hkeep fun hs => ?_, fun hs => hs.1⟩
      rw [hmask, ← hsame, signal_in_and_not] at hs
      exact hs.1.2 hs.2
    change (sourcesAt (workloadRemoved mask key d.byPID) pid).explicit = _ ∧
      (s.In ((sourcesAt (workloadRemoved mask key d.byPID) pid).workload k) ↔ _) ∧ _
    rw [sourcesAt_workloadGone h.wellFormed]
    refine ⟨rfl, ?_, ?_⟩
    · simp only [Sources.removeWorkload]
      split
      · next hk => rw [signal_in_and_not, hk, and_iff_right rfl]
      · next hk => rw [eq_comm]; simp only [hk, false_and, not_false_eq_true, and_true]
    · rintro ⟨hs, hnot⟩
      rw [workloadMask]
      by_cases hk : k = key
      · subst hk
        rw [hmask] at hs
        have hleft := signal_in_and_not.mpr ⟨hs, fun h => hnot ⟨rfl, h⟩⟩
        split
        · next hzero =>
          rw [hzero] at hleft
          exact absurd hleft not_signal_in_zero
        · rw [AList.lookup_insert]
          exact hleft
      · split
        · rw [AList.lookup_erase_ne hk]
          exact hs
        · rw [AList.lookup_insert_ne hk]
          exact hs

theorem explains_removeWorkload (key : WorkloadKey) :
    Explains (d.removeWorkload mask key).1 (events ++ [.workloadRemoved key mask]) := by
  refine h.next (tells_removeWorkload h.wellFormed mask key).wellFormed
    (fun pid s => ?_) (fun pid k s => ?_) (fun pid k s hs => ?_)
  · rw [(sourcesAt_removeWorkload h mask key pid s key).1]
    simp [SourceEvent.Adds, SourceEvent.Removes]
  · rw [(sourcesAt_removeWorkload h mask key pid s k).2.1]
    simp [SourceEvent.Materializes, SourceEvent.RemovesWorkload]
  · obtain ⟨-, hwork, hmask⟩ := sourcesAt_removeWorkload h mask key pid s k
    obtain ⟨hold, hnot⟩ := hwork.mp hs
    exact hmask ⟨h.bounded pid k s hold, hnot⟩

end

/-- What is found for a process is a workload of the selector. -/
theorem findMatchingWorkload_lookup {md : Option (Table String String)} {order : List WorkloadKey}
    (h : d.findMatchingWorkload mask md order = some w) : d.byWorkload.lookup w.1 = some w.2 := by
  obtain ⟨key, -, hkey⟩ := exists_of_findSome?_eq_some h
  cases hr : d.byWorkload.lookup key with
  | none =>
    rw [hr] at hkey
    cases hkey
  | some r =>
    simp only [hr] at hkey
    split at hkey
    · cases hkey
    split at hkey
    · cases hkey
      exact hr
    · cases hkey

theorem explains_materialize (h : Explains d events)
    (hw : d.byWorkload.lookup w.1 = some w.2) (pid : PID) :
    Explains (d.addSignalsFrom w.2.signals (some w.2.attrs) (some w.1) [pid]).1
      (events ++ [.materialized w.1 w.2.signals pid]) := by
  obtain ⟨key, r⟩ := w
  have hsrcs : ∀ q, sourcesAt
      (d.addSignalsFrom r.signals (some r.attrs) (some key) [pid]).1.byPID q = _ :=
    sourcesAt_addFrom h.wellFormed fun hopts => by cases hopts
  refine h.next_same (tells_addFrom h.wellFormed _ _ _).wellFormed (fun q s => ?_)
    (fun q k s => ?_) (byWorkload_addFrom _ _ _) fun q k s hmat => ?_
  · rw [hsrcs]
    simp only [SourceEvent.Adds, SourceEvent.Removes, not_false_eq_true, and_true, false_or]
    split
    · rfl
    · rfl
  · rw [hsrcs]
    simp only [SourceEvent.Materializes, SourceEvent.RemovesWorkload, not_false_eq_true, and_true]
    by_cases hq : q = pid
    · rw [if_pos (mem_singleton.mpr hq)]
      simp only [Sources.add, Sources.addWorkload, hq]
      split
      · next hk =>
        simp only [signal_in_or, hk, true_and]
        exact or_comm
      · next hk => simp [Ne.symm hk]
    · have hq' : ¬ pid = q := fun h => hq h.symm
      rw [if_neg fun h => hq (mem_singleton.mp h)]
      simp [hq']
  · obtain ⟨rfl, -, hin⟩ := hmat
    rw [workloadMask, hw]
    exact hin

end

/-- The selector, and what has happened to the sources so far. -/
structure SourceRun where
  selector : DynamicSelector
  events : List SourceEvent

def SourceRun.init : SourceRun := ⟨newDynamicSelector, []⟩

def SourceRun.step (run : SourceRun) (call : SelectorCall) : SourceRun :=
  ⟨(run.selector.call call).1, run.events ++ sourceEvents run.selector call⟩

/-- `AddPIDs` is not called for a PID that has all signals of the view, but not
all of them from the caller. -/
def CallerRecorded (run : SourceRun) : SelectorCall → Prop
  | .addPIDs view pids => ∀ pid ∈ pids, RecordsExplicit run.selector.byPID view.mask pid
  | _ => True

instance (byPID : PIDRecords) (mask : DynamicPIDSignal) (pid : PID) :
    Decidable (RecordsExplicit byPID mask pid) :=
  inferInstanceAs (Decidable (_ → _))

instance (run : SourceRun) : DecidablePred (CallerRecorded run)
  | .addPIDs _ _ => inferInstanceAs (Decidable (∀ _ ∈ _, _))
  | .addPID _ _ _ | .removePIDs _ _ | .addK8sWorkload _ _ _ => .isTrue trivial
  | .removeK8sWorkload _ _ | .materializeMatchingWorkloads _ _ _ _ => .isTrue trivial
  | .clearWorkloadSources _ => .isTrue trivial

theorem explains_step {run : SourceRun} {call : SelectorCall}
    (h : Explains run.selector run.events) (hcall : CallerRecorded run call) :
    Explains (run.step call).selector (run.step call).events := by
  cases call with
  | addPIDs view pids => exact explains_addSignals h fun _ => hcall
  | addPID view pid opts => exact explains_addSignals h fun hopts => by cases hopts
  | removePIDs view pids => exact explains_removeSignals h pids
  | addK8sWorkload view parsed opts =>
    rw [SourceRun.step, sourceEvents, append_nil]
    cases parsed with
    | none => exact h
    | some key => exact explains_addWorkload h key (some opts)
  | removeK8sWorkload view parsed =>
    cases parsed with
    | none =>
      rw [SourceRun.step, sourceEvents, append_nil]
      exact h
    | some key => exact explains_removeWorkload h key
  | materializeMatchingWorkloads view pid md order =>
    rw [SourceRun.step, sourceEvents, call, materializeMatchingWorkloads]
    cases hfnd : run.selector.findMatchingWorkload view.mask md order with
    | none =>
      rw [append_nil]
      exact h
    | some w => exact explains_materialize h (findMatchingWorkload_lookup hfnd) pid
  | clearWorkloadSources pids => exact explains_clearSources h pids

theorem explains_init : Explains newDynamicSelector [] where
  wellFormed pid r h := by cases h
  bounded pid key s hs := absurd hs not_signal_in_zero
  explicit pid s := iff_of_false not_signal_in_zero (since_nil _ _)
  workload pid key s := iff_of_false not_signal_in_zero (since_nil _ _)

/-- In a run in which no caller is forgotten, a PID is selected for a signal
exactly when the caller or a workload selects it still. -/
theorem selected_iff_source (calls : List SelectorCall)
    (hcalls : Along SourceRun.step CallerRecorded .init calls) (pid : PID) (s : Signal) :
    (calls.foldl SourceRun.step .init).selector.includesPID s.view.mask pid = true ↔
      ExplicitlySelected (calls.foldl SourceRun.step .init).events pid s ∨
        ∃ key, WorkloadSelected (calls.foldl SourceRun.step .init).events key pid s := by
  have hexplains : Explains (calls.foldl SourceRun.step .init).selector
      (calls.foldl SourceRun.step .init).events :=
    Along.inv (P := fun run : SourceRun => Explains run.selector run.events)
      (fun _ _ h hcall => explains_step h hcall) explains_init hcalls
  rw [includesPID_iff hexplains.wellFormed, hexplains.explicit]
  refine or_congr Iff.rfl (exists_congr fun key => ?_)
  exact hexplains.workload pid key s

def checkout : WorkloadKey := ⟨"Deployment", "shop", "checkout"⟩

def checkoutMetadata : Table String String :=
  (AList.insert "k8s_namespace" "shop" ∅).insert "k8s_deployment_name" "checkout"

/-- The process 7 belongs to a workload that is selected, and is then found. -/
def checkoutFound : List SelectorCall :=
  [.addK8sWorkload .traces (some checkout) .zero,
    .materializeMatchingWorkloads .traces 7 (some checkoutMetadata) [checkout]]

/-- The caller selects it as well, with options, and the workload goes. -/
def addedWithOptions : List SelectorCall :=
  checkoutFound ++ [.addPIDs .networkMetrics [7], .addPID .traces 7 .zero,
    .removeK8sWorkload .traces (some checkout)]

theorem selected_iff_source_with_options :
    Along SourceRun.step CallerRecorded .init addedWithOptions ∧
      ((addedWithOptions.foldl SourceRun.step .init).selector.includesPID signalTraces 7 = true ↔
        ExplicitlySelected (addedWithOptions.foldl SourceRun.step .init).events 7 .traces ∨
          ∃ key, WorkloadSelected (addedWithOptions.foldl SourceRun.step .init).events
            key 7 .traces) :=
  have hcalls : Along SourceRun.step CallerRecorded .init addedWithOptions := by decide +kernel
  ⟨hcalls, selected_iff_source _ hcalls 7 .traces⟩

/-- The caller selects it by `AddPIDs`, and the workload goes. -/
def addedPlainly : List SelectorCall :=
  checkoutFound ++ [.addPIDs .traces [7], .removeK8sWorkload .traces (some checkout)]

/-- `AddPIDs` of a PID that the workload selects already leaves no trace: the
PID goes with the workload. -/
theorem added_pid_leaves_with_workload :
    ExplicitlySelected (addedPlainly.foldl SourceRun.step .init).events 7 .traces ∧
      (addedPlainly.foldl SourceRun.step .init).selector.includesPID signalTraces 7 = false := by
  have hevs : (addedPlainly.foldl SourceRun.step .init).events =
      [.materialized checkout signalTraces 7] ++
        .added signalTraces [7] :: [.workloadRemoved checkout signalTraces] := by
    decide +kernel
  refine ⟨?_, by decide +kernel⟩
  rw [hevs]
  refine ⟨_, _, _, rfl, ⟨mem_cons_self, by rw [Signal.In]; decide⟩, ?_⟩
  intro e he
  rw [mem_singleton.mp he]
  exact id

end Obi.Refine
