import Obi.Lib.Edges
import Obi.Ref.DynamicSelector

/-!
# The views of the dynamic selector

The mask of a record is the union of its sources. Each operation changes one
record after another; what it does to the sources of a record is said once,
and from that the masks, the edges the views are told of, and in the other
module on the selector the sources themselves are read off.
-/

namespace Obi.Refine
open Lib Ref List DynamicPIDRecord DynamicSelector AList Table

/-! ## Masks -/

section
variable {a b : DynamicPIDSignal} {i : Nat}

theorem getLsbD_and_not : (a &&& ~~~b).getLsbD i = (a.getLsbD i && !b.getLsbD i) := by
  rw [BitVec.getLsbD_and, BitVec.getLsbD_not]
  by_cases hi : i < 8
  · rw [decide_eq_true hi, Bool.true_and]
  · rw [BitVec.getLsbD_of_ge a i (by omega), Bool.false_and, Bool.false_and]

theorem eq_of_bits (h : ∀ i, a.getLsbD i = true ↔ b.getLsbD i = true) : a = b := by
  refine BitVec.eq_of_getLsbD_eq fun i _ => ?_
  exact Bool.eq_iff_iff.mpr (h i)

theorem getLsbD_zero_mask : (0 : DynamicPIDSignal).getLsbD i = false := BitVec.getLsbD_zero

theorem not_getLsbD_zero : ¬ (0 : DynamicPIDSignal).getLsbD i = true := by
  rw [getLsbD_zero_mask]
  exact Bool.false_ne_true

theorem ne_zero_iff : a ≠ 0 ↔ ∃ i, a.getLsbD i = true := by
  constructor
  · intro h
    by_contra hnone
    exact h (eq_of_bits fun i =>
      ⟨fun hi => absurd ⟨i, hi⟩ hnone, fun hi => absurd hi not_getLsbD_zero⟩)
  · rintro ⟨i, hi⟩ rfl
    exact not_getLsbD_zero hi

variable {view : SignalView}

theorem contains_iff :
    view.contains a = true ↔ ∃ i, a.getLsbD i = true ∧ view.mask.getLsbD i = true := by
  rw [SignalView.contains, decide_eq_true_iff, ne_zero_iff]
  simp

theorem contains_zero : view.contains 0 = false := by
  rw [← Bool.not_eq_true, contains_iff]
  rintro ⟨i, hi, -⟩
  exact not_getLsbD_zero hi

theorem contains_mono (h : ∀ i, a.getLsbD i = true → b.getLsbD i = true)
    (ha : view.contains a = true) : view.contains b = true := by
  obtain ⟨i, hi, hv⟩ := contains_iff.mp ha
  exact contains_iff.mpr ⟨i, h i hi, hv⟩

theorem mask_ne_zero (view : SignalView) : view.mask ≠ 0 := by
  cases view <;> decide

end

/-! ## The sources of a record -/

/-- The signals a workload selects in a record. -/
def DynamicPIDRecord.signalsFrom (r : DynamicPIDRecord) (key : WorkloadKey) : DynamicPIDSignal :=
  (r.workloads.lookup key).getD 0

variable {r : DynamicPIDRecord} {mask : DynamicPIDSignal} {key : WorkloadKey} {i : Nat}

theorem getLsbD_foldl_or (l : List (Σ _ : WorkloadKey, DynamicPIDSignal)) (a : DynamicPIDSignal) :
    (l.foldl (fun mask e => mask ||| e.2) a).getLsbD i = true ↔
      a.getLsbD i = true ∨ ∃ e ∈ l, e.2.getLsbD i = true := by
  induction l generalizing a with
  | nil => simp
  | cons e rest ih =>
    rw [foldl_cons, ih, BitVec.getLsbD_or, Bool.or_eq_true]
    simp only [mem_cons, exists_eq_or_imp]
    tauto

/-- The mask is the union of the sources. -/
theorem recomputed_bit : r.recomputedSignals.getLsbD i = true ↔
      r.explicitSignals.getLsbD i = true ∨
        ∃ key, (DynamicPIDRecord.signalsFrom r key).getLsbD i = true := by
  rw [DynamicPIDRecord.recomputedSignals, getLsbD_foldl_or]
  refine or_congr Iff.rfl ⟨?_, ?_⟩
  · rintro ⟨⟨key, ws⟩, hmem, hi⟩
    refine ⟨key, ?_⟩
    rw [DynamicPIDRecord.signalsFrom, mem_lookup_iff.mpr hmem]
    exact hi
  · rintro ⟨key, hi⟩
    rw [DynamicPIDRecord.signalsFrom] at hi
    cases hws : r.workloads.lookup key with
    | none =>
      rw [hws] at hi
      exact absurd hi not_getLsbD_zero
    | some ws =>
      rw [hws] at hi
      exact ⟨⟨key, ws⟩, mem_lookup_iff.mp hws, hi⟩

/-! What each change does to the sources. -/

variable (src : Option WorkloadKey)

theorem addSource_explicit : (r.addSource mask src).explicitSignals.getLsbD i =
      (r.explicitSignals.getLsbD i || (src.isNone && mask.getLsbD i)) := by
  cases src with
  | none => exact BitVec.getLsbD_or
  | some key => exact (Bool.or_false _).symm

theorem addSource_from (k : WorkloadKey) :
    (DynamicPIDRecord.signalsFrom (r.addSource mask src) k).getLsbD i =
      ((DynamicPIDRecord.signalsFrom r k).getLsbD i ||
        (decide (src = some k) && mask.getLsbD i)) := by
  cases src with
  | none => exact (Bool.or_false _).symm
  | some key =>
    have hlook : (r.addSource mask (some key)).workloads.lookup k =
        if k = key then some ((r.workloads.lookup key).getD 0 ||| mask)
        else r.workloads.lookup k :=
      get_insert _ _ _ _
    rw [DynamicPIDRecord.signalsFrom, hlook, DynamicPIDRecord.signalsFrom]
    by_cases hk : k = key
    · subst hk
      rw [if_pos rfl, Option.getD_some, BitVec.getLsbD_or, decide_eq_true rfl, Bool.true_and]
    · have hne : ¬ some key = some k := fun h => hk (Option.some.inj h).symm
      rw [if_neg hk, decide_eq_false hne, Bool.false_and, Bool.or_false]

/-- The record with `mask` taken from all its sources. -/
def withoutSignals (mask : DynamicPIDSignal) (r : DynamicPIDRecord) : DynamicPIDRecord :=
  { r with
    explicitSignals := r.explicitSignals &&& ~~~mask
    fromWorkloads := r.clearWorkloads mask }

theorem clearWorkloads_from {e : DynamicPIDSignal} (k : WorkloadKey) : (DynamicPIDRecord.signalsFrom
      { r with explicitSignals := e, fromWorkloads := r.clearWorkloads mask } k).getLsbD i =
      ((DynamicPIDRecord.signalsFrom r k).getLsbD i && !mask.getLsbD i) := by
  rw [DynamicPIDRecord.signalsFrom, DynamicPIDRecord.signalsFrom, DynamicPIDRecord.workloads,
    DynamicPIDRecord.workloads, DynamicPIDRecord.clearWorkloads]
  cases r.fromWorkloads with
  | none =>
    rw [Option.map_none, Option.getD_none, lookup_empty, Option.getD_none,
      getLsbD_zero_mask, Bool.false_and]
  | some m =>
    rw [Option.map_some, Option.getD_some, Option.getD_some, lookup_filterMap]
    cases m.lookup k with
    | none => rw [Option.bind_none, Option.getD_none, getLsbD_zero_mask, Bool.false_and]
    | some ws =>
      rw [Option.bind_some, Option.getD_some, ← getLsbD_and_not]
      split
      · next hnone => rw [hnone, Option.getD_none]
      · rw [Option.getD_some]

theorem withoutSignals_explicit : (withoutSignals mask r).explicitSignals.getLsbD i =
      (r.explicitSignals.getLsbD i && !mask.getLsbD i) :=
  getLsbD_and_not

theorem withoutSignals_bit : (withoutSignals mask r).recomputedSignals.getLsbD i = true ↔
      r.recomputedSignals.getLsbD i = true ∧ mask.getLsbD i = false := by
  rw [recomputed_bit, recomputed_bit, withoutSignals_explicit]
  simp only [withoutSignals, clearWorkloads_from, Bool.and_eq_true, Bool.not_eq_true']
  tauto

theorem clearWorkload_from {s : DynamicPIDSignal} {ws : DynamicPIDSignal}
    (hws : r.workloads.lookup key = some ws) (k : WorkloadKey) :
    (DynamicPIDRecord.signalsFrom
      { r with signals := s, fromWorkloads := r.clearWorkload key (ws &&& ~~~mask) } k).getLsbD i =
      ((DynamicPIDRecord.signalsFrom r k).getLsbD i && !(decide (k = key) && mask.getLsbD i)) := by
  rw [DynamicPIDRecord.workloads] at hws
  rw [DynamicPIDRecord.signalsFrom, DynamicPIDRecord.signalsFrom, DynamicPIDRecord.workloads,
    DynamicPIDRecord.workloads, clearWorkload]
  cases hm : r.fromWorkloads with
  | none =>
    rw [hm] at hws
    cases hws
  | some m =>
    rw [hm, Option.getD_some] at hws
    rw [Option.map_some, Option.getD_some, Option.getD_some]
    by_cases hk : k = key
    · subst hk
      rw [hws, Option.getD_some, decide_eq_true rfl, Bool.true_and, ← getLsbD_and_not]
      split
      · next hnone => rw [lookup_erase, Option.getD_none, hnone]
      · rw [lookup_insert, Option.getD_some]
    rw [decide_eq_false hk, Bool.false_and, Bool.not_false, Bool.and_true]
    split
    · rw [lookup_erase_ne hk]
    · rw [lookup_insert_ne hk]

open DynamicSelector in
theorem withoutWorkload_explicit :
    (withoutWorkload mask key r).explicitSignals = r.explicitSignals := by
  rw [withoutWorkload]
  split
  · rfl
  · rfl

open DynamicSelector in
theorem withoutWorkload_from (k : WorkloadKey) :
    (DynamicPIDRecord.signalsFrom (withoutWorkload mask key r) k).getLsbD i =
      ((DynamicPIDRecord.signalsFrom r k).getLsbD i && !(decide (k = key) && mask.getLsbD i)) := by
  rw [withoutWorkload]
  split
  · next hnone =>
    by_cases hk : k = key
    · subst hk
      rw [DynamicPIDRecord.signalsFrom, hnone, Option.getD_none, getLsbD_zero_mask, Bool.false_and]
    · rw [decide_eq_false hk, Bool.false_and, Bool.not_false, Bool.and_true]
  · next ws hws => exact clearWorkload_from hws k

/-! ## Well-formed records -/

/-- The mask of a record is the union of its sources, and not empty. -/
def WellFormedRecord (r : DynamicPIDRecord) : Prop :=
  r.signals = r.recomputedSignals ∧ r.signals ≠ 0

def WellFormedRecords (byPID : PIDRecords) : Prop :=
  ∀ pid r, byPID.lookup pid = some r → WellFormedRecord r

/-- The signals a PID is selected for, none when it has no record. -/
def signalsAt (byPID : PIDRecords) (pid : PID) : DynamicPIDSignal :=
  ((byPID.lookup pid).getD .zero).signals

variable {byPID : PIDRecords} {st' : PIDRecords × ByView}

/-- Also for a PID without a record. -/
theorem WellFormedRecords.signals_eq (h : WellFormedRecords byPID) (pid : PID) :
    ((byPID.lookup pid).getD .zero).signals =
      ((byPID.lookup pid).getD .zero).recomputedSignals := by
  cases hr : byPID.lookup pid with
  | none => rfl
  | some r => exact (h pid r hr).1

theorem WellFormedRecords.insert (h : WellFormedRecords byPID) {pid : PID}
    (hr : WellFormedRecord r) : WellFormedRecords (byPID.insert pid r) := by
  intro q r' hr'
  rw [get_insert] at hr'
  split at hr'
  · obtain rfl : r = r' := Option.some.inj hr'
    exact hr
  · exact h q r' hr'

theorem WellFormedRecords.erase (h : WellFormedRecords byPID) (pid : PID) :
    WellFormedRecords (byPID.erase pid) := by
  intro q r' hr'
  rw [get_erase] at hr'
  split at hr'
  · cases hr'
  · exact h q r' hr'

theorem signalsAt_insert (pid q : PID) :
    signalsAt (byPID.insert pid r) q = if q = pid then r.signals else signalsAt byPID q := by
  rw [signalsAt, get_insert]
  split
  · rfl
  · rfl

/-! ## Rounds -/

/-- A round over one PID keeps the records well formed and changes the mask of
that PID at most. -/
structure Touches (pid : PID) (st st' : PIDRecords × ByView) : Prop where
  wellFormed : WellFormedRecords st'.1
  others : ∀ q, q ≠ pid → signalsAt st'.1 q = signalsAt st.1 q

/-- The mask grows, and the views the PID enters are told. -/
structure AddRound (pid : PID) (st st' : PIDRecords × ByView) : Prop
    extends Touches pid st st' where
  grows : ∀ i, (signalsAt st.1 pid).getLsbD i = true → (signalsAt st'.1 pid).getLsbD i = true
  batch : ∀ view, st'.2 view =
    if view.contains (signalsAt st.1 pid) = false ∧ view.contains (signalsAt st'.1 pid) = true
    then st.2 view ++ [pid] else st.2 view

/-- The mask shrinks, and the views the PID leaves are told. -/
structure RemoveRound (pid : PID) (st st' : PIDRecords × ByView) : Prop
    extends Touches pid st st' where
  shrinks : ∀ i, (signalsAt st'.1 pid).getLsbD i = true → (signalsAt st.1 pid).getLsbD i = true
  batch : ∀ view, st'.2 view =
    if view.contains (signalsAt st.1 pid) = true ∧ view.contains (signalsAt st'.1 pid) = false
    then st.2 view ++ [pid] else st.2 view

variable {st : PIDRecords × ByView} {pid : PID}
  {round : PIDRecords × ByView → PID → PIDRecords × ByView}

theorem AddRound.of_same (hwf : WellFormedRecords st'.1)
    (hsame : ∀ q, signalsAt st'.1 q = signalsAt st.1 q) (hbat : st'.2 = st.2) :
    AddRound pid st st' where
  wellFormed := hwf
  others q _ := hsame q
  grows i hi := by rw [hsame]; exact hi
  batch view := by
    rw [hsame, hbat, if_neg]
    rintro ⟨hnot, hin⟩
    rw [hnot] at hin
    cases hin

theorem RemoveRound.of_same (hwf : WellFormedRecords st'.1)
    (hsame : ∀ q, signalsAt st'.1 q = signalsAt st.1 q) (hbat : st'.2 = st.2) :
    RemoveRound pid st st' where
  wellFormed := hwf
  others q _ := hsame q
  shrinks i hi := by rw [← hsame]; exact hi
  batch view := by
    rw [hsame, hbat, if_neg]
    rintro ⟨hin, hnot⟩
    rw [hnot] at hin
    cases hin

/-- A record that is written through keeps its mask. -/
theorem writeThrough_same (hwf : WellFormedRecords byPID)
    {m : Option (Table WorkloadKey DynamicPIDSignal)}
    (hm : ∀ r, byPID.lookup pid = some r → r.fromWorkloads.isSome = true →
      r.signals = { r with fromWorkloads := m }.recomputedSignals) :
    WellFormedRecords (writeThrough byPID pid m) ∧
      ∀ q, signalsAt (writeThrough byPID pid m) q = signalsAt byPID q := by
  rw [writeThrough]
  cases hr : byPID.lookup pid with
  | none => exact ⟨hwf, fun _ => rfl⟩
  | some r =>
    simp only []
    split
    · next hsome =>
      refine ⟨hwf.insert ⟨hm r hr hsome, (hwf pid r hr).2⟩, fun q => ?_⟩
      rw [signalsAt_insert]
      split
      · next hq => rw [hq, signalsAt, hr, Option.getD_some]
      · rfl
    · exact ⟨hwf, fun _ => rfl⟩

/-- The record `addSignalsFrom` computes has the old signals and those of the
mask. -/
theorem addSource_bit : (r.addSource mask src).recomputedSignals.getLsbD i = true ↔
      r.recomputedSignals.getLsbD i = true ∨ mask.getLsbD i = true := by
  rw [recomputed_bit, recomputed_bit, addSource_explicit]
  simp only [addSource_from, Bool.or_eq_true, Bool.and_eq_true, decide_eq_true_iff]
  cases src with
  | none => tauto
  | some key =>
    simp only [exists_or]
    tauto

theorem addRound_addTo (hwf : WellFormedRecords st.1) (hmask : mask ≠ 0)
    (opts : Option DynamicPIDAttributes) (src : Option WorkloadKey) (pid : PID) :
    AddRound pid st (addSignalsTo mask opts src st pid) := by
  have hold := hwf.signals_eq pid
  generalize hr : (st.1.lookup pid).getD .zero = old at hold
  have hat : signalsAt st.1 pid = old.signals := by rw [signalsAt, hr]
  have hbit : ∀ i, ({ old with attrs := opts.getD old.attrs }.addSource mask
      src).recomputedSignals.getLsbD i = true ↔
        old.signals.getLsbD i = true ∨ mask.getLsbD i = true := by
    intro i
    rw [addSource_bit, hold]
    exact Iff.rfl
  generalize hadd : { old with attrs := opts.getD old.attrs }.addSource mask src = new at hbit
  have hnew : WellFormedRecord { new with signals := new.recomputedSignals } := by
    refine ⟨rfl, ne_zero_iff.mpr ?_⟩
    obtain ⟨i, hi⟩ := ne_zero_iff.mp hmask
    exact ⟨i, (hbit i).mpr (.inr hi)⟩
  rw [addSignalsTo.eq_def]
  simp only [hr, hadd]
  by_cases hsame : new.recomputedSignals = old.signals
  · have hkeep : ∀ q, signalsAt
        (st.1.insert pid { new with signals := new.recomputedSignals }) q = signalsAt st.1 q := by
      intro q
      rw [signalsAt_insert]
      split
      · next hq => rw [hq, hat, hsame]
      · rfl
    rw [if_pos hsame]
    cases opts with
    | some attrs => exact .of_same (hwf.insert hnew) hkeep rfl
    | none =>
      have hwrite : ∀ r, st.1.lookup pid = some r → r.fromWorkloads.isSome = true →
          r.signals = { r with fromWorkloads := new.fromWorkloads }.recomputedSignals := by
        intro r hlook _
        obtain rfl : r = old := by rw [← hr, hlook, Option.getD_some]
        subst hadd
        cases src with
        | none => exact hold
        | some key => exact hsame.symm
      obtain ⟨hwf', hsigs⟩ := writeThrough_same hwf hwrite
      exact .of_same hwf' hsigs rfl
  · rw [if_neg hsame]
    have hat' : signalsAt (st.1.insert pid { new with signals := new.recomputedSignals }) pid =
        new.recomputedSignals := by
      rw [signalsAt_insert, if_pos rfl]
    refine ⟨⟨hwf.insert hnew, fun q hq => ?_⟩, fun i hi => ?_, fun view => ?_⟩
    · rw [signalsAt_insert, if_neg hq]
    · rw [hat'] at *
      rw [hat] at hi
      exact (hbit i).mpr (.inl hi)
    · simp [hat, hat', ByView.append]

/-! ### Removing rounds -/

/-- The record is dropped when nothing is left of its mask. -/
theorem storeMask (hwf : WellFormedRecords byPID) (pid : PID) :
    WellFormedRecords (if r.recomputedSignals = 0 then byPID.erase pid
        else byPID.insert pid { r with signals := r.recomputedSignals }) ∧
      ∀ q, signalsAt (if r.recomputedSignals = 0 then byPID.erase pid
          else byPID.insert pid { r with signals := r.recomputedSignals }) q =
        if q = pid then r.recomputedSignals else signalsAt byPID q := by
  split
  · next hzero =>
    refine ⟨hwf.erase pid, fun q => ?_⟩
    rw [signalsAt, get_erase, hzero]
    split <;> rfl
  · next hzero => exact ⟨hwf.insert ⟨rfl, hzero⟩, fun q => signalsAt_insert pid q⟩

theorem removeRound_removeOf (hwf : WellFormedRecords st.1) (mask : DynamicPIDSignal)
    (pid : PID) : RemoveRound pid st (removeSignalsOf mask st pid) := by
  rw [removeSignalsOf]
  cases hr : st.1.lookup pid with
  | none => exact .of_same hwf (fun _ => rfl) rfl
  | some old =>
    obtain ⟨hold, hne⟩ := hwf pid old hr
    have hat : signalsAt st.1 pid = old.signals := by rw [signalsAt, hr, Option.getD_some]
    change RemoveRound pid st (if (withoutSignals mask old).recomputedSignals = old.signals
      then (writeThrough st.1 pid (old.clearWorkloads mask), st.2)
      else (if (withoutSignals mask old).recomputedSignals = 0 then st.1.erase pid
        else st.1.insert pid { withoutSignals mask old with
          signals := (withoutSignals mask old).recomputedSignals },
        st.2.append (leaves old.signals (withoutSignals mask old).recomputedSignals) pid))
    split
    · next hsame =>
      have hwrite : ∀ r, st.1.lookup pid = some r → r.fromWorkloads.isSome = true →
          r.signals = { r with fromWorkloads := old.clearWorkloads mask }.recomputedSignals := by
        intro r hlook _
        obtain rfl : old = r := Option.some.inj (hr.symm.trans hlook)
        -- the signals taken out were not there, so all workloads keep theirs
        refine eq_of_bits fun i => ⟨fun hi => ?_, fun hi => ?_⟩
        · rw [← hsame, recomputed_bit, withoutSignals_explicit, Bool.and_eq_true] at hi
          rw [recomputed_bit]
          exact hi.imp (fun h => h.1) id
        rw [recomputed_bit] at hi
        rw [hold, recomputed_bit]
        refine hi.imp id ?_
        rintro ⟨key, hkey⟩
        rw [clearWorkloads_from, Bool.and_eq_true] at hkey
        exact ⟨key, hkey.1⟩
      obtain ⟨hwf', hsigs⟩ := writeThrough_same hwf hwrite
      exact .of_same hwf' hsigs rfl
    · obtain ⟨hwf', hsigs⟩ := storeMask hwf pid
      have hat' := hsigs pid
      rw [if_pos rfl] at hat'
      refine ⟨⟨hwf', fun q hq => ?_⟩, fun i hi => ?_, fun view => ?_⟩
      · rw [hsigs q, if_neg hq]
      · rw [hat', withoutSignals_bit] at hi
        rw [hat, hold]
        exact hi.1
      · rw [hat, hat']
        simp [ByView.append, leaves]

theorem removeRound_clearOf (hwf : WellFormedRecords st.1) (pid : PID) :
    RemoveRound pid st (clearSourcesOf st pid) := by
  rw [clearSourcesOf]
  cases hr : st.1.lookup pid with
  | none => exact .of_same hwf (fun _ => rfl) rfl
  | some old =>
    simp only []
    split
    · exact .of_same hwf (fun _ => rfl) rfl
    obtain ⟨hold, hne⟩ := hwf pid old hr
    have hat : signalsAt st.1 pid = old.signals := by rw [signalsAt, hr, Option.getD_some]
    obtain ⟨hwf', hsigs⟩ := storeMask hwf pid
    have hat' := hsigs pid
    rw [if_pos rfl] at hat'
    refine ⟨⟨hwf', fun q hq => ?_⟩, fun i hi => ?_, fun view => ?_⟩
    · exact (hsigs q).trans (if_neg hq)
    · have hi' : { old with fromWorkloads := none }.recomputedSignals.getLsbD i = true := hat' ▸ hi
      rw [hat, hold, recomputed_bit]
      exact .inl hi'
    · simp only [hat]
      rw [hat']
      split
      · next hsame =>
        rw [hsame, if_neg]
        rintro ⟨hin, hnot⟩
        rw [hnot] at hin
        cases hin
      · simp [ByView.append, leaves]

/-! ## What the views are told -/

/-- The PIDs a view has. -/
def selected (byPID : PIDRecords) (view : SignalView) : Finset PID :=
  byPID.keys.toFinset.filter fun pid => view.contains (signalsAt byPID pid) = true

theorem mem_selected {view : SignalView} :
    pid ∈ selected byPID view ↔ view.contains (signalsAt byPID pid) = true := by
  rw [selected, Finset.mem_filter, mem_toFinset]
  refine ⟨fun h => h.2, fun h => ⟨?_, h⟩⟩
  by_contra hnone
  have hzero : signalsAt byPID pid = 0 := by
    rw [signalsAt, lookup_eq_none.mpr hnone]
    rfl
  rw [hzero, contains_zero] at h
  cases h

theorem AddRound.replays (h : AddRound pid st st') (view : SignalView) :
    ∃ l, st'.2 view = st.2 view ++ l ∧
      Replays (selected st.1 view) (l.map .added) (selected st'.1 view) := by
  have hgrows : view.contains (signalsAt st.1 pid) = true →
      view.contains (signalsAt st'.1 pid) = true := contains_mono h.grows
  rw [h.batch view]
  split
  · next hedge =>
    refine ⟨[pid], rfl, .added ?_ fun x => ?_⟩
    · rw [mem_selected, hedge.1]
      exact Bool.false_ne_true
    rw [mem_selected, mem_selected]
    by_cases hx : x = pid
    · rw [hx]
      exact ⟨fun _ => .inl rfl, fun _ => hedge.2⟩
    · rw [h.others x hx]
      exact ⟨.inr, fun hx' => hx'.resolve_left hx⟩
  · next hedge =>
    have hsame : selected st.1 view = selected st'.1 view := by
      ext x
      rw [mem_selected, mem_selected]
      by_cases hx : x = pid
      · rw [hx]
        refine ⟨hgrows, fun hnew => ?_⟩
        by_contra hold
        exact hedge ⟨Bool.not_eq_true _ ▸ hold, hnew⟩
      · rw [h.others x hx]
    refine ⟨[], (append_nil _).symm, ?_⟩
    rw [hsame]
    exact .nil _

theorem RemoveRound.replays (h : RemoveRound pid st st') (view : SignalView) :
    ∃ l, st'.2 view = st.2 view ++ l ∧
      Replays (selected st.1 view) (l.map .removed) (selected st'.1 view) := by
  have hshr : view.contains (signalsAt st'.1 pid) = true →
      view.contains (signalsAt st.1 pid) = true := contains_mono h.shrinks
  rw [h.batch view]
  split
  · next hedge =>
    refine ⟨[pid], rfl, .removed (mem_selected.mpr hedge.1) fun x => ?_⟩
    rw [mem_selected, mem_selected]
    by_cases hx : x = pid
    · rw [hx, hedge.2]
      exact ⟨fun hin => absurd hin Bool.false_ne_true, fun hin => absurd rfl hin.1⟩
    · rw [h.others x hx]
      exact ⟨fun hin => ⟨hx, hin⟩, fun hin => hin.2⟩
  · next hedge =>
    have hsame : selected st.1 view = selected st'.1 view := by
      ext x
      rw [mem_selected, mem_selected]
      by_cases hx : x = pid
      · rw [hx]
        refine ⟨fun hold => ?_, hshr⟩
        by_contra hnew
        exact hedge ⟨hold, Bool.not_eq_true _ ▸ hnew⟩
      · rw [h.others x hx]
    refine ⟨[], (append_nil _).symm, ?_⟩
    rw [hsame]
    exact .nil _

/-- Rounds one after another: what each tells a view adds up. -/
theorem foldl_replays (edge : PID → Edge PID)
    (hround : ∀ st pid, WellFormedRecords st.1 → WellFormedRecords (round st pid).1 ∧
      ∀ view, ∃ l, (round st pid).2 view = st.2 view ++ l ∧
        Replays (selected st.1 view) (l.map edge) (selected (round st pid).1 view))
    (pids : List PID) (st : PIDRecords × ByView) (hwf : WellFormedRecords st.1) :
    WellFormedRecords (pids.foldl round st).1 ∧
      ∀ view, ∃ l, (pids.foldl round st).2 view = st.2 view ++ l ∧
        Replays (selected st.1 view) (l.map edge) (selected (pids.foldl round st).1 view) := by
  induction pids generalizing st with
  | nil => exact ⟨hwf, fun view => ⟨[], (append_nil _).symm, .nil _⟩⟩
  | cons pid rest ih =>
    obtain ⟨hwf1, hrep1⟩ := hround st pid hwf
    obtain ⟨hwf2, hrep2⟩ := ih (round st pid) hwf1
    refine ⟨hwf2, fun view => ?_⟩
    obtain ⟨l1, hl1, hr1⟩ := hrep1 view
    obtain ⟨l2, hl2, hr2⟩ := hrep2 view
    refine ⟨l1 ++ l2, ?_, ?_⟩
    · rw [foldl_cons, hl2, hl1, append_assoc]
    · rw [map_append]
      exact hr1.append hr2

/-- The edges a view hears of in an operation. -/
def Notices.edges (n : Notices) (view : SignalView) : List (Edge PID) :=
  (n.added view).map .added ++ (n.removed view).map .removed

/-- What an operation leaves, and that its edges tell it. -/
structure Tells (d : DynamicSelector) (res : DynamicSelector × Notices) : Prop where
  wellFormed : WellFormedRecords res.1.byPID
  replays : ∀ view, Replays (selected d.byPID view) (Notices.edges res.2 view)
    (selected res.1.byPID view)

variable {d : DynamicSelector}

theorem Tells.of_same {res : DynamicSelector × Notices} (hwf : WellFormedRecords res.1.byPID)
    (hsame : ∀ q, signalsAt res.1.byPID q = signalsAt d.byPID q) (hnone : res.2 = .none) :
    Tells d res where
  wellFormed := hwf
  replays view := by
    have heq : selected d.byPID view = selected res.1.byPID view := by
      ext x
      rw [mem_selected, mem_selected, hsame]
    rw [hnone, heq]
    exact .nil _

theorem tells_addFrom (hwf : WellFormedRecords d.byPID)
    (opts : Option DynamicPIDAttributes) (src : Option WorkloadKey) (pids : List PID) :
    Tells d (d.addSignalsFrom mask opts src pids) := by
  rw [addSignalsFrom]
  split
  · exact .of_same hwf (fun _ => rfl) rfl
  · next hguard =>
    have hmask : mask ≠ 0 := by
      rintro rfl
      simp at hguard
    obtain ⟨hwf', hrep⟩ := foldl_replays .added (fun st pid h => ⟨(addRound_addTo h hmask
      opts src pid).wellFormed, (addRound_addTo h hmask opts src pid).replays⟩) pids
      (d.byPID, fun _ => []) hwf
    refine ⟨hwf', fun view => ?_⟩
    obtain ⟨l, hl, hr⟩ := hrep view
    simp only [Notices.edges, Notices.none, hl, map_nil, append_nil]
    exact hr

/-- The rounds of an operation that removes are all it tells. -/
theorem tells_removing
    (hround : ∀ st pid, WellFormedRecords st.1 → RemoveRound pid st (round st pid))
    (hwf : WellFormedRecords d.byPID) (pids : List PID) :
    Tells d ({ d with byPID := (pids.foldl round (d.byPID, fun _ => [])).1 },
      { Notices.none with removed := (pids.foldl round (d.byPID, fun _ => [])).2 }) := by
  obtain ⟨hwf', hrep⟩ := foldl_replays .removed (fun st pid h => ⟨(hround st pid h).wellFormed,
    (hround st pid h).replays⟩) pids (d.byPID, fun _ => []) hwf
  refine ⟨hwf', fun view => ?_⟩
  obtain ⟨l, hl, hr⟩ := hrep view
  simp only [Notices.edges, hl]
  exact hr

theorem tells_removeSignals (hwf : WellFormedRecords d.byPID) (mask : DynamicPIDSignal)
    (pids : List PID) : Tells d (d.removeSignals mask pids) := by
  rw [removeSignals]
  split
  · exact .of_same hwf (fun _ => rfl) rfl
  · exact tells_removing (fun st pid h => removeRound_removeOf h mask pid) hwf pids

theorem tells_clearSources (hwf : WellFormedRecords d.byPID) (pids : List PID) :
    Tells d (d.clearWorkloadSources pids) := by
  rw [clearWorkloadSources]
  split
  · exact .of_same hwf (fun _ => rfl) rfl
  · exact tells_removing (fun st pid h => removeRound_clearOf h pid) hwf pids

/-! ### Workloads -/

section

/-- The records after `removeWorkload`. -/
def workloadRemoved (mask : DynamicPIDSignal) (key : WorkloadKey) (byPID : PIDRecords) :
    PIDRecords :=
  byPID.filterMap fun _ r =>
    if (withoutWorkload mask key r).signals = 0 ∧ (r.workloads.lookup key).isSome then none
    else some (withoutWorkload mask key r)

theorem withoutWorkload_wf (hr : r.signals = r.recomputedSignals) :
    (withoutWorkload mask key r).signals = (withoutWorkload mask key r).recomputedSignals := by
  rw [withoutWorkload]
  split
  · exact hr
  · rfl

theorem withoutWorkload_shrinks (hr : r.signals = r.recomputedSignals)
    (hi : (withoutWorkload mask key r).signals.getLsbD i = true) : r.signals.getLsbD i = true := by
  rw [withoutWorkload_wf hr, recomputed_bit, withoutWorkload_explicit] at hi
  rw [hr, recomputed_bit]
  refine hi.imp id ?_
  rintro ⟨k, hk⟩
  rw [withoutWorkload_from, Bool.and_eq_true] at hk
  exact ⟨k, hk.1⟩

theorem workloadGone_wf (hwf : WellFormedRecords byPID) :
    WellFormedRecords (workloadRemoved mask key byPID) := by
  intro pid r' hr'
  rw [workloadRemoved, lookup_filterMap] at hr'
  obtain ⟨r, hr, hsome⟩ := Option.bind_eq_some_iff.mp hr'
  split at hsome
  · cases hsome
  · next hkeep =>
    cases hsome
    refine ⟨withoutWorkload_wf (hwf pid r hr).1, fun hzero => ?_⟩
    cases hws : r.workloads.lookup key with
    | some ws => exact hkeep ⟨hzero, by rw [hws]; rfl⟩
    | none =>
      rw [withoutWorkload, hws] at hzero
      exact (hwf pid r hr).2 hzero

theorem signalsAt_workloadGone (byPID : PIDRecords) (pid : PID) :
    signalsAt (workloadRemoved mask key byPID) pid =
      (withoutWorkload mask key ((byPID.lookup pid).getD .zero)).signals := by
  rw [signalsAt, workloadRemoved, lookup_filterMap]
  cases byPID.lookup pid with
  | none => rfl
  | some r =>
    rw [Option.bind_some, Option.getD_some]
    split
    · next hdrop => rw [hdrop.1]; rfl
    · rw [Option.getD_some]

/-- The PIDs that leave a view when a workload is removed. -/
def workloadLeavers (mask : DynamicPIDSignal) (key : WorkloadKey) (byPID : PIDRecords)
    (view : SignalView) : List PID :=
  byPID.entries.filterMap fun e =>
    if leaves e.2.signals (withoutWorkload mask key e.2).signals view then some e.1 else none

theorem workloadLeavers_nodup (byPID : PIDRecords) (view : SignalView) :
    (workloadLeavers mask key byPID view).Nodup := by
  have hsub : ∀ l : List (Σ _ : PID, DynamicPIDRecord), (l.filterMap fun e =>
        if leaves e.2.signals (withoutWorkload mask key e.2).signals view then some e.1
        else none).Sublist l.keys := by
    intro l
    induction l with
    | nil => exact .refl _
    | cons e rest ih =>
      rw [filterMap_cons]
      cases leaves e.2.signals (withoutWorkload mask key e.2).signals view with
      | true => exact ih.cons_cons _
      | false => exact ih.cons _
  exact (hsub byPID.entries).nodup byPID.nodupKeys

theorem mem_workloadLeavers {view : SignalView} : pid ∈ workloadLeavers mask key byPID view ↔
      leaves (signalsAt byPID pid) (signalsAt (workloadRemoved mask key byPID) pid) view
        = true := by
  rw [workloadLeavers, mem_filterMap, signalsAt_workloadGone]
  constructor
  · rintro ⟨⟨q, r⟩, hmem, hsome⟩
    split at hsome
    · next hlvs =>
      cases hsome
      rw [signalsAt, mem_lookup_iff.mpr hmem]
      exact hlvs
    · cases hsome
  · intro hlvs
    cases hr : byPID.lookup pid with
    | none =>
      rw [signalsAt, hr] at hlvs
      rw [Option.getD_none, leaves] at hlvs
      rw [show zero.signals = 0 from rfl, contains_zero] at hlvs
      cases hlvs
    | some r =>
      rw [signalsAt, hr, Option.getD_some] at hlvs
      refine ⟨⟨pid, r⟩, mem_lookup_iff.mp hr, ?_⟩
      simp [if_pos hlvs]

theorem tells_removeWorkload (hwf : WellFormedRecords d.byPID) (mask : DynamicPIDSignal)
    (key : WorkloadKey) : Tells d (d.removeWorkload mask key) := by
  rw [removeWorkload]
  split
  · exact .of_same hwf (fun _ => rfl) rfl
  split
  · exact .of_same hwf (fun _ => rfl) rfl
  simp only []
  split
  · exact .of_same hwf (fun _ => rfl) rfl
  refine ⟨workloadGone_wf hwf, fun view => ?_⟩
  change Replays (selected d.byPID view)
    ([] ++ (workloadLeavers mask key d.byPID view).map .removed)
    (selected (workloadRemoved mask key d.byPID) view)
  have hshr : ∀ x, view.contains (signalsAt (workloadRemoved mask key d.byPID) x) = true →
        view.contains (signalsAt d.byPID x) = true := by
    intro x
    refine contains_mono fun i hi => ?_
    rw [signalsAt_workloadGone] at hi
    exact withoutWorkload_shrinks (hwf.signals_eq x) hi
  refine .removed_all (workloadLeavers_nodup _ _) (fun x hx => ?_) fun x => ?_
  · rw [mem_workloadLeavers, leaves, Bool.and_eq_true] at hx
    exact mem_selected.mpr hx.1
  · rw [mem_workloadLeavers, mem_selected, mem_selected, leaves, Bool.and_eq_true,
      Bool.not_eq_true', not_and, Bool.not_eq_false]
    exact ⟨fun h => ⟨fun _ => h, hshr x h⟩, fun h => h.1 h.2⟩

theorem tells_addWorkload (hwf : WellFormedRecords d.byPID) (mask : DynamicPIDSignal)
    (key : WorkloadKey) (opts : Option DynamicPIDAttributes) :
    Tells d (d.addWorkload mask key opts) := by
  rw [addWorkload]
  split
  · exact .of_same hwf (fun _ => rfl) rfl
  simp only []
  split
  · refine .of_same (fun pid r' hr' => ?_) (fun q => ?_) rfl
    · rw [lookup_filterMap] at hr'
      obtain ⟨r, hr, hsome⟩ := Option.bind_eq_some_iff.mp hr'
      cases hsome
      split
      · exact hwf pid r hr
      · exact hwf pid r hr
    · rw [signalsAt, signalsAt, lookup_filterMap]
      cases d.byPID.lookup q with
      | none => rfl
      | some r =>
        rw [Option.bind_some]
        split
        · rfl
        · rfl
  · exact .of_same hwf (fun _ => rfl) rfl

end

/-! ## Runs -/

theorem tells_call (hwf : WellFormedRecords d.byPID) (call : SelectorCall) :
    Tells d (d.call call) := by
  cases call with
  | addPIDs view pids => exact tells_addFrom hwf none none pids
  | addPID view pid opts => exact tells_addFrom hwf (some opts) none [pid]
  | removePIDs view pids => exact tells_removeSignals hwf view.mask pids
  | addK8sWorkload view parsed opts =>
    cases parsed with
    | none => exact .of_same hwf (fun _ => rfl) rfl
    | some key => exact tells_addWorkload hwf view.mask key (some opts)
  | removeK8sWorkload view parsed =>
    cases parsed with
    | none => exact .of_same hwf (fun _ => rfl) rfl
    | some key => exact tells_removeWorkload hwf view.mask key
  | materializeMatchingWorkloads view pid md order =>
    rw [call, materializeMatchingWorkloads]
    split
    · exact .of_same hwf (fun _ => rfl) rfl
    · exact tells_addFrom hwf _ _ _
  | clearWorkloadSources pids => exact tells_clearSources hwf pids

/-- The call adds or removes PIDs and leaves the selected workloads alone. -/
def OnPIDs : SelectorCall → Prop
  | .addK8sWorkload _ _ _ | .removeK8sWorkload _ _ => False
  | _ => True

/-- A call on PIDs leaves the workloads and tells one channel of a view at most. -/
theorem call_onPIDs {c : SelectorCall} (hc : OnPIDs c) (d : DynamicSelector) :
    (d.call c).1.byWorkload = d.byWorkload ∧
      ((∀ view, (d.call c).2.removed view = []) ∨ ∀ view, (d.call c).2.added view = []) := by
  have hadd : ∀ mask opts source pids,
      (d.addSignalsFrom mask opts source pids).1.byWorkload = d.byWorkload ∧
        ∀ view, (d.addSignalsFrom mask opts source pids).2.removed view = [] := by
    intro mask opts source pids
    rw [addSignalsFrom]
    split <;> exact ⟨rfl, fun _ => rfl⟩
  cases c with
  | addPIDs view pids | addPID view pid opts => exact ⟨(hadd _ _ _ _).1, .inl (hadd _ _ _ _).2⟩
  | removePIDs view pids =>
    rw [call, removeSignals]
    split <;> exact ⟨rfl, .inr fun _ => rfl⟩
  | addK8sWorkload view parsed opts | removeK8sWorkload view parsed => exact absurd hc id
  | materializeMatchingWorkloads view pid md order =>
    rw [call, materializeMatchingWorkloads]
    split
    · exact ⟨rfl, .inl fun _ => rfl⟩
    · exact ⟨(hadd _ _ _ _).1, .inl (hadd _ _ _ _).2⟩
  | clearWorkloadSources pids =>
    rw [call, clearWorkloadSources]
    split <;> exact ⟨rfl, .inr fun _ => rfl⟩

variable (calls : List SelectorCall)

/-- The selector after some calls. -/
def selectorAfter : DynamicSelector := calls.foldl (fun d c => (d.call c).1) newDynamicSelector

theorem selectorAfter_wf : WellFormedRecords (selectorAfter calls).byPID := by
  refine foldlRecOn (motive := fun d : DynamicSelector => WellFormedRecords d.byPID) calls _
    ?_ fun d hd c _ => (tells_call hd c).wellFormed
  intro pid r hr
  cases hr

/-- The selector, and the edges each view has heard of so far. -/
structure SelectorRun where
  selector : DynamicSelector
  heard : SignalView → List (Edge PID)

def SelectorRun.init : SelectorRun := ⟨newDynamicSelector, fun _ => []⟩

def SelectorRun.step (run : SelectorRun) (call : SelectorCall) : SelectorRun :=
  { selector := (run.selector.call call).1
    heard := fun view => run.heard view ++ Notices.edges (run.selector.call call).2 view }

/-- `GetPIDs` lists what the view has. -/
theorem mem_getPIDs {view : SignalView} :
    pid ∈ (d.getPIDs view.mask).getD [] ↔ pid ∈ selected d.byPID view := by
  have hmem : pid ∈ (d.byPID.entries.filterMap fun e =>
      if e.2.signals &&& view.mask ≠ 0 then some e.1 else none) ↔ pid ∈ selected d.byPID view := by
    rw [mem_selected, signalsAt, mem_filterMap]
    constructor
    · rintro ⟨⟨q, r⟩, hent, hsome⟩
      split at hsome
      · next hsel =>
        cases hsome
        rw [mem_lookup_iff.mpr hent]
        exact decide_eq_true hsel
      · cases hsome
    · intro hsel
      cases hr : d.byPID.lookup pid with
      | none =>
        rw [hr, Option.getD_none, show zero.signals = 0 from rfl, contains_zero] at hsel
        cases hsel
      | some r =>
        rw [hr] at hsel
        exact ⟨⟨pid, r⟩, mem_lookup_iff.mp hr, if_pos (of_decide_eq_true hsel)⟩
  rw [getPIDs]
  split
  · next hemp =>
    rw [isEmpty_iff.mp hemp] at hmem
    exact hmem
  · rw [Option.getD_some, mem_mergeSort]
    exact hmem

theorem run_tells : WellFormedRecords (calls.foldl SelectorRun.step .init).selector.byPID ∧
      ∀ view, Replays ∅ ((calls.foldl SelectorRun.step .init).heard view)
        (selected (calls.foldl SelectorRun.step .init).selector.byPID view) := by
  refine foldlRecOn (motive := fun run : SelectorRun => WellFormedRecords run.selector.byPID ∧
      ∀ view, Replays ∅ (run.heard view) (selected run.selector.byPID view))
    calls SelectorRun.step ⟨fun pid r hr => ?_, fun view => .nil _⟩ ?_
  · cases hr
  · rintro run ⟨hwf, hrep⟩ call -
    have htells := tells_call hwf call
    exact ⟨htells.wellFormed, fun view => (hrep view).append (htells.replays view)⟩

/-- At every point of a run, the edges a view has heard of replay from the empty
set, each of them fitting, to the PIDs `GetPIDs` of the view returns; and the
mask of every record is the union of its sources and not empty. -/
theorem edges_replay_selection (calls : List SelectorCall) :
    (∀ view, ∃ pids, Replays ∅ ((calls.foldl SelectorRun.step .init).heard view) pids ∧
      ∀ pid, pid ∈ pids ↔
        pid ∈ ((calls.foldl SelectorRun.step .init).selector.getPIDs view.mask).getD []) ∧
    ∀ pid r, (calls.foldl SelectorRun.step .init).selector.byPID.lookup pid = some r →
      (∀ i, r.signals.getLsbD i = true ↔ r.explicitSignals.getLsbD i = true ∨
        ∃ key, (DynamicPIDRecord.signalsFrom r key).getLsbD i = true) ∧ r.signals ≠ 0 := by
  obtain ⟨hwf, hrep⟩ := run_tells calls
  refine ⟨fun view => ⟨_, hrep view, fun pid => mem_getPIDs.symm⟩, fun pid r hr => ?_⟩
  obtain ⟨hsigs, hne⟩ := hwf pid r hr
  refine ⟨fun i => ?_, hne⟩
  rw [hsigs]
  exact recomputed_bit

end Obi.Refine
