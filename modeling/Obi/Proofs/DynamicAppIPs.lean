import Obi.Proofs.DynamicSelector
import Obi.Ref.DynamicAppIPs
import Obi.Lib.Counts

/-!
# Allowed application IPs follow the selection

The tracker counts each IP as often as its tables list it, whatever it is fed.
Whether its table of PIDs is the selection depends on the order in which the two
loops come to the edges of a PID: the last edge to be worked off decides. If no
edge is worked off before an older one of the same PID, that is the last edge the
selector told of.
-/

namespace Obi.Refine
open Lib Ref List AppIPsLoops DynamicAppIPs Table
variable {K : Type} {src : IPSources} {view : SignalView}

/-! ## Counting -/

variable {t : Table String Int} {uses : String → Nat}

theorem count_cons_if (ip : String) (rest : List String) (j : String) :
    (ip :: rest).count j = rest.count j + if j = ip then 1 else 0 := by
  simp [count_cons, @eq_comm _ ip]

theorem counts_increment (h : Counts t uses)
    (ips : List String) : Counts (incrementIPsLocked t ips) fun ip => uses ip + ips.count ip := by
  induction ips generalizing t uses with
  | nil => exact h
  | cons ip rest ih =>
    refine (ih (h.increment ip)).congr fun j => ?_
    rw [count_cons_if]
    omega

theorem counts_decrement (h : Counts t uses)
    {ips : List String} (hips : ∀ ip, ips.count ip ≤ uses ip) :
    Counts (decrementIPsLocked t ips) fun ip => uses ip - ips.count ip := by
  induction ips generalizing t uses with
  | nil => exact h
  | cons ip rest ih =>
    have hone : 0 < uses ip := by
      have := hips ip
      rw [count_cons_self] at this
      omega
    refine (ih (h.decrement hone rfl) fun j => ?_).congr fun j => ?_
    · have := hips j
      rw [count_cons_if] at this
      omega
    · rw [count_cons_if]
      omega

/-- The number of times an IP is listed in a table. -/
def listed {K : Type} (t : Table K (List String)) (ip : String) : Nat :=
  total (fun ips => ips.count ip) t

theorem listed_ne_zero_iff [DecidableEq K] {t : Table K (List String)} {ip : String} :
    listed t ip ≠ 0 ↔ ∃ k ips, t.lookup k = some ips ∧ ip ∈ ips := by
  rw [listed, ne_eq, total_eq_zero_iff]
  simp [count_eq_zero]

/-- Every IP is counted. -/
def Counted (d : DynamicAppIPs) : Prop :=
  Counts d.allowedIPs fun ip => listed d.pidToIPs ip + listed d.workloadToIPs ip

/-- The IPs of a process are those it resolves to, and every IP is counted. -/
structure TrackedIPs (src : IPSources) (d : DynamicAppIPs) : Prop where
  pids : ∀ pid ips, d.pidToIPs.lookup pid = some ips → ips = src.resolveContainerIPs pid ∧ ips ≠ []
  counts : Counted d

variable {d : DynamicAppIPs}

theorem TrackedIPs.new (src : IPSources) : TrackedIPs src newDynamicAppIPs :=
  ⟨fun _ _ h => (nomatch h), Counts.empty⟩

theorem TrackedIPs.allowed_iff (h : TrackedIPs src d) (ip : String) :
    (d.allowedIPs.lookup ip).isSome = true ↔
      (∃ pid ips, d.pidToIPs.lookup pid = some ips ∧ ip ∈ ips) ∨
        ∃ ref ips, d.workloadToIPs.lookup ref = some ips ∧ ip ∈ ips := by
  rw [h.counts.mem_iff, ← listed_ne_zero_iff, ← listed_ne_zero_iff]
  omega

theorem addPID_lookup (pid q : PID) : (d.addPID src pid).pidToIPs.lookup q =
      if q = pid ∧ src.resolveContainerIPs pid ≠ [] then some (src.resolveContainerIPs pid)
      else d.pidToIPs.lookup q := by
  rw [DynamicAppIPs.addPID]
  by_cases hnone : src.resolveContainerIPs pid = []
  · simp [hnone]
  · simp [get_insert, hnone]

/-- What is counted once the IPs of a process are released. -/
theorem Counted.released (h : Counted d) {pid : PID} {prev : List String}
    (hold : d.pidToIPs.lookup pid = some prev) :
    Counts (decrementIPsLocked d.allowedIPs prev) fun ip =>
      listed (d.pidToIPs.erase pid) ip + listed d.workloadToIPs ip := by
  have htotal : ∀ ip, listed d.pidToIPs ip =
      listed (d.pidToIPs.erase pid) ip + prev.count ip := fun ip => total_erase hold
  refine (counts_decrement h fun ip => ?_).congr fun ip => ?_
  · rw [htotal]
    omega
  · rw [htotal]
    omega

theorem Counted.addPID (h : Counted d) (src : IPSources) (pid : PID) :
    Counted (d.addPID src pid) := by
  rw [DynamicAppIPs.addPID]
  split
  · exact h
  · cases hold : d.pidToIPs.lookup pid with
    | none =>
      refine (counts_increment h _).congr fun ip => ?_
      simp only [listed, total_insert, total_erase_none hold]
      omega
    | some prev =>
      refine (counts_increment (h.released hold) _).congr fun ip => ?_
      simp only [listed, total_insert]
      omega

theorem TrackedIPs.addPID (h : TrackedIPs src d) (pid : PID) :
    TrackedIPs src (d.addPID src pid) := by
  refine ⟨fun q ips hq => ?_, h.counts.addPID src pid⟩
  rw [addPID_lookup] at hq
  split at hq
  · next hcond =>
    cases hq
    rw [hcond.1]
    exact ⟨rfl, hcond.2⟩
  · exact h.pids q ips hq

theorem removePID_lookup (pid q : PID) :
    (d.removePID pid).pidToIPs.lookup q = if q = pid then none else d.pidToIPs.lookup q := by
  rw [removePID]
  cases hold : d.pidToIPs.lookup pid with
  | none =>
    simp only []
    split
    · next hq => rw [hq, hold]
    · rfl
  | some ips => exact get_erase _ _ _

theorem Counted.removeBatch (h : Counted d) (pids : List PID) : Counted (d.removeBatch pids) := by
  refine foldlRecOn pids _ h fun d h pid _ => ?_
  rw [removePID]
  cases hold : d.pidToIPs.lookup pid with
  | none => exact h
  | some prev => exact h.released hold

/-- The IPs a process resolves to, if there are any. -/
def resolved (src : IPSources) (pid : PID) : Option (List String) :=
  if src.resolveContainerIPs pid = [] then none else some (src.resolveContainerIPs pid)

theorem addBatch_lookup (d : DynamicAppIPs) (pids : List PID) (q : PID) :
    (d.addBatch src pids).pidToIPs.lookup q =
      if q ∈ pids then (resolved src q).or (d.pidToIPs.lookup q) else d.pidToIPs.lookup q := by
  refine (foldl_observe_each (P := fun _ => True) (fun d q => d.pidToIPs.lookup q)
    (fun q old => (resolved src q).or old) (fun q old => ?_)
    (fun d pid _ _ => ⟨trivial, fun x => ?_⟩)
    d trivial).2 q
  · cases resolved src q <;> rfl
  rw [addPID_lookup, resolved]
  by_cases hx : x = pid
  · subst hx
    by_cases hips : src.resolveContainerIPs x = []
    · rw [if_neg (fun h => h.2 hips), if_pos rfl, if_pos hips, Option.none_or]
    · rw [if_pos ⟨rfl, hips⟩, if_pos rfl, if_neg hips, Option.some_or]
  · rw [if_neg (fun h => hx h.1), if_neg hx]

theorem TrackedIPs.addBatch (h : TrackedIPs src d) (pids : List PID) :
    TrackedIPs src (d.addBatch src pids) :=
  List.foldlRecOn (motive := TrackedIPs src) pids _ h fun _ hd pid _ => hd.addPID pid

theorem removeBatch_lookup (d : DynamicAppIPs) (pids : List PID) (q : PID) :
    (d.removeBatch pids).pidToIPs.lookup q = if q ∈ pids then none else d.pidToIPs.lookup q :=
  (foldl_observe (P := fun _ => True) (fun d q => d.pidToIPs.lookup q) (fun _ => none)
    (fun _ => rfl) (fun _ pid _ _ => ⟨trivial, removePID_lookup pid⟩) d trivial).2 q

theorem TrackedIPs.removeBatch (h : TrackedIPs src d) (pids : List PID) :
    TrackedIPs src (d.removeBatch pids) := by
  refine ⟨fun q ips hq => ?_, h.counts.removeBatch pids⟩
  rw [removeBatch_lookup] at hq
  split at hq
  · cases hq
  · exact h.pids q ips hq

theorem removeBatch_workloads (d : DynamicAppIPs) (pids : List PID) :
    (d.removeBatch pids).workloadToIPs = d.workloadToIPs := by
  refine foldlRecOn (motive := fun d' : DynamicAppIPs => d'.workloadToIPs = d.workloadToIPs)
    pids _ rfl ?_
  intro d' hd' pid _
  rw [← hd', removePID]
  split <;> rfl

/-! ## Workloads -/

/-- The lists of a table one after the other. -/
theorem listed_eq_count (t : Table K (List String)) (ip : String) :
    listed t ip = (t.entries.flatMap Sigma.snd).count ip := by
  rw [count_flatMap]
  rfl

theorem Counted.refreshWorkloads (h : Counted d) (src : IPSources) (refs : List WorkloadKey) :
    Counted (d.refreshWorkloads src refs) := by
  have hold := @counts_decrement _ _ h (d.workloadToIPs.entries.flatMap Sigma.snd) fun ip => by
    rw [← listed_eq_count]
    exact Nat.le_add_left _ _
  have hnew := counts_increment hold ((workloadIPs src refs).entries.flatMap Sigma.snd)
  simp only [incrementIPsLocked, decrementIPsLocked, foldl_flatMap, ← listed_eq_count,
    Nat.add_sub_cancel] at hnew
  exact hnew

theorem workloadIPs_iff (refs : List WorkloadKey) (ip : String) :
    (∃ ref ips, (workloadIPs src refs).lookup ref = some ips ∧ ip ∈ ips) ↔
      ∃ ref ∈ refs, ∃ podIPs, src.podIPsForWorkload = some podIPs ∧ ip ∈ podIPs ref := by
  rw [workloadIPs]
  cases src.podIPsForWorkload with
  | none => simp
  | some podIPs =>
    have hlook : ∀ ref, (refs.foldl (fun next ref =>
        if (podIPs ref).isEmpty then next else next.insert ref (podIPs ref))
          (∅ : Table WorkloadKey (List String))).lookup ref =
        if ref ∈ refs then (if (podIPs ref).isEmpty then none else some (podIPs ref))
        else none := by
      intro ref
      refine (foldl_observe_each (P := fun _ => True)
        (fun (t : Table WorkloadKey (List String)) ref => t.lookup ref)
        (fun ref old => if (podIPs ref).isEmpty then old else some (podIPs ref))
        (fun ref old => ?_) (fun t r _ _ => ⟨trivial, fun x => ?_⟩) ∅ trivial).2 ref
      · split <;> rfl
      · by_cases hemp : (podIPs r).isEmpty
        · by_cases hx : x = r <;> simp [hx, hemp]
        · by_cases hx : x = r <;> simp [hx, hemp, get_insert]
    have hne : ∀ ref, podIPs ref ≠ [] ∧ ip ∈ podIPs ref ↔ ip ∈ podIPs ref :=
      fun _ => and_iff_right_of_imp ne_nil_of_mem
    simp only [hlook]
    simp [and_assoc, hne]

/-- A section under the lock, with what was looked up for it. -/
inductive IPsSection
  | addPID (src : IPSources) (pid : PID)
  | removeBatch (pids : List PID)
  | refreshWorkloads (src : IPSources) (refs : List WorkloadKey)

def enter (d : DynamicAppIPs) : IPsSection → DynamicAppIPs
  | .addPID src pid => d.addPID src pid
  | .removeBatch pids => d.removeBatch pids
  | .refreshWorkloads src refs => d.refreshWorkloads src refs

/-- Whatever is looked up, an IP is counted as often as the tables list it. -/
theorem allowedIPs_counted (sections : List IPsSection) (ip : String) :
    let d := sections.foldl enter newDynamicAppIPs
    (d.allowedIPs.lookup ip).getD 0 = (listed d.pidToIPs ip + listed d.workloadToIPs ip : Nat) ∧
      (d.allowedIPs.lookup ip = none ↔ listed d.pidToIPs ip + listed d.workloadToIPs ip = 0) := by
  intro d
  have hcounted : Counted d := by
    refine foldlRecOn sections _ Counts.empty fun d h e _ => ?_
    cases e with
    | addPID src pid => exact h.addPID src pid
    | removeBatch pids => exact h.removeBatch pids
    | refreshWorkloads src refs => exact h.refreshWorkloads src refs
  refine ⟨hcounted.getD ip, ?_⟩
  rw [← not_iff_not, ← ne_eq, Option.ne_none_iff_isSome]
  exact hcounted.mem_iff ip

/-! ## The two loops -/

/-- Both channels and the loops are empty. -/
def Drained (s : AppIPsLoops) : Prop := s.added = [] ∧ s.adding.pids = [] ∧ s.removed = []

instance (s : AppIPsLoops) : Decidable (Drained s) := inferInstanceAs (Decidable (_ ∧ _))

/-- A waiting edge that adds the PID, with its number. -/
def WaitsAdded (s : AppIPsLoops) (pid : PID) (seq : Nat) : Prop :=
  (s.adding.seq = seq ∧ pid ∈ s.adding.pids) ∨ ∃ b ∈ s.added, b.seq = seq ∧ pid ∈ b.pids

/-- A waiting edge that removes it. -/
def WaitsRemoved (s : AppIPsLoops) (pid : PID) (seq : Nat) : Prop :=
  ∃ b ∈ s.removed, b.seq = seq ∧ pid ∈ b.pids

/-- No edge is worked off while an older one of its PID waits in the other loop. -/
def InOrder (s : AppIPsLoops) : AppIPsEvent → Prop
  | .addNext => ∀ pid ∈ s.adding.pids.head?, ∀ seq, WaitsRemoved s pid seq → s.adding.seq < seq
  | .receiveRemoved => ∀ b ∈ s.removed.head?, ∀ pid ∈ b.pids, ∀ seq,
      WaitsAdded s pid seq → b.seq < seq
  | _ => True

structure LoopsInv (src : IPSources) (view : SignalView) (s : AppIPsLoops) : Prop where
  wellFormed : WellFormedRecords s.selector.byPID
  tracked : TrackedIPs src s.tracker
  workloads : s.tracker.workloadToIPs = workloadIPs src (s.selector.getWorkloads view.mask)
  numbered_added : ∀ pid a, WaitsAdded s pid a → a ≤ s.calls
  numbered_removed : ∀ pid d, WaitsRemoved s pid d → d ≤ s.calls
  tells : ∀ pid, src.resolveContainerIPs pid ≠ [] →
    EdgesTell (WaitsAdded s pid) (WaitsRemoved s pid)
      ((s.tracker.pidToIPs.lookup pid).isSome = true) (pid ∈ selected s.selector.byPID view)

variable {s : AppIPsLoops}

/-! ### Calls of the selector -/

theorem exists_mem_notify (ch : List PidBatch) (seq : Nat) (pids : List PID) (pid : PID) (n : Nat) :
    (∃ b ∈ notify ch seq pids, b.seq = n ∧ pid ∈ b.pids) ↔
      (∃ b ∈ ch, b.seq = n ∧ pid ∈ b.pids) ∨ (seq = n ∧ pid ∈ pids) := by
  rw [notify]
  split
  · next hemp =>
    rw [isEmpty_iff.mp hemp]
    exact ⟨.inl, fun h => h.resolve_right fun hbad => not_mem_nil hbad.2⟩
  · simp

theorem waitsAdded_call (c : SelectorCall) (pid : PID) (n : Nat) :
    WaitsAdded (s.step src view (.call c)) pid n ↔
      WaitsAdded s pid n ∨ (s.calls + 1 = n ∧ pid ∈ (s.selector.call c).2.added view) := by
  rw [WaitsAdded, WaitsAdded, or_assoc]
  exact or_congr Iff.rfl (exists_mem_notify s.added (s.calls + 1) _ pid n)

theorem waitsRemoved_call (c : SelectorCall) (pid : PID) (n : Nat) :
    WaitsRemoved (s.step src view (.call c)) pid n ↔
      WaitsRemoved s pid n ∨ (s.calls + 1 = n ∧ pid ∈ (s.selector.call c).2.removed view) :=
  exists_mem_notify s.removed (s.calls + 1) _ pid n

section
variable (h : LoopsInv src view s)
include h

theorem loopsInv_call {c : SelectorCall} (hc : OnPIDs c) :
    LoopsInv src view (s.step src view (.call c)) := by
  have htells := tells_call h.wellFormed c
  obtain ⟨hworkloads, hchannel⟩ := call_onPIDs hc s.selector
  obtain ⟨mid, hadded, hrem⟩ := (htells.replays view).split
  refine ⟨htells.wellFormed, h.tracked, ?_, ?_, ?_, fun pid hips => ?_⟩
  · change s.tracker.workloadToIPs = workloadIPs src ((s.selector.call c).1.getWorkloads view.mask)
    rw [h.workloads, DynamicSelector.getWorkloads, DynamicSelector.getWorkloads, hworkloads]
  · intro pid a ha
    rcases (waitsAdded_call c pid a).mp ha with hold | ⟨rfl, -⟩
    · exact Nat.le_succ_of_le (h.numbered_added pid a hold)
    · exact le_rfl
  · intro pid d hd
    rcases (waitsRemoved_call c pid d).mp hd with hold | ⟨rfl, -⟩
    · exact Nat.le_succ_of_le (h.numbered_removed pid d hold)
    · exact le_rfl
  have hmem : pid ∈ selected (s.selector.call c).1.byPID view ↔
      pid ∉ (s.selector.call c).2.removed view ∧
        (pid ∈ (s.selector.call c).2.added view ∨ pid ∈ selected s.selector.byPID view) := by
    rw [hrem.mem_removed, hadded.mem_added]
  by_cases hin : pid ∈ (s.selector.call c).2.added view
  · have hnone : (s.selector.call c).2.removed view = [] := by
      rcases hchannel with hr | ha
      · exact hr view
      · rw [ha view] at hin
        exact absurd hin not_mem_nil
    have hsel : pid ∈ selected (s.selector.call c).1.byPID view := by
      rw [hmem, hnone]
      exact ⟨not_mem_nil, .inl hin⟩
    refine (EdgesTell.tell_arrival (A := WaitsAdded s pid) (h.numbered_removed pid) hsel).congr
      (fun a => ?_) (fun d => ?_) Iff.rfl Iff.rfl
    · rw [waitsAdded_call]
      simp [hin, eq_comm]
    · rw [waitsRemoved_call, hnone]
      simp
  by_cases hout : pid ∈ (s.selector.call c).2.removed view
  · have hsel : pid ∉ selected (s.selector.call c).1.byPID view := by
      rw [hmem]
      exact fun h => h.1 hout
    refine (EdgesTell.tell_departure (D := WaitsRemoved s pid) (h.numbered_added pid) hsel).congr
      (fun a => ?_) (fun d => ?_) Iff.rfl Iff.rfl
    · rw [waitsAdded_call]
      simp [hin]
    · rw [waitsRemoved_call]
      simp [hout, eq_comm]
  · refine (h.tells pid hips).congr (fun a => ?_) (fun d => ?_) Iff.rfl ?_
    · rw [waitsAdded_call]
      simp [hin]
    · rw [waitsRemoved_call]
      simp [hout]
    · change _ ↔ pid ∈ selected (s.selector.call c).1.byPID view
      rw [hmem]
      simp [hin, hout]

/-! ### The loops -/

theorem loopsInv_recvAdded : LoopsInv src view (s.step src view .receiveAdded) := by
  rw [step]
  split
  · next batch rest hnone hadded =>
    have hwaits : ∀ pid a, WaitsAdded s pid a ↔
        WaitsAdded { s with adding := batch, added := rest } pid a := by
      intro pid a
      simp [WaitsAdded, hnone, hadded]
    refine ⟨h.wellFormed, h.tracked, h.workloads, ?_, h.numbered_removed, fun pid hips => ?_⟩
    · intro pid a ha
      exact h.numbered_added pid a ((hwaits pid a).mpr ha)
    · exact (h.tells pid hips).congr (hwaits pid) (fun _ => Iff.rfl) Iff.rfl Iff.rfl
  · exact h

theorem loopsInv_addNext (hok : InOrder s .addNext) :
    LoopsInv src view (s.step src view .addNext) := by
  rw [step]
  split
  · exact h
  · next pid rest hadd =>
    rw [InOrder, hadd] at hok
    have hwaits : ∀ q a, WaitsAdded s q a ↔ (WaitsAdded { s with
          tracker := s.tracker.addPID src pid
          adding := { s.adding with pids := rest } } q a ∨ (q = pid ∧ a = s.adding.seq)) := by
      intro q a
      simp only [WaitsAdded, hadd, mem_cons]
      constructor
      · rintro (⟨rfl, rfl | hq⟩ | hlater)
        · exact .inr ⟨rfl, rfl⟩
        · exact .inl (.inl ⟨rfl, hq⟩)
        · exact .inl (.inr hlater)
      · rintro ((⟨rfl, hq⟩ | hlater) | ⟨rfl, rfl⟩)
        · exact .inl ⟨rfl, .inr hq⟩
        · exact .inr hlater
        · exact .inl ⟨rfl, .inl rfl⟩
    refine ⟨h.wellFormed, h.tracked.addPID pid, ?_, ?_, h.numbered_removed, fun q hips => ?_⟩
    · rw [← h.workloads, DynamicAppIPs.addPID]
      split <;> rfl
    · intro q a ha
      exact h.numbered_added q a ((hwaits q a).mpr (.inl ha))
    · by_cases hq : q = pid
      · subst hq
        have hold := (h.tells q hips).congr (fun a => by rw [hwaits q a, and_iff_right rfl])
          (fun _ => Iff.rfl) Iff.rfl Iff.rfl
        refine (hold.hear_arrival fun d hd => hok q rfl d hd).congr (fun _ => Iff.rfl)
          (fun _ => Iff.rfl) ?_ Iff.rfl
        simp [addPID_lookup, hips]
      refine (h.tells q hips).congr (fun a => ?_) (fun _ => Iff.rfl) ?_ Iff.rfl
      · rw [hwaits q a]
        simp [hq]
      · simp [addPID_lookup, hq]

theorem loopsInv_recvRemoved (hok : InOrder s .receiveRemoved) :
    LoopsInv src view (s.step src view .receiveRemoved) := by
  rw [step]
  split
  · exact h
  · next batch rest hrem =>
    rw [InOrder, hrem] at hok
    have hwaits : ∀ q d, WaitsRemoved s q d ↔ (WaitsRemoved { s with
          tracker := s.tracker.removeBatch batch.pids
          removed := rest } q d ∨ (q ∈ batch.pids ∧ d = batch.seq)) := by
      intro q d
      simp only [WaitsRemoved, hrem, mem_cons, or_and_right, exists_or, exists_eq_left]
      rw [or_comm, and_comm, eq_comm]
    refine ⟨h.wellFormed, h.tracked.removeBatch _, ?_, h.numbered_added, ?_, fun q hips => ?_⟩
    · exact (removeBatch_workloads _ _).trans h.workloads
    · intro q d hd
      exact h.numbered_removed q d ((hwaits q d).mpr (.inl hd))
    · by_cases hq : q ∈ batch.pids
      · have hold := (h.tells q hips).congr (fun _ => Iff.rfl)
          (fun d => by rw [hwaits q d, and_iff_right hq]) Iff.rfl Iff.rfl
        refine (hold.hear_departure fun a ha => hok batch rfl q hq a ha).congr (fun _ => Iff.rfl)
          (fun _ => Iff.rfl) ?_ Iff.rfl
        simp [removeBatch_lookup, hq]
      refine (h.tells q hips).congr (fun _ => Iff.rfl) (fun d => ?_) ?_ Iff.rfl
      · rw [hwaits q d]
        simp [hq]
      · simp [removeBatch_lookup, hq]

theorem loopsInv_step {e : AppIPsEvent} (hok : InOrder s e)
    (hc : ∀ c, e = .call c → OnPIDs c) : LoopsInv src view (s.step src view e) := by
  cases e with
  | call c => exact loopsInv_call h (hc c rfl)
  | receiveAdded => exact loopsInv_recvAdded h
  | addNext => exact loopsInv_addNext h hok
  | receiveRemoved => exact loopsInv_recvRemoved h hok
  | refreshWorkloads =>
    exact ⟨h.wellFormed, ⟨h.tracked.pids, h.tracked.counts.refreshWorkloads src _⟩, rfl,
      h.numbered_added,
      h.numbered_removed, h.tells⟩

end

/-! ## Runs -/

theorem loopsInv_run (src : IPSources) (view : SignalView) {d : DynamicSelector}
    (hd : WellFormedRecords d.byPID) : LoopsInv src view (run src view d) := by
  have hadded : ∀ pid a, ¬ WaitsAdded (run src view d) pid a := by
    rintro pid a (⟨-, hnone⟩ | ⟨b, hnone, -⟩) <;> exact absurd hnone not_mem_nil
  have hrem : ∀ pid r, ¬ WaitsRemoved (run src view d) pid r := by
    rintro pid r ⟨b, hnone, -⟩
    exact absurd hnone not_mem_nil
  have htrkd := (TrackedIPs.new src).addBatch ((d.getPIDs view.mask).getD [])
  refine ⟨hd, ⟨htrkd.pids, htrkd.counts.refreshWorkloads src _⟩, rfl,
    fun pid a ha => absurd ha (hadded pid a), fun pid r hr => absurd hr (hrem pid r),
    fun pid hips => ⟨fun a ha => absurd ha (hadded pid a), fun r hr => absurd hr (hrem pid r),
      fun _ _ => ?_⟩⟩
  change ((newDynamicAppIPs.addBatch src ((d.getPIDs view.mask).getD [])).pidToIPs.lookup
    pid).isSome = true ↔ pid ∈ selected d.byPID view
  rw [addBatch_lookup, ← mem_getPIDs, resolved]
  split
  · next hin => exact iff_of_true rfl hin
  · next hout => exact iff_of_false Bool.false_ne_true hout

/-- The IPs of the selected processes and of the selected workloads. -/
def wantedIPs (src : IPSources) (view : SignalView) (d : DynamicSelector) (ip : String) : Prop :=
  (∃ pid ∈ (d.getPIDs view.mask).getD [], ip ∈ src.resolveContainerIPs pid) ∨
    ∃ ref ∈ d.getWorkloads view.mask,
      ∃ podIPs, src.podIPsForWorkload = some podIPs ∧ ip ∈ podIPs ref

theorem LoopsInv.allowed_iff (h : LoopsInv src view s) (hdrained : Drained s) (ip : String) :
    (s.tracker.allowedIPs.lookup ip).isSome = true ↔ wantedIPs src view s.selector ip := by
  obtain ⟨hadded, hadd, hrem⟩ := hdrained
  rw [h.tracked.allowed_iff, h.workloads, workloadIPs_iff]
  refine or_congr ?_ Iff.rfl
  have hset : ∀ pid, src.resolveContainerIPs pid ≠ [] →
      ((s.tracker.pidToIPs.lookup pid).isSome = true ↔ pid ∈ selected s.selector.byPID view) := by
    intro pid hips
    refine (h.tells pid hips).settled (fun a ha => ?_) (fun r hr => ?_)
    · rw [WaitsAdded, hadd, hadded] at ha
      rcases ha with ⟨-, hnone⟩ | ⟨b, hnone, -⟩ <;> exact absurd hnone not_mem_nil
    · rw [WaitsRemoved, hrem] at hr
      obtain ⟨b, hnone, -⟩ := hr
      exact absurd hnone not_mem_nil
  constructor
  · rintro ⟨pid, ips, hlook, hip⟩
    obtain ⟨rfl, hne⟩ := h.tracked.pids pid ips hlook
    refine ⟨pid, mem_getPIDs.mpr ((hset pid hne).mp ?_), hip⟩
    rw [hlook]
    rfl
  · rintro ⟨pid, hsel, hip⟩
    have hne : src.resolveContainerIPs pid ≠ [] := ne_nil_of_mem hip
    obtain ⟨ips, hlook⟩ := Option.isSome_iff_exists.mp ((hset pid hne).mpr (mem_getPIDs.mp hsel))
    obtain ⟨rfl, -⟩ := h.tracked.pids pid ips hlook
    exact ⟨pid, _, hlook, hip⟩

/-- If the edges of each PID are worked off in their order, the allowed IPs are
those of the selection whenever nothing waits. -/
theorem allowedIPs_follow_selection (src : IPSources) (view : SignalView)
    (before : List SelectorCall) (events : List AppIPsEvent)
    (hcalls : ∀ c, AppIPsEvent.call c ∈ events → OnPIDs c)
    (horder : Along (step src view) InOrder (run src view (selectorAfter before)) events)
    (hdrained : Drained (events.foldl (step src view) (run src view (selectorAfter before))))
    (ip : String) :
    ((events.foldl (step src view)
      (run src view (selectorAfter before))).tracker.allowedIPs.lookup ip).isSome = true ↔
      wantedIPs src view (events.foldl (step src view)
        (run src view (selectorAfter before))).selector ip := by
  have hall := horder.and_forall (q := fun e => ∀ c, e = .call c → OnPIDs c) (by
    rintro e he c rfl
    exact hcalls c he)
  refine LoopsInv.allowed_iff ?_ hdrained ip
  exact hall.inv (fun s e hs hok => loopsInv_step hs hok.1 hok.2)
    (loopsInv_run src view (selectorAfter_wf before))

/-- One process with one IP. -/
def oneContainer : IPSources := ⟨fun pid => if pid = 7 then ["10.0.0.7"] else [], none⟩

/-- The loops of a tracker that was started before anything was selected. -/
def afterEvents (events : List AppIPsEvent) : AppIPsLoops :=
  events.foldl (step oneContainer .networkMetrics)
    (run oneContainer .networkMetrics (selectorAfter []))

/-- The process is selected, taken back and selected again, each edge worked off
before the next one. -/
def selectedAgain : List AppIPsEvent :=
  [.call (.addPIDs .networkMetrics [7]), .receiveAdded, .addNext,
    .call (.removePIDs .networkMetrics [7]), .receiveRemoved,
    .call (.addPIDs .networkMetrics [7]), .receiveAdded, .addNext]

theorem inOrder_addNext (h : s.removed = []) : InOrder s .addNext := by
  rintro pid - seq ⟨b, hb, -⟩
  exact absurd (h ▸ hb) not_mem_nil

theorem inOrder_receiveRemoved (hadding : s.adding.pids = []) (hadded : s.added = []) :
    InOrder s .receiveRemoved := by
  rintro - - pid - seq (⟨-, hpid⟩ | ⟨b, hb, -⟩)
  · exact absurd (hadding ▸ hpid) not_mem_nil
  · exact absurd (hadded ▸ hb) not_mem_nil

/-- Its IP is allowed in the end, and was not once the removal was worked off. -/
theorem allowedIPs_follow_selection_added :
    ((afterEvents (selectedAgain.take 5)).tracker.allowedIPs.lookup "10.0.0.7").isSome = false ∧
      ((afterEvents selectedAgain).tracker.allowedIPs.lookup "10.0.0.7").isSome = true := by
  refine ⟨by decide +kernel, (allowedIPs_follow_selection oneContainer .networkMetrics []
    selectedAgain ?_ ⟨trivial, trivial, inOrder_addNext rfl, trivial,
      inOrder_receiveRemoved rfl rfl, trivial, trivial, inOrder_addNext rfl, trivial⟩
    (by decide +kernel) "10.0.0.7").mpr (.inl ⟨7, by decide +kernel, by decide⟩)⟩
  intro c hc
  simp only [selectedAgain, mem_cons, AppIPsEvent.call.injEq, reduceCtorEq, not_mem_nil, or_false,
    false_or] at hc
  rcases hc with rfl | rfl | rfl <;> trivial

/-- The process is selected and taken back before the loops come to it, and the
loop over the removed PIDs is first: its IP stays allowed. -/
theorem allowedIP_leaks : Drained (afterEvents [.call (.addPIDs .networkMetrics [7]),
        .call (.removePIDs .networkMetrics [7]), .receiveRemoved, .receiveAdded, .addNext]) ∧
      ((afterEvents [.call (.addPIDs .networkMetrics [7]),
        .call (.removePIDs .networkMetrics [7]), .receiveRemoved, .receiveAdded,
        .addNext]).tracker.allowedIPs.lookup "10.0.0.7").isSome = true ∧
      ¬ wantedIPs oneContainer .networkMetrics (afterEvents [.call (.addPIDs .networkMetrics [7]),
        .call (.removePIDs .networkMetrics [7]), .receiveRemoved, .receiveAdded,
        .addNext]).selector "10.0.0.7" := by
  refine ⟨by decide +kernel, by decide +kernel, ?_⟩
  rintro (⟨pid, hpid, -⟩ | ⟨ref, -, podIPs, hnone, -⟩)
  · cases hpid
  · cases hnone

end Obi.Refine
