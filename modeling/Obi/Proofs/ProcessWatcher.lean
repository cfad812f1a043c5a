import Obi.Ref.ProcessWatcher
import Obi.Spec.Lifecycle

/-!
# Processes that disappear

The watcher tells of the end of the processes it has from the poll before. These are
always processes it told of and did not yet end. They are all of them as long as no
process it has is found not ready: such a process is forgotten, and its end is never
told.

A poll handles each process by itself, so a round of its loop is described by what it
tells of one PID.
-/

namespace Obi.Refine
open Lib Ref Spec List Snapshot Option
variable {t t' : Table PID ProcessAttrs}

section
variable {ready : PID → Bool} {rescan : Bool} {s s' : Snapshot} {pid : PID} {proc : ProcessAttrs}

/-! ## Telling of a process -/

/-- What a round does for a process besides the ports it notes. -/
structure RoundAfter (pid : PID) (s s' : Snapshot) (events : List (Event ProcessAttrs))
    (dropped : List PID) : Prop where
  pa : s'.pa = s.pa
  procs : s'.currentProcs = s.currentProcs
  events : s'.events = s.events ++ events
  notReady : s'.notReadyProcs = dropped ++ s.notReadyProcs
  reported : ∀ q, q ≠ pid → (q ∈ s'.reportedProcs ↔ q ∈ s.reportedProcs)

/-- How a process is told of: not at all if it is known, else when it is ready. -/
inductive Announced (known refused : Prop) (proc : ProcessAttrs) :
    List (Event ProcessAttrs) → List PID → Prop
  | silent (h : known) : Announced known refused proc [] []
  | created : Announced known refused proc [⟨.created, proc⟩] []
  | dropped (h : known → refused) : Announced known refused proc [] [proc.pid]

variable {events : List (Event ProcessAttrs)} {q : PID}

theorem Announced.imp {known known' refused refused' : Prop}
    {dropped : List PID} (h : Announced known refused proc events dropped)
    (hkn : known ↔ known') (href : known → refused → refused') :
    Announced known' refused' proc events dropped := by
  cases h with
  | silent h => exact .silent (hkn.mp h)
  | created => exact .created
  | dropped h => exact .dropped fun hk => href (hkn.mpr hk) (h (hkn.mpr hk))

theorem RoundAfter.refl (pid : PID) (s : Snapshot) : RoundAfter pid s s [] [] :=
  ⟨rfl, rfl, (append_nil _).symm, rfl, fun _ _ => Iff.rfl⟩

theorem RoundAfter.silent {u : Snapshot} {dropped : List PID}
    (h : RoundAfter pid s s' events dropped) (h' : RoundAfter pid s' u [] []) :
    RoundAfter pid s u events dropped where
  pa := h'.pa.trans h.pa
  procs := h'.procs.trans h.procs
  events := by rw [h'.events, h.events, append_nil]
  notReady := by rw [h'.notReady, h.notReady, nil_append]
  reported := fun q hq => (h'.reported q hq).trans (h.reported q hq)

theorem RoundAfter.created (h : RoundAfter pid s s' [] []) (proc : ProcessAttrs) :
    RoundAfter pid s (s'.created proc) [⟨.created, proc⟩] [] where
  pa := h.pa
  procs := h.procs
  events := by rw [Snapshot.created, h.events, append_nil]
  notReady := h.notReady
  reported := h.reported

/-- The first question for a process in a poll. -/
theorem ask_first (h : pid ∉ s.reportedProcs) : pid ∈ (s.ask ready pid).1.reportedProcs ∧
      (ready pid = true ∧ (s.ask ready pid).2 = true ∧ RoundAfter pid s (s.ask ready pid).1 [] [] ∨
        ready pid = false ∧ (s.ask ready pid).2 = false ∧
          RoundAfter pid s (s.ask ready pid).1 [] [pid]) := by
  have hoths : ∀ q, q ≠ pid → (q ∈ pid :: s.reportedProcs ↔ q ∈ s.reportedProcs) := by
    intro q hq
    rw [mem_cons]
    exact or_iff_right hq
  rw [ask, if_neg h]
  cases hrdy : ready pid with
  | true =>
    refine ⟨mem_cons_self, .inl ⟨rfl, rfl, ?_⟩⟩
    exact ⟨rfl, rfl, (append_nil _).symm, rfl, hoths⟩
  | false =>
    refine ⟨mem_cons_self, .inr ⟨rfl, rfl, ?_⟩⟩
    exact ⟨rfl, rfl, (append_nil _).symm, rfl, hoths⟩

/-! ### With ports -/

/-- A snapshot with a port of a process noted. -/
def withPort (s : Snapshot) (proc : ProcessAttrs) (port : Nat) : Snapshot :=
  { s with currentPidPorts := s.currentPidPorts.insert ⟨proc.pid, port⟩ proc }

theorem roundAfter_withPort (s : Snapshot) (proc : ProcessAttrs) (port : Nat) :
    RoundAfter proc.pid s (withPort s proc port) [] [] :=
  ⟨rfl, rfl, (append_nil _).symm, rfl, fun _ _ => Iff.rfl⟩

theorem RoundAfter.of_withPort {port : Nat}
    {dropped : List PID} (h : RoundAfter proc.pid (withPort s proc port) s' events dropped) :
    RoundAfter proc.pid s s' events dropped :=
  ⟨h.pa, h.procs, h.events, h.notReady, h.reported⟩

/-- A port gives cause to tell of its process. -/
def newPort (rescan : Bool) (pa : PollAccounter) (proc : ProcessAttrs) (port : Nat) : Bool :=
  rescan || !(pa.pidPorts.lookup ⟨proc.pid, port⟩).isSome || !(pa.pids.lookup proc.pid).isSome

theorem announce_eq (port : Nat) : s.announceConnection ready rescan proc port =
      if newPort rescan s.pa proc port then
        if ((withPort s proc port).ask ready proc.pid).2 then
          ((withPort s proc port).ask ready proc.pid).1.created proc
        else ((withPort s proc port).ask ready proc.pid).1
      else withPort s proc port := by
  have hcheck : s.checkNewProcessConnectionNotification ready rescan proc port =
      if newPort rescan s.pa proc port then (withPort s proc port).ask ready proc.pid
      else (withPort s proc port, false) := rfl
  rw [announceConnection, hcheck]
  by_cases hnew : newPort rescan s.pa proc port = true
  · rw [if_pos hnew, if_pos hnew]
    obtain ⟨asked, answer⟩ := (withPort s proc port).ask ready proc.pid
    cases answer <;> rfl
  · rw [if_neg hnew, if_neg hnew]

theorem announce_reported (h : proc.pid ∈ s.reportedProcs) (port : Nat) :
    s.announceConnection ready rescan proc port = withPort s proc port := by
  have hask : (withPort s proc port).ask ready proc.pid = (withPort s proc port, false) := if_pos h
  rw [announce_eq, hask, if_neg Bool.false_ne_true, ite_self]

theorem announce_first (h : proc.pid ∉ s.reportedProcs) {port : Nat}
    (hnew : newPort rescan s.pa proc port = true) :
    proc.pid ∈ (s.announceConnection ready rescan proc port).reportedProcs ∧
      (RoundAfter proc.pid s (s.announceConnection ready rescan proc port) [⟨.created, proc⟩] [] ∨
        ready proc.pid = false ∧
          RoundAfter proc.pid s (s.announceConnection ready rescan proc port) [] [proc.pid]) := by
  have hport := roundAfter_withPort s proc port
  obtain ⟨hrep, ⟨hrdy, hans, haft⟩ | ⟨hrdy, hans, haft⟩⟩ :=
    @ask_first ready (withPort s proc port) proc.pid h
  · rw [announce_eq, if_pos hnew, if_pos hans]
    exact ⟨hrep, .inl ((hport.silent haft).created proc)⟩
  · rw [announce_eq, if_pos hnew, if_neg (by rw [hans]; exact Bool.false_ne_true)]
    exact ⟨hrep, .inr ⟨hrdy, haft.of_withPort⟩⟩

theorem connections_reported (ports : List Nat) (h : proc.pid ∈ s.reportedProcs) :
    RoundAfter proc.pid s (ports.foldl (announceConnection ready rescan proc) s) [] [] := by
  induction ports generalizing s with
  | nil => exact .refl _ s
  | cons port rest ih =>
    rw [foldl_cons, announce_reported h]
    exact (roundAfter_withPort s proc port).silent (@ih (withPort s proc port) h)

/-- The first port that gives cause to it tells of the process. -/
theorem connections_first (ports : List Nat) (h : proc.pid ∉ s.reportedProcs) :
    (∀ port ∈ ports, newPort rescan s.pa proc port = false) ∧ RoundAfter proc.pid s
          (ports.foldl (announceConnection ready rescan proc) s) [] [] ∨
      (∃ port ∈ ports, newPort rescan s.pa proc port = true) ∧
        (RoundAfter proc.pid s (ports.foldl (announceConnection ready rescan proc) s)
            [⟨.created, proc⟩] [] ∨
          ready proc.pid = false ∧
            RoundAfter proc.pid s (ports.foldl (announceConnection ready rescan proc) s)
              [] [proc.pid]) := by
  induction ports generalizing s with
  | nil => exact .inl ⟨fun _ hport => (nomatch hport), .refl _ s⟩
  | cons port rest ih =>
    rw [foldl_cons]
    cases hnew : newPort rescan s.pa proc port with
    | true =>
      obtain ⟨hrep, hfst⟩ := @announce_first ready rescan s proc h port hnew
      have hrest := @connections_reported ready rescan _ proc rest hrep
      refine .inr ⟨⟨port, mem_cons_self, hnew⟩, ?_⟩
      rcases hfst with haft | ⟨hrdy, haft⟩
      · exact .inl (haft.silent hrest)
      · exact .inr ⟨hrdy, haft.silent hrest⟩
    | false =>
      have hsame : s.announceConnection ready rescan proc port = withPort s proc port := by
        rw [announce_eq, if_neg (by rw [hnew]; exact Bool.false_ne_true)]
      rw [hsame]
      rcases @ih (withPort s proc port) h with
        ⟨hold, haft⟩ | ⟨⟨p, hp, hpnew⟩, haft | ⟨hrdy, haft⟩⟩
      · exact .inl ⟨forall_mem_cons.mpr ⟨hnew, hold⟩, haft.of_withPort⟩
      · exact .inr ⟨⟨p, mem_cons_of_mem _ hp, hpnew⟩, .inl haft.of_withPort⟩
      · exact .inr ⟨⟨p, mem_cons_of_mem _ hp, hpnew⟩, .inr ⟨hrdy, haft.of_withPort⟩⟩

/-! ### One process -/

/-- The question for a known process. -/
def Asked (rescan : Bool) (pa : PollAccounter) (proc : ProcessAttrs) : Prop :=
  rescan = true ∨ ∃ port ∈ proc.openPorts, pa.pidPorts.lookup ⟨proc.pid, port⟩ = none

theorem announce_portless (h : proc.pid ∉ s.reportedProcs) (hports : proc.openPorts = []) :
    ∃ events dropped, RoundAfter proc.pid s (s.announce ready rescan proc.pid proc) events dropped ∧
      Announced ((s.pa.pids.lookup proc.pid).isSome = true)
        (ready proc.pid = false ∧ Asked rescan s.pa proc) proc events dropped := by
  rw [announce, if_pos (isEmpty_iff.mpr hports), checkNewProcessNotification]
  by_cases hask : (rescan || !(s.pa.pids.lookup proc.pid).isSome) = true
  · rw [if_pos hask]
    obtain ⟨-, ⟨hrdy, hans, haft⟩ | ⟨hrdy, hans, haft⟩⟩ := @ask_first ready s proc.pid h
    · generalize s.ask ready proc.pid = r at hans haft
      obtain ⟨asked, answer⟩ := r
      cases hans
      simp only []
      split
      · next hyoung =>
        have hunknown : ¬ (s.pa.pids.lookup proc.pid).isSome = true := by
          rw [PollAccounter.processTooNew, haft.pa, Bool.and_eq_true] at hyoung
          rw [Bool.not_eq_true, isSome_eq_false_iff]
          exact hyoung.1
        refine ⟨[], [proc.pid], ?_, .dropped fun hkn => absurd hkn hunknown⟩
        refine ⟨haft.pa, haft.procs, haft.events, ?_, haft.reported⟩
        rw [haft.notReady]
        rfl
      · exact ⟨_, _, haft.created proc, .created⟩
    · generalize s.ask ready proc.pid = r at hans haft
      obtain ⟨asked, answer⟩ := r
      cases hans
      refine ⟨_, _, haft, .dropped fun hkn => ⟨hrdy, .inl ?_⟩⟩
      rwa [hkn, Bool.not_true, Bool.or_false] at hask
  · rw [if_neg hask]
    refine ⟨[], [], .refl _ s, .silent ?_⟩
    rw [Bool.or_eq_true, not_or, Bool.not_eq_true', Bool.not_eq_false] at hask
    exact hask.2

theorem announce_announced (h : proc.pid ∉ s.reportedProcs) :
    ∃ events dropped, RoundAfter proc.pid s (s.announce ready rescan proc.pid proc) events dropped ∧
      Announced ((s.pa.pids.lookup proc.pid).isSome = true)
        (ready proc.pid = false ∧ Asked rescan s.pa proc) proc events dropped := by
  by_cases hports : proc.openPorts = []
  · exact announce_portless h hports
  rw [announce, if_neg (mt List.isEmpty_iff.mp hports)]
  rcases @connections_first ready rescan s proc proc.openPorts h with
    ⟨hold, haft⟩ | ⟨⟨port, hport, hnew⟩, haft | ⟨hrdy, haft⟩⟩
  · obtain ⟨port, hport⟩ := exists_mem_of_ne_nil _ hports
    have hkn := hold port hport
    rw [newPort, Bool.or_eq_false_iff, Bool.not_eq_false'] at hkn
    exact ⟨_, _, haft, .silent hkn.2⟩
  · exact ⟨_, _, haft, .created⟩
  · refine ⟨_, _, haft, .dropped fun hkn => ⟨hrdy, ?_⟩⟩
    rw [newPort, hkn, Bool.not_true, Bool.or_false, Bool.or_eq_true] at hnew
    rcases hnew with hrescan | hport'
    · exact .inl hrescan
    · refine .inr ⟨port, hport, ?_⟩
      rwa [Bool.not_eq_true', isSome_eq_false_iff, isNone_iff_eq_none] at hport'

/-- Every process is filed under its own PID. -/
def Filed (t : Table PID ProcessAttrs) : Prop :=
  ∀ pid proc, t.lookup pid = some proc → proc.pid = pid

/-- A table in which at most the process of one PID is another. -/
def Refreshes (pid : PID) (t t' : Table PID ProcessAttrs) : Prop :=
  ∀ q, t'.lookup q = t.lookup q ∨ q = pid ∧ ∃ proc, t'.lookup q = some proc ∧ proc.pid = pid

theorem refreshes_refl (pid : PID) (t : Table PID ProcessAttrs) : Refreshes pid t t :=
  fun _ => .inl rfl

theorem refreshes_insert (h : Refreshes pid t t')
    (hproc : proc.pid = pid) : Refreshes pid t (t'.insert pid proc) := by
  intro q
  by_cases hq : q = pid
  · subst hq
    exact .inr ⟨rfl, proc, AList.lookup_insert t', hproc⟩
  · rw [AList.lookup_insert_ne hq]
    exact h q

theorem Refreshes.ite {t1 t2 : Table PID ProcessAttrs} {p : Prop} [Decidable p]
    (h₁ : Refreshes pid t t1) (h2 : Refreshes pid t t2) :
    Refreshes pid t (if p then t1 else t2) := by
  split
  · exact h₁
  · exact h2

/-- What a round does about the process the PID was before. -/
structure Retires (pid : PID) (proc : ProcessAttrs) (s : Snapshot) (r : Snapshot × ProcessAttrs) :
    Prop where
  pid_eq : r.2.pid = proc.pid
  openPorts : r.2.openPorts = proc.openPorts
  reported : r.1.reportedProcs = s.reportedProcs
  notReady : r.1.notReadyProcs = s.notReadyProcs
  procs : Refreshes pid s.currentProcs r.1.currentProcs
  cases : (r.1.pa = s.pa ∧ r.1.events = s.events ∧
        ∀ previous, s.pa.pids.lookup pid = some previous → replaced previous proc = false) ∨
      ∃ previous eventType, s.pa.pids.lookup pid = some previous ∧
        (eventType = .deleted ∨ eventType = .executableReplaced) ∧
        r.1.pa = { s.pa with pids := s.pa.pids.erase pid, fetchPorts := true } ∧
        r.1.events = s.events ++ [⟨eventType, previous⟩]

theorem retire_retires (hpid : proc.pid = pid) : Retires pid proc s (s.retire pid proc) := by
  rw [retire]
  cases hold : s.pa.pids.lookup pid with
  | none =>
    refine ⟨rfl, rfl, rfl, rfl, refreshes_refl _ _, .inl ⟨rfl, rfl, fun previous h => ?_⟩⟩
    rw [hold] at h
    cases h
  | some previous =>
    simp only []
    generalize hcur : (if proc.startTime = 0 then
      { proc with startTime := previous.startTime } else proc) = current
    have hsame : current.pid = proc.pid ∧ current.openPorts = proc.openPorts := by
      subst hcur
      split <;> exact ⟨rfl, rfl⟩
    have hprocs : Refreshes pid s.currentProcs
        (if proc.startTime = 0 then s.currentProcs.insert pid current else s.currentProcs) :=
      .ite (refreshes_insert (refreshes_refl _ _) (hsame.1.trans hpid)) (refreshes_refl _ _)
    by_cases hrepl : replaced previous proc = true
    · rw [if_pos hrepl]
      refine ⟨hsame.1, hsame.2, rfl, rfl, hprocs, .inr ⟨previous, _, hold, ?_, rfl, rfl⟩⟩
      split
      · exact .inr rfl
      · exact .inl rfl
    have hkept : ∀ p, s.pa.pids.lookup pid = some p → replaced p proc = false := by
      intro p hp
      rw [hold, some.injEq] at hp
      exact hp ▸ Bool.not_eq_true _ ▸ hrepl
    rw [if_neg hrepl]
    split
    · refine ⟨hsame.1, hsame.2, rfl, rfl, ?_, .inl ⟨rfl, rfl, hkept⟩⟩
      exact refreshes_insert hprocs (hsame.1.trans hpid)
    · exact ⟨hsame.1, hsame.2, rfl, rfl, hprocs, .inl ⟨rfl, rfl, hkept⟩⟩

/-! ## What is told of one PID -/

/-- What the events of a round say of their PID to a listener that has `o`. -/
structure Handles (pid : PID) (o : Finset PID) (known refused : Prop)
    (events : List LifecycleEvent) (dropped : List PID) : Prop where
  about : ∀ e ∈ events, e.2 = pid
  only : ∀ q ∈ dropped, q = pid
  closes : (known → pid ∈ o) → Along alive Closes o events
  present : (known → pid ∈ o) → dropped = [] → pid ∈ events.foldl alive o
  absent : (pid ∈ o → known) → ¬ refused → dropped ≠ [] → pid ∉ events.foldl alive o

variable {o : Finset PID} {known refused : Prop} {dropped : List PID}

theorem Announced.handles (hpid : proc.pid = pid)
    (h : Announced known refused proc events dropped) :
    Handles pid o known refused (lifecycle ProcessAttrs.pid events) dropped := by
  cases h with
  | silent hkn =>
    exact ⟨fun _ h => (nomatch h), fun _ h => (nomatch h), fun _ => trivial,
      fun ho _ => ho hkn, fun _ _ hne => absurd rfl hne⟩
  | created =>
    refine ⟨fun e he => ?_, fun _ h => (nomatch h), fun _ => ⟨trivial, trivial⟩, fun _ _ => ?_,
      fun _ _ hne => absurd rfl hne⟩
    · rw [mem_singleton.mp he]
      exact hpid
    · rw [← hpid]
      exact Finset.mem_insert_self _ _
  | dropped href =>
    refine ⟨fun _ h => (nomatch h), fun q hq => ?_, fun _ => trivial,
      fun _ hnil => (nomatch hnil), fun ho hnot _ hin => hnot (href (ho hin))⟩
    exact (mem_singleton.mp hq).trans hpid

theorem Handles.retired {events : List LifecycleEvent} {t : WatchEventType}
    (ht : t = .deleted ∨ t = .executableReplaced) (hkn : known)
    (h : Handles pid (o.erase pid) False False events dropped) :
    Handles pid o known refused ((t, pid) :: events) dropped := by
  have halive : alive o (t, pid) = o.erase pid := by rcases ht with rfl | rfl <;> rfl
  have hcls : pid ∈ o → Closes o (t, pid) := by rcases ht with rfl | rfl <;> exact fun ho => ho
  refine ⟨?_, h.only, ?_, ?_, ?_⟩
  · exact forall_mem_cons.mpr ⟨rfl, h.about⟩
  · intro ho
    refine ⟨hcls (ho hkn), ?_⟩
    rw [halive]
    exact h.closes False.elim
  · intro _ hnil
    rw [foldl_cons, halive]
    exact h.present False.elim hnil
  · intro _ _ hne
    rw [foldl_cons, halive]
    exact h.absent (fun hin => Finset.notMem_erase pid o hin) (fun hf => hf) hne

/-- A process the watcher has is found not ready. -/
def FoundNotReady (ready : PID → Bool) (forceRescan : Bool) (pa : PollAccounter) (pid : PID)
    (proc : ProcessAttrs) : Prop :=
  ∃ previous, pa.pids.lookup pid = some previous ∧ replaced previous proc = false ∧
    ready pid = false ∧ Asked (decide (pid ∈ pa.rescanPIDs) || forceRescan) pa proc

variable {forceRescan : Bool}

/-- What a round for a PID leaves as it was, and what it adds. -/
structure RoundEffect (pid : PID) (s s' : Snapshot) (events : List (Event ProcessAttrs))
    (dropped : List PID) : Prop where
  events : s'.events = s.events ++ events
  notReady : s'.notReadyProcs = dropped ++ s.notReadyProcs
  reported : ∀ q, q ≠ pid → (q ∈ s'.reportedProcs ↔ q ∈ s.reportedProcs)
  procs : Refreshes pid s.currentProcs s'.currentProcs
  pidPorts : s'.pa.pidPorts = s.pa.pidPorts
  rescanPIDs : s'.pa.rescanPIDs = s.pa.rescanPIDs
  pids : ∀ q, q ≠ pid → s'.pa.pids.lookup q = s.pa.pids.lookup q
  kept : ∀ q p, s'.pa.pids.lookup q = some p → s.pa.pids.lookup q = some p

/-- One round of the loop over the processes. -/
theorem snapshotProcess_handles (hpid : proc.pid = pid) (hnew : pid ∉ s.reportedProcs)
    (hfiled : ∀ previous, s.pa.pids.lookup pid = some previous → previous.pid = pid)
    (o : Finset PID) :
    ∃ events dropped,
      RoundEffect pid s (snapshotProcess ready forceRescan s ⟨pid, proc⟩) events dropped ∧
      Handles pid o ((s.pa.pids.lookup pid).isSome = true)
        (FoundNotReady ready forceRescan s.pa pid proc)
        (lifecycle ProcessAttrs.pid events) dropped := by
  have hr : Retires pid proc s (s.retire pid proc) := retire_retires hpid
  rw [snapshotProcess]
  generalize s.retire pid proc = r at hr
  obtain ⟨u, current⟩ := r
  have hcur : current.pid = pid := hr.pid_eq.trans hpid
  have hunasked : current.pid ∉ u.reportedProcs := by
    rw [hcur, hr.reported]
    exact hnew
  obtain ⟨events, dropped, haft, hann⟩ := @announce_announced ready
    (decide (pid ∈ s.pa.rescanPIDs) || forceRescan) u current hunasked
  rw [hcur] at haft hann
  have hrep : ∀ q, q ≠ pid → (q ∈ (u.announce ready
      (decide (pid ∈ s.pa.rescanPIDs) || forceRescan) pid current).reportedProcs ↔
        q ∈ s.reportedProcs) := by
    intro q hq
    rw [haft.reported q hq, show u.reportedProcs = s.reportedProcs from hr.reported]
  have hprocs := haft.procs ▸ hr.procs
  rcases hr.cases with ⟨hpa, hevs, hkept⟩ | ⟨previous, t, hold, ht, hpa, hevs⟩
  · refine ⟨events, dropped, ⟨by rw [haft.events, hevs], by rw [haft.notReady, hr.notReady],
      hrep, hprocs, by rw [haft.pa, hpa], by rw [haft.pa, hpa],
      fun q _ => by rw [haft.pa, hpa], fun q p hp => ?_⟩, (hann.imp ?_ ?_).handles hcur⟩
    · rwa [haft.pa, hpa] at hp
    · rw [hpa]
    · rintro hkn ⟨hrdy, hasked⟩
      rw [hpa] at hkn hasked
      obtain ⟨previous, hold⟩ := isSome_iff_exists.mp hkn
      refine ⟨previous, hold, hkept previous hold, hrdy, ?_⟩
      rw [Asked, hr.openPorts, hr.pid_eq] at hasked
      exact hasked
  · refine ⟨⟨t, previous⟩ :: events, dropped, ⟨?_, by rw [haft.notReady, hr.notReady],
      hrep, hprocs, by rw [haft.pa, hpa], by rw [haft.pa, hpa], fun q hq => ?_,
      fun q p hp => ?_⟩, ?_⟩
    · rw [haft.events, hevs, append_assoc]
      rfl
    · rw [haft.pa, hpa]
      exact AList.lookup_erase_ne hq
    · rw [haft.pa, hpa] at hp
      simp only [Table.get_erase] at hp
      split at hp
      · cases hp
      · exact hp
    · have hlife : lifecycle ProcessAttrs.pid (⟨t, previous⟩ :: events) =
          (t, pid) :: lifecycle ProcessAttrs.pid events := by
        rw [← hfiled previous hold]
        rfl
      have hgone : ¬ (u.pa.pids.lookup pid).isSome = true := by
        rw [hpa]
        simp
      rw [hlife]
      refine .retired ht (isSome_of_eq_some hold) ((hann.imp ?_ ?_).handles hcur)
      · exact iff_of_false hgone fun h => h
      · exact fun hkn => absurd hkn hgone

/-! ## A poll -/

/-- The state of a poll when the rounds of some PIDs are done, for a listener that had
`o` before it. -/
structure RoundsDone (ready : PID → Bool) (forceRescan : Bool) (pa : PollAccounter)
    (fetched : Table PID ProcessAttrs) (o : Finset PID) (done : List PID) (s : Snapshot) :
    Prop where
  pidPorts : s.pa.pidPorts = pa.pidPorts
  rescanPIDs : s.pa.rescanPIDs = pa.rescanPIDs
  closes : Along alive Closes o (lifecycle ProcessAttrs.pid s.events)
  about : ∀ e ∈ lifecycle ProcessAttrs.pid s.events, e.2 ∈ done
  kept : ∀ q p, s.pa.pids.lookup q = some p → pa.pids.lookup q = some p
  ahead : ∀ q, q ∉ done → s.pa.pids.lookup q = pa.pids.lookup q ∧ q ∉ s.reportedProcs
  notReady : ∀ q ∈ s.notReadyProcs, q ∈ done
  present : ∀ q ∈ done, q ∉ s.notReadyProcs →
    q ∈ (lifecycle ProcessAttrs.pid s.events).foldl alive o
  absent : ∀ q ∈ done, q ∈ s.notReadyProcs → (q ∈ o → (pa.pids.lookup q).isSome = true) →
    (∀ proc, fetched.lookup q = some proc → ¬ FoundNotReady ready forceRescan pa q proc) →
    q ∉ (lifecycle ProcessAttrs.pid s.events).foldl alive o
  procs : ∀ q, (s.currentProcs.lookup q).isSome = (fetched.lookup q).isSome
  filed : Filed s.currentProcs

variable {pa : PollAccounter} {fetched : Table PID ProcessAttrs} {done : List PID}

theorem roundsDone_init (hfetch : Filed fetched) :
    RoundsDone ready forceRescan pa fetched o [] ⟨pa, [], ∅, fetched, [], []⟩ where
  pidPorts := rfl
  rescanPIDs := rfl
  closes := trivial
  about := fun _ h => nomatch h
  kept := fun _ _ h => h
  ahead := fun _ _ => ⟨rfl, not_mem_nil⟩
  notReady := fun _ h => nomatch h
  present := fun _ h => nomatch h
  absent := fun _ h => nomatch h
  procs := fun _ => rfl
  filed := hfetch

/-- The rounds of other PIDs say nothing of a PID. -/
theorem RoundsDone.mem_ahead (h : RoundsDone ready forceRescan pa fetched o done s)
    (hpid : pid ∉ done) :
    pid ∈ (lifecycle ProcessAttrs.pid s.events).foldl alive o ↔ pid ∈ o := by
  refine mem_foldl_alive fun e he => ?_
  rintro rfl
  exact hpid (h.about e he)

theorem RoundsDone.refused_before (h : RoundsDone ready forceRescan pa fetched o done s)
    (hpid : pid ∉ done) (href : FoundNotReady ready forceRescan s.pa pid proc) :
    FoundNotReady ready forceRescan pa pid proc := by
  rw [FoundNotReady, Asked, (h.ahead pid hpid).1, h.rescanPIDs, h.pidPorts] at href
  exact href

theorem Refreshes.isSome_eq (h : Refreshes pid t t')
    (hpid : (t.lookup pid).isSome = true) (q : PID) :
    (t'.lookup q).isSome = (t.lookup q).isSome := by
  rcases h q with hq | ⟨rfl, proc, hproc, -⟩
  · rw [hq]
  · rw [hproc, hpid]
    rfl

theorem Refreshes.filed (h : Refreshes pid t t') (ht : Filed t) : Filed t' := by
  intro q p hp
  rcases h q with hq | ⟨rfl, proc, hproc, hfiled⟩
  · exact ht q p (hq ▸ hp)
  · rw [hproc, some.injEq] at hp
    exact hp ▸ hfiled

theorem Handles.mem_dropped {events : List LifecycleEvent}
    (h : Handles pid o known refused events dropped) : pid ∈ dropped ↔ dropped ≠ [] := by
  refine ⟨ne_nil_of_mem, fun hne => ?_⟩
  obtain ⟨q, hq⟩ := exists_mem_of_ne_nil _ hne
  exact h.only q hq ▸ hq

theorem roundsDone_step (h : RoundsDone ready forceRescan pa fetched o done s)
    (hkn : ∀ q, (pa.pids.lookup q).isSome = true → q ∈ o) (hfiled : Filed pa.pids)
    (hfetch : Filed fetched) (hproc : fetched.lookup pid = some proc) (hpid : pid ∉ done) :
    RoundsDone ready forceRescan pa fetched o (pid :: done)
      (snapshotProcess ready forceRescan s ⟨pid, proc⟩) := by
  obtain ⟨hsame, hunrep⟩ := h.ahead pid hpid
  obtain ⟨events, dropped, heff, hhand⟩ := @snapshotProcess_handles ready s pid proc forceRescan
    (hfetch pid proc hproc) hunrep (fun previous hold => hfiled pid previous (hsame ▸ hold))
    ((lifecycle ProcessAttrs.pid s.events).foldl alive o)
  have hbef : (s.pa.pids.lookup pid).isSome = true →
      pid ∈ (lifecycle ProcessAttrs.pid s.events).foldl alive o := by
    intro hold
    rw [h.mem_ahead hpid]
    exact hkn pid (hsame ▸ hold)
  have hlater : ∀ q, q ≠ pid → (q ∈ (lifecycle ProcessAttrs.pid
          (snapshotProcess ready forceRescan s ⟨pid, proc⟩).events).foldl alive o ↔
        q ∈ (lifecycle ProcessAttrs.pid s.events).foldl alive o) := by
    intro q hq
    rw [heff.events, lifecycle_append, foldl_append]
    exact mem_foldl_alive fun e he => hhand.about e he ▸ Ne.symm hq
  refine ⟨heff.pidPorts.trans h.pidPorts, heff.rescanPIDs.trans h.rescanPIDs, ?_, ?_, ?_, ?_,
    ?_, ?_, ?_, ?_, heff.procs.filed h.filed⟩
  · rw [heff.events, lifecycle_append]
    exact along_append.mpr ⟨h.closes, hhand.closes hbef⟩
  · intro e he
    rw [heff.events, lifecycle_append] at he
    rcases mem_append.mp he with he | he
    · exact mem_cons_of_mem _ (h.about e he)
    · exact hhand.about e he ▸ mem_cons_self
  · exact fun q p hp => h.kept q p (heff.kept q p hp)
  · intro q hq
    rw [mem_cons, not_or] at hq
    obtain ⟨hne, hq⟩ := hq
    obtain ⟨hlook, hrep⟩ := h.ahead q hq
    exact ⟨(heff.pids q hne).trans hlook, mt (heff.reported q hne).mp hrep⟩
  · intro q hq
    rw [heff.notReady] at hq
    rcases mem_append.mp hq with hq | hq
    · exact hhand.only q hq ▸ mem_cons_self
    · exact mem_cons_of_mem _ (h.notReady q hq)
  · intro q hq hrdy
    rw [heff.notReady, mem_append, not_or] at hrdy
    by_cases hne : q = pid
    · subst hne
      rw [heff.events, lifecycle_append, foldl_append]
      refine hhand.present hbef ?_
      by_contra hdrop
      exact hrdy.1 (hhand.mem_dropped.mpr hdrop)
    · rw [hlater q hne]
      exact h.present q ((mem_cons.mp hq).resolve_left hne) hrdy.2
  · intro q hq hrdy hopen hnot
    rw [heff.notReady, mem_append] at hrdy
    by_cases hne : q = pid
    · subst hne
      have hdrop := hrdy.resolve_right fun hin => hpid (h.notReady q hin)
      rw [heff.events, lifecycle_append, foldl_append]
      refine hhand.absent ?_ ?_ (hhand.mem_dropped.mp hdrop)
      · intro hin
        rw [h.mem_ahead hpid] at hin
        exact hsame ▸ hopen hin
      · exact fun href => hnot proc hproc (h.refused_before hpid href)
    · rw [hlater q hne]
      exact h.absent q ((mem_cons.mp hq).resolve_left hne)
        (hrdy.resolve_left fun hin => hne (hhand.only q hin)) hopen hnot
  · intro q
    rw [heff.procs.isSome_eq, h.procs]
    rw [h.procs, hproc]
    rfl

/-- The loop over the processes of a poll. -/
theorem roundsDone_foldl (hkn : ∀ q, (pa.pids.lookup q).isSome = true → q ∈ o)
    (hfiled : Filed pa.pids) (hfetch : Filed fetched) (l : List (Σ _ : PID, ProcessAttrs))
    (hl : ∀ e ∈ l, fetched.lookup e.1 = some e.2) (hnodup : l.NodupKeys)
    (hdone : ∀ e ∈ l, e.1 ∉ done) (h : RoundsDone ready forceRescan pa fetched o done s) :
    RoundsDone ready forceRescan pa fetched o (l.keys.reverse ++ done)
      (l.foldl (snapshotProcess ready forceRescan) s) := by
  induction l generalizing done s with
  | nil => exact h
  | cons e rest ih =>
    obtain ⟨hfst, hrest⟩ := nodupKeys_cons.mp hnodup
    have hstep := roundsDone_step h hkn hfiled hfetch (hl e mem_cons_self) (hdone e mem_cons_self)
    have hthen := ih (fun x hx => hl x (mem_cons_of_mem _ hx)) hrest ?_ hstep
    · rw [keys_cons, reverse_cons, append_assoc]
      exact hthen
    intro x hx hin
    rcases mem_cons.mp hin with heq | hin
    · exact hfst (heq ▸ mem_keys_of_mem hx)
    · exact hdone x (mem_cons_of_mem _ hx) hin

/-- The processes of a table that a poll did not see. -/
def unseen (fetched t : Table PID ProcessAttrs) : List PID :=
  t.keys.filter fun pid => (fetched.lookup pid).isNone

theorem unseen_nodup (fetched t : Table PID ProcessAttrs) : (unseen fetched t).Nodup :=
  t.keys_nodup.filter _

theorem lifecycle_removed (ht : Filed t) : lifecycle ProcessAttrs.pid (t.entries.filterMap fun e =>
        if (fetched.lookup e.1).isSome then none else some ⟨.deleted, e.2⟩) =
      (unseen fetched t).map fun pid => (.deleted, pid) := by
  have hents : ∀ e ∈ t.entries, e.2.pid = e.1 :=
    fun e he => ht e.1 e.2 (AList.mem_lookup_iff.mpr he)
  rw [unseen, AList.keys, keys]
  generalize t.entries = l at hents
  induction l with
  | nil => rfl
  | cons e rest ih =>
    have hrest := ih fun x hx => hents x (mem_cons_of_mem _ hx)
    rw [filterMap_cons, map_cons, filter_cons]
    cases hlook : fetched.lookup e.1 with
    | some proc => exact hrest
    | none =>
      simp only [isSome_none, Bool.false_eq_true, if_false]
      rw [lifecycle, map_cons, hents e mem_cons_self]
      exact congrArg _ hrest

theorem lookup_foldl_erase (pids : List PID) (t : Table PID ProcessAttrs) (q : PID) :
    (pids.foldl (fun t pid => t.erase pid) t).lookup q = if q ∈ pids then none else t.lookup q :=
  Table.lookup_foldl (g := fun _ => none) (fun t k j => Table.get_erase t k j)
    (fun _ => rfl) pids t q

/-! When the rounds of all processes of the poll are done. -/

theorem mem_fetched_keys : q ∈ fetched.keys.reverse ↔ (fetched.lookup q).isSome = true := by
  rw [mem_reverse, AList.lookup_isSome]
  exact Iff.rfl

theorem not_mem_fetched_keys (h : fetched.lookup q = none) : q ∉ fetched.keys.reverse := by
  rw [mem_fetched_keys, h]
  exact Bool.false_ne_true

section
variable (h : RoundsDone ready forceRescan pa fetched o fetched.keys.reverse s)
include h

theorem RoundsDone.mem_unseen :
    q ∈ unseen fetched s.pa.pids ↔ (pa.pids.lookup q).isSome = true ∧ fetched.lookup q = none := by
  rw [unseen, mem_filter, isNone_iff_eq_none, and_congr_left_iff]
  intro huns
  rw [← (h.ahead q (not_mem_fetched_keys huns)).1, AList.lookup_isSome]
  exact Iff.rfl

/-- What the loop over the processes that are gone tells. -/
theorem RoundsDone.removed (hkn : ∀ q, (pa.pids.lookup q).isSome = true → q ∈ o) :
    Along alive Closes ((lifecycle ProcessAttrs.pid s.events).foldl alive o)
        ((unseen fetched s.pa.pids).map fun pid => (.deleted, pid)) ∧
      ∀ q, q ∈ ((unseen fetched s.pa.pids).map fun pid =>
          ((.deleted, pid) : LifecycleEvent)).foldl alive
            ((lifecycle ProcessAttrs.pid s.events).foldl alive o) ↔
        q ∈ (lifecycle ProcessAttrs.pid s.events).foldl alive o ∧ q ∉ unseen fetched s.pa.pids := by
  refine foldl_alive_deleted (unseen_nodup _ _) fun q hq => ?_
  obtain ⟨hold, huns⟩ := h.mem_unseen.mp hq
  exact (h.mem_ahead (not_mem_fetched_keys huns)).mpr (hkn q hold)

/-- The end of a process that is gone is told once. -/
theorem RoundsDone.count_removed
    (hold : (pa.pids.lookup q).isSome = true) (huns : fetched.lookup q = none) :
    (lifecycle ProcessAttrs.pid s.events ++ (unseen fetched s.pa.pids).map fun pid =>
        ((.deleted, pid) : LifecycleEvent)).count (.deleted, q) = 1 := by
  have hinj : Function.Injective fun pid : PID => ((.deleted, pid) : LifecycleEvent) :=
    fun a b hab => (Prod.mk.inj hab).2
  have hloop : (lifecycle ProcessAttrs.pid s.events).count (.deleted, q) = 0 :=
    count_eq_zero.mpr fun hin => not_mem_fetched_keys huns (h.about _ hin)
  rw [count_append, hloop, count_map_of_injective _ _ hinj,
    count_eq_one_of_mem (unseen_nodup _ _) (h.mem_unseen.mpr ⟨hold, huns⟩)]

end

/-- What a poll does for a listener that had `o`. -/
structure Polls (ready : PID → Bool) (forceRescan : Bool) (pa : PollAccounter)
    (fetched : Table PID ProcessAttrs) (o : Finset PID)
    (r : PollAccounter × List (Event ProcessAttrs)) : Prop where
  closes : Along alive Closes o (lifecycle ProcessAttrs.pid r.2)
  filed : Filed r.1.pids
  known : ∀ q, (r.1.pids.lookup q).isSome = true →
    q ∈ (lifecycle ProcessAttrs.pid r.2).foldl alive o
  unknown : (∀ q ∈ o, (pa.pids.lookup q).isSome = true) →
    (∀ q proc, fetched.lookup q = some proc → ¬ FoundNotReady ready forceRescan pa q proc) →
    ∀ q ∈ (lifecycle ProcessAttrs.pid r.2).foldl alive o, (r.1.pids.lookup q).isSome = true
  deleted : ∀ q, (pa.pids.lookup q).isSome = true → fetched.lookup q = none →
    (lifecycle ProcessAttrs.pid r.2).count (.deleted, q) = 1

theorem snapshot_polls (hkn : ∀ q, (pa.pids.lookup q).isSome = true → q ∈ o)
    (hfiled : Filed pa.pids) (hfetch : Filed fetched) :
    Polls ready forceRescan pa fetched o (pa.snapshot fetched forceRescan ready) := by
  have hloop : RoundsDone ready forceRescan pa fetched o fetched.keys.reverse
      (fetched.entries.foldl (snapshotProcess ready forceRescan) ⟨pa, [], ∅, fetched, [], []⟩) :=
    append_nil fetched.keys.reverse ▸ roundsDone_foldl hkn hfiled hfetch fetched.entries
      (fun e he => AList.mem_lookup_iff.mpr he) fetched.nodupKeys (fun _ _ => not_mem_nil)
      (roundsDone_init hfetch)
  rw [PollAccounter.snapshot]
  generalize fetched.entries.foldl (snapshotProcess ready forceRescan)
    ⟨pa, [], ∅, fetched, [], []⟩ = s at hloop
  have hlife := lifecycle_append ProcessAttrs.pid s.events (s.pa.pids.entries.filterMap fun e =>
    if (fetched.lookup e.1).isSome then none else some ⟨.deleted, e.2⟩)
  rw [lifecycle_removed fun q p hp => hfiled q p (hloop.kept q p hp)] at hlife
  obtain ⟨hcls, hmem⟩ := hloop.removed hkn
  rw [← foldl_append, ← hlife] at hmem
  refine ⟨?_, ?_, ?_, ?_, ?_⟩
  · rw [hlife]
    exact along_append.mpr ⟨hloop.closes, hcls⟩
  · intro q p hp
    simp only [lookup_foldl_erase] at hp
    split at hp
    · cases hp
    · exact hloop.filed q p hp
  · intro q hq
    simp only [lookup_foldl_erase] at hq
    split at hq
    · cases hq
    · next hrdy =>
      rw [hloop.procs] at hq
      refine (hmem q).mpr ⟨hloop.present q (mem_fetched_keys.mpr hq) hrdy, fun hin => ?_⟩
      rw [(hloop.mem_unseen.mp hin).2] at hq
      cases hq
  · intro hopen hnot q hq
    obtain ⟨hq, hseen⟩ := (hmem q).mp hq
    have hfetch : (fetched.lookup q).isSome = true := by
      by_contra huns
      rw [not_isSome_iff_eq_none] at huns
      have hin := (hloop.mem_ahead (not_mem_fetched_keys huns)).mp hq
      exact hseen (hloop.mem_unseen.mpr ⟨hopen q hin, huns⟩)
    have hrdy : q ∉ s.notReadyProcs := fun hin =>
      hloop.absent q (mem_fetched_keys.mpr hfetch) hin (hopen q) (hnot q) hq
    simp only [lookup_foldl_erase]
    rw [if_neg hrdy, hloop.procs]
    exact hfetch
  · intro q hq huns
    rw [hlife]
    exact hloop.count_removed hq huns

/-! ## Runs -/

/-- The processes that were told of and not yet ended. -/
def openPIDs (w : Watcher) : Finset PID := (lifecycle ProcessAttrs.pid w.events).foldl alive ∅

/-- The poll tells of the end of processes only that are open. -/
def EndsOpen (w : Watcher) : WatcherEvent → Prop
  | .snapshot fetched forceRescan ready =>
    Along alive Closes (openPIDs w)
      (lifecycle ProcessAttrs.pid (w.pa.snapshot fetched forceRescan ready).2)
  | _ => True

/-- The poll tells once of the end of each open process it does not see. -/
def EndsGone (w : Watcher) : WatcherEvent → Prop
  | .snapshot fetched forceRescan ready =>
    ∀ pid ∈ openPIDs w, fetched.lookup pid = none →
      (lifecycle ProcessAttrs.pid (w.pa.snapshot fetched forceRescan ready).2).count
        (.deleted, pid) = 1
  | _ => True

/-- The poll files each process under its own PID. -/
def PollsFiled : WatcherEvent → Prop
  | .snapshot fetched _ _ => Filed fetched
  | _ => True

/-- The poll finds ready each process the watcher has and asks for again. -/
def KeepsReady (w : Watcher) : WatcherEvent → Prop
  | .snapshot fetched forceRescan ready =>
    ∀ pid proc, fetched.lookup pid = some proc → ¬ FoundNotReady ready forceRescan w.pa pid proc
  | _ => True

structure WatcherInv (w : Watcher) : Prop where
  filed : Filed w.pa.pids
  known : ∀ q, (w.pa.pids.lookup q).isSome = true → q ∈ openPIDs w

theorem watcherInv_init (minProcessAge : Int) : WatcherInv (.init minProcessAge) :=
  ⟨fun _ _ h => (nomatch h), fun _ h => (nomatch h)⟩

variable {w : Watcher}

theorem openPIDs_snapshot (w : Watcher) (fetched : Table PID ProcessAttrs) (forceRescan : Bool)
    (ready : PID → Bool) :
    openPIDs (w.step (.snapshot fetched forceRescan ready)) =
      (lifecycle ProcessAttrs.pid (w.pa.snapshot fetched forceRescan ready).2).foldl alive
        (openPIDs w) := by
  rw [openPIDs, Watcher.step]
  rw [lifecycle_append, foldl_append]
  rfl

theorem watcherInv_step (h : WatcherInv w) (e : WatcherEvent) (hfiled : PollsFiled e) :
    WatcherInv (w.step e) ∧ EndsOpen w e := by
  cases e with
  | forgetPIDs pids | forgetAll => exact ⟨⟨h.filed, h.known⟩, trivial⟩
  | snapshot fetched forceRescan ready =>
    have hpolls : Polls ready forceRescan w.pa fetched (openPIDs w)
        (w.pa.snapshot fetched forceRescan ready) := snapshot_polls h.known h.filed hfiled
    refine ⟨⟨hpolls.filed, fun q hq => ?_⟩, hpolls.closes⟩
    rw [openPIDs_snapshot]
    exact hpolls.known q hq

theorem allKnown_step (h : WatcherInv w) (e : WatcherEvent) (hfiled : PollsFiled e)
    (hrdy : KeepsReady w e) (hopen : ∀ q ∈ openPIDs w, (w.pa.pids.lookup q).isSome = true) :
    (∀ q ∈ openPIDs (w.step e), ((w.step e).pa.pids.lookup q).isSome = true) ∧ EndsGone w e := by
  cases e with
  | forgetPIDs pids | forgetAll => exact ⟨hopen, trivial⟩
  | snapshot fetched forceRescan ready =>
    have hpolls : Polls ready forceRescan w.pa fetched (openPIDs w)
        (w.pa.snapshot fetched forceRescan ready) := snapshot_polls h.known h.filed hfiled
    refine ⟨fun q hq => ?_, fun pid hpid => hpolls.deleted pid (hopen pid hpid)⟩
    rw [openPIDs_snapshot] at hq
    exact hpolls.unknown hopen hrdy q hq

/-- Only open processes are ended. If the processes the watcher has are found ready, the
end of each open one is told once when it is gone. -/
theorem ends_of_processes (minProcessAge : Int) (events : List WatcherEvent)
    (hfiled : ∀ e ∈ events, PollsFiled e) :
    Along Watcher.step EndsOpen (.init minProcessAge) events ∧
      (Along Watcher.step KeepsReady (.init minProcessAge) events →
        Along Watcher.step EndsGone (.init minProcessAge) events) := by
  constructor
  · exact (along_of_forall hfiled (Watcher.init minProcessAge)).imp_of_inv (P := WatcherInv)
      (fun w e hw he => watcherInv_step hw e he) (watcherInv_init minProcessAge)
  · intro hrdy
    have hall := hrdy.and_forall hfiled
    refine hall.imp_of_inv (P := fun w : Watcher => WatcherInv w ∧
      ∀ q ∈ openPIDs w, (w.pa.pids.lookup q).isSome = true) ?_
      ⟨watcherInv_init minProcessAge, fun q hq => (nomatch hq)⟩
    intro w e ⟨hw, hopen⟩ ⟨hkp, hpolls⟩
    obtain ⟨hall, hgone⟩ := allKnown_step hw e hpolls hkp hopen
    exact ⟨⟨(watcherInv_step hw e hpolls).1, hall⟩, hgone⟩

/-- A process without ports. -/
def portlessProcess : ProcessAttrs := ⟨7, 1, ⟨1, 1⟩, [], none, ∅, ∅, 0, 0, ""⟩

/-- A poll that sees this process only. -/
def sees (ready : Bool) : WatcherEvent :=
  .snapshot ((∅ : Table PID ProcessAttrs).insert 7 portlessProcess) false fun _ => ready

/-- A poll that sees no process. -/
def seesNone : WatcherEvent := .snapshot ∅ false fun _ => true

def afterPolls (events : List WatcherEvent) : Watcher := events.foldl Watcher.step (.init 0)

theorem ends_of_processes_seen :
    (lifecycle ProcessAttrs.pid ((afterPolls [sees true]).pa.snapshot ∅ false
      fun _ => true).2).count (.deleted, 7) = 1 := by
  refine ((ends_of_processes 0 [sees true, seesNone] ?_).2 ?_).2.1 7 (by decide +kernel) rfl
  · simp only [forall_mem_cons]
    refine ⟨fun pid proc hproc => ?_, fun _ _ hproc => (nomatch hproc), fun _ h => (nomatch h)⟩
    rw [Table.get_insert] at hproc
    split at hproc
    · next hpid => exact some.inj hproc ▸ hpid.symm
    · cases hproc
  · refine ⟨fun pid proc _ href => ?_, fun _ _ hproc => (nomatch hproc), trivial⟩
    obtain ⟨previous, hold, -⟩ := href
    cases hold

/-- A process that was told of is told of again on request, and is not ready then: its
end is not told. -/
theorem end_not_told : 7 ∈ openPIDs (afterPolls [sees true, .forgetPIDs [7], sees false]) ∧
      (lifecycle ProcessAttrs.pid ((afterPolls [sees true, .forgetPIDs [7],
        sees false]).pa.snapshot ∅ false fun _ => true).2).count (.deleted, 7) = 0 := by
  decide +kernel

end
end Obi.Refine
