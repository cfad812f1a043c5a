import Obi.Ref.Discover

/-!
# What events tell of processes

A listener keeps the processes it was told of: created ones until they are deleted
or their executable is replaced. An event fits what was told before if it creates a
process that is not there, or is about one that is.
-/

namespace Obi.Spec
open Lib Ref List

/-- An event without what it says of the process. -/
abbrev LifecycleEvent := WatchEventType × PID

/-- What events tell, where each names its process. -/
def lifecycle {α : Type} (pidOf : α → PID) (events : List (Event α)) : List LifecycleEvent :=
  events.map fun e => (e.type, pidOf e.obj)

/-- The processes a listener has after an event. -/
def alive (s : Finset PID) (e : LifecycleEvent) : Finset PID := match e.1 with
  | .created => insert e.2 s
  | .deleted | .executableReplaced => s.erase e.2
  | .instanceDeleted | .updated => s

def Fits (s : Finset PID) (e : LifecycleEvent) : Prop := match e.1 with
  | .created => e.2 ∉ s
  | .deleted | .executableReplaced | .updated => e.2 ∈ s
  | .instanceDeleted => False

instance (s : Finset PID) (e : LifecycleEvent) : Decidable (Fits s e) := by
  unfold Fits
  split <;> infer_instance

/-- An event ends only what is there. -/
def Closes (s : Finset PID) (e : LifecycleEvent) : Prop := match e.1 with
  | .deleted | .executableReplaced => e.2 ∈ s
  | .created | .instanceDeleted | .updated => True

instance (s : Finset PID) (e : LifecycleEvent) : Decidable (Closes s e) := by
  unfold Closes
  split <;> infer_instance

theorem lifecycle_append {α : Type} (pidOf : α → PID) (a b : List (Event α)) :
    lifecycle pidOf (a ++ b) = lifecycle pidOf a ++ lifecycle pidOf b := map_append

variable {s : Finset PID} {pids : List PID} {q : PID}

theorem mem_alive_of_ne {e : LifecycleEvent} (h : e.2 ≠ q) : q ∈ alive s e ↔ q ∈ s := by
  obtain ⟨t, pid⟩ := e
  cases t with
  | created => exact Finset.mem_insert.trans (or_iff_right (Ne.symm h))
  | deleted | executableReplaced => exact Finset.mem_erase.trans (and_iff_right (Ne.symm h))
  | instanceDeleted | updated => exact Iff.rfl

/-- Events about other processes. -/
theorem mem_foldl_alive {events : List LifecycleEvent}
    (h : ∀ e ∈ events, e.2 ≠ q) : q ∈ events.foldl alive s ↔ q ∈ s := by
  induction events generalizing s with
  | nil => exact Iff.rfl
  | cons e rest ih =>
    exact (ih fun x hx => h x (mem_cons_of_mem _ hx)).trans (mem_alive_of_ne (h e mem_cons_self))

/-- The end of each of some processes. -/
theorem foldl_alive_deleted (hnodup : pids.Nodup) (h : ∀ pid ∈ pids, pid ∈ s) :
    Along alive Closes s (pids.map fun pid => (.deleted, pid)) ∧
      ∀ q, q ∈ (pids.map fun pid => ((.deleted, pid) : LifecycleEvent)).foldl alive s ↔
        q ∈ s ∧ q ∉ pids := by
  induction pids generalizing s with
  | nil => exact ⟨trivial, fun q => ⟨fun hq => ⟨hq, not_mem_nil⟩, fun hq => hq.1⟩⟩
  | cons pid rest ih =>
    obtain ⟨hpid, hrest⟩ := nodup_cons.mp hnodup
    have hs : ∀ q ∈ rest, q ∈ s.erase pid := by
      intro q hq
      refine Finset.mem_erase.mpr ⟨?_, h q (mem_cons_of_mem _ hq)⟩
      rintro rfl
      exact hpid hq
    obtain ⟨hcls, hmem⟩ := ih hrest hs
    refine ⟨⟨h pid mem_cons_self, hcls⟩, fun q => (hmem q).trans ?_⟩
    rw [Finset.mem_erase, mem_cons]
    tauto

/-- Every event fits, and together they lead from `s` to `t`. -/
structure Leads (s : Finset PID) (events : List LifecycleEvent) (t : Finset PID) : Prop where
  fits : Along alive Fits s events
  leads : events.foldl alive s = t

namespace Leads

variable {s t u : Finset PID} {a b : List LifecycleEvent} {pid : PID}

theorem nil (s : Finset PID) : Leads s [] s := ⟨trivial, rfl⟩

theorem append (h : Leads s a t) (h' : Leads t b u) : Leads s (a ++ b) u := by
  obtain ⟨hfits, rfl⟩ := h
  exact ⟨along_append.mpr ⟨hfits, h'.fits⟩, by rw [foldl_append, h'.leads]⟩

theorem created (hpid : pid ∉ s) : Leads s [(.created, pid)] (insert pid s) :=
  ⟨⟨hpid, trivial⟩, rfl⟩

theorem deleted (hpid : pid ∈ s) : Leads s [(.deleted, pid)] (s.erase pid) := ⟨⟨hpid, trivial⟩, rfl⟩

theorem updated (hpid : pid ∈ s) : Leads s [(.updated, pid)] s := ⟨⟨hpid, trivial⟩, rfl⟩

/-- Some of the processes that are there are told again, the others end. -/
theorem review {kept : PID → Prop} [DecidablePred kept] {f : PID → List LifecycleEvent}
    (hnodup : pids.Nodup) (hs : ∀ pid ∈ pids, pid ∈ s)
    (hkept : ∀ pid ∈ pids, kept pid → f pid = [] ∨ f pid = [(.updated, pid)])
    (hgone : ∀ pid ∈ pids, ¬ kept pid → f pid = [(.deleted, pid)]) :
    Leads s (pids.flatMap f) (s.filter fun pid => pid ∈ pids → kept pid) := by
  induction pids generalizing s with
  | nil =>
    have hall : (s.filter fun pid => pid ∈ [] → kept pid) = s :=
      Finset.filter_true_of_mem fun pid _ hin => absurd hin not_mem_nil
    rw [hall]
    exact .nil s
  | cons pid rest ih =>
    obtain ⟨hnew, hrest⟩ := nodup_cons.mp hnodup
    have hin : pid ∈ s := hs pid mem_cons_self
    have hne : ∀ q ∈ rest, q ≠ pid := fun q hq heq => hnew (heq ▸ hq)
    by_cases hk : kept pid
    · have hfst : Leads s (f pid) s := by
        rcases hkept pid mem_cons_self hk with heq | heq
        · rw [heq]
          exact .nil s
        · rw [heq]
          exact .updated hin
      have hlater := ih hrest (fun q hq => hs q (mem_cons_of_mem _ hq))
        (fun q hq => hkept q (mem_cons_of_mem _ hq))
        fun q hq => hgone q (mem_cons_of_mem _ hq)
      have hset : (s.filter fun q => q ∈ rest → kept q) =
          s.filter fun q => q ∈ pid :: rest → kept q := by
        refine Finset.filter_congr fun q _ => ?_
        rw [mem_cons]
        constructor
        · rintro h (rfl | hq)
          · exact hk
          · exact h hq
        · exact fun h hq => h (.inr hq)
      rw [← hset]
      exact hfst.append hlater
    · have hfst : Leads s (f pid) (s.erase pid) := by
        rw [hgone pid mem_cons_self hk]
        exact .deleted hin
      have hlater := ih hrest
        (fun q hq => Finset.mem_erase.mpr ⟨hne q hq, hs q (mem_cons_of_mem _ hq)⟩)
        (fun q hq => hkept q (mem_cons_of_mem _ hq))
        fun q hq => hgone q (mem_cons_of_mem _ hq)
      have hset : ((s.erase pid).filter fun q => q ∈ rest → kept q) =
          s.filter fun q => q ∈ pid :: rest → kept q := by
        ext q
        rw [Finset.mem_filter, Finset.mem_filter, Finset.mem_erase, mem_cons]
        constructor
        · rintro ⟨⟨hq, hqs⟩, h⟩
          exact ⟨hqs, fun hmem => h (hmem.resolve_left hq)⟩
        · rintro ⟨hqs, h⟩
          refine ⟨⟨?_, hqs⟩, fun hq => h (.inr hq)⟩
          rintro rfl
          exact hk (h (.inl rfl))
      rw [← hset]
      exact hfst.append hlater

theorem createAll (hnodup : pids.Nodup) (hs : ∀ pid ∈ pids, pid ∉ s) :
    Leads s (pids.map fun pid => (.created, pid)) (s ∪ pids.toFinset) := by
  induction pids generalizing s with
  | nil =>
    rw [toFinset_nil, Finset.union_empty]
    exact .nil s
  | cons pid rest ih =>
    obtain ⟨hnew, hrest⟩ := nodup_cons.mp hnodup
    have hlater := ih hrest fun q hq hin => by
      rcases Finset.mem_insert.mp hin with rfl | hin
      · exact hnew hq
      · exact hs q (mem_cons_of_mem _ hq) hin
    have hset : insert pid s ∪ rest.toFinset = s ∪ (pid :: rest).toFinset := by
      rw [toFinset_cons, Finset.insert_union, Finset.union_insert]
    rw [← hset]
    exact Leads.append (.created (hs pid mem_cons_self)) hlater

end Leads
end Obi.Spec
