import Obi.Ref.Network

/-!
# Late deletions drop live interfaces

The registerer compares names before it deletes. The manager does not, and it keeps what it had
when an index goes to a name the filter does not allow.
-/

namespace Obi.Refine.InterfaceManager
open Lib Ref.InterfaceManager State List
variable (isAllowed : String → Bool)

/-- The manager has the allowed ones of the registered interfaces, and no callback was called
for an interface whose index had another one. -/
structure Agrees (s : State) : Prop where
  maps : ∀ i n, s.interfaces.lookup i = some n ↔ s.ifaces.lookup i = some n ∧ isAllowed n = true
  calls : ∀ c ∈ s.removedCalls, ∀ n, c.registered = some n → n = c.name

/-- The index of a name that is not allowed had no allowed one, and what is deleted is what is
registered. -/
def InOrder (s : State) : IfaceEvent → Prop
  | .added i n => isAllowed n = false → ∀ old, s.ifaces.lookup i = some old → isAllowed old = false
  | .deleted i n => ∀ old, s.ifaces.lookup i = some old → old = n

theorem agrees_step (s : State) (e : IfaceEvent) (h : Agrees isAllowed s) :
    Agrees isAllowed (s.step isAllowed e) ↔ InOrder isAllowed s e := by
  cases e with
  | added i n =>
    refine ⟨fun hnext hn old hold => ?_, fun hok => ⟨fun j m => ?_, h.calls⟩⟩
    · by_contra hallowed
      have hhas := (h.maps i old).mpr ⟨hold, by simpa using hallowed⟩
      have hboth := (hnext.maps i old).mp (by simpa [step, hn] using hhas)
      simp only [step, Table.get_insert, if_true, Option.some.injEq] at hboth
      rw [← hboth.1, hn] at hboth
      cases hboth.2
    · have hj := h.maps j m
      simp only [step, Table.get_insert]
      by_cases hji : j = i
      · subst hji
        cases hn : isAllowed n with
        | true => simp +contextual [iff_def, ← hn]
        | false =>
          have hnone : s.interfaces.lookup j ≠ some m := fun hm =>
            absurd (hj.mp hm).2 (by simp [hok hn m (hj.mp hm).1])
          simp only [Bool.false_eq_true, if_false, hnone, if_true, Option.some.injEq, false_iff]
          rintro ⟨rfl, hm⟩
          simp [hn] at hm
      · split <;> simp [hji, hj]
  | deleted i n =>
    refine ⟨fun hnext old hold => ?_, fun hok => ⟨fun j m => ?_, fun c hc => ?_⟩⟩
    · exact hnext.calls ⟨n, s.ifaces.lookup i⟩ (by simp [step]) old hold
    · by_cases hji : j = i
      · subst hji
        simp only [step, Table.get_erase, if_true, reduceCtorEq, false_iff, not_and]
        intro hm
        split at hm
        · simp at hm
        · next hreg => exact absurd (hok m hm ▸ hm) hreg
      · simp only [step, Table.get_erase, hji, if_false, h.maps]
        split <;> simp [hji]
    · rcases mem_append.mp hc with hc | hc
      · exact h.calls c hc
      · cases mem_singleton.mp hc
        exact hok

/-- The views agree throughout a run exactly if its events are in order. -/
theorem views_agree_iff (events : List IfaceEvent) :
    (∀ before, before <+: events →
      Agrees isAllowed (before.foldl (step isAllowed) ⟨∅, ∅, []⟩)) ↔
    Along (step isAllowed) (InOrder isAllowed) ⟨∅, ∅, []⟩ events := by
  have hstart : Agrees isAllowed ⟨∅, ∅, []⟩ := ⟨fun i n => by simp, by simp⟩
  exact (along_iff (Q := fun _ => True) (fun _ _ _ => trivial)
    (fun s e _ => agrees_step isAllowed s e) trivial hstart events).symm

/-- In any order of events the registerer has, under an index, the name that was added last,
unless that very name was deleted since. -/
theorem registerer_since (events : List IfaceEvent) (i : Nat) (n : String) :
    (events.foldl (step isAllowed) ⟨∅, ∅, []⟩).ifaces.lookup i = some n ↔
      Since (· = .added i n) (fun e => e = .deleted i n ∨ ∃ m, e = .added i m) events := by
  induction events using reverseRecOn with
  | nil => simp [since_nil]
  | append_singleton events e ih =>
    rw [foldl_append, since_concat, ← ih]
    generalize events.foldl (step isAllowed) _ = s
    cases e with
    | added j m =>
      rcases eq_or_ne i j with rfl | hj
      · simp [step]
      · simp [step, hj, hj.symm]
    | deleted j m =>
      simp only [foldl_cons, foldl_nil, step]
      rcases eq_or_ne i j with rfl | hj
      · split
        · next hm => simp [hm]
        · next hm => simpa using fun h (hmn : m = n) => hm (hmn ▸ h)
      · split <;> simp [hj, hj.symm]

/-- The deletion of the old interface comes after the addition of the new one. -/
theorem late_deletion_drops :
    let s := [IfaceEvent.added 7 "veth1", .added 7 "eth1", .deleted 7 "veth1"].foldl
      (step fun _ => true) ⟨∅, ∅, []⟩
    s.ifaces.lookup 7 = some "eth1" ∧ s.interfaces.lookup 7 = none ∧ s.removedCalls.length = 1 := by
  decide

end Obi.Refine.InterfaceManager
