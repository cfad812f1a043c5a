import Mathlib.Data.UInt

/-!
# A set told by its edges

A listener that hears only when something enters or leaves a set can rebuild
it. An edge that does not fit, an arrival of what is there or a departure of
what is not, makes the replay fail.

If arrivals and departures come on two channels, the listener may hear of them in
another order than they happened in. Numbered edges keep the order: what is still
to be heard of one element is a set of numbers on each channel.
-/

namespace Obi.Lib

variable {α : Type _} [DecidableEq α]

inductive Edge (α : Type _)
  | added (a : α)
  | removed (a : α)
deriving DecidableEq, Repr

variable (s : Finset α)

def Edge.apply : Edge α → Option (Finset α)
  | .added a => if a ∈ s then none else some (insert a s)
  | .removed a => if a ∈ s then some (s.erase a) else none

def replay (edges : List (Edge α)) : Option (Finset α) := edges.foldlM Edge.apply s

/-- Every edge fits, and together they lead from `s` to `t`. -/
def Replays (edges : List (Edge α)) (t : Finset α) : Prop := replay s edges = some t

theorem Replays.nil : Replays s [] s := rfl

theorem Replays.append {s t u : Finset α} {a b : List (Edge α)} (h : Replays s a t)
    (h' : Replays t b u) : Replays s (a ++ b) u := by
  rw [Replays, replay] at h h'
  rw [Replays, replay, List.foldlM_append, h]
  exact h'

theorem Replays.added {s t : Finset α} {a : α} (ha : a ∉ s)
    (ht : ∀ x, x ∈ t ↔ x = a ∨ x ∈ s) : Replays s [.added a] t := by
  have heq : insert a s = t := by
    ext x
    rw [Finset.mem_insert, ht]
  rw [Replays, replay, List.foldlM_cons, Edge.apply, if_neg ha, heq]
  rfl

theorem Replays.removed {s t : Finset α} {a : α} (ha : a ∈ s)
    (ht : ∀ x, x ∈ t ↔ x ≠ a ∧ x ∈ s) : Replays s [.removed a] t := by
  have heq : s.erase a = t := by
    ext x
    rw [Finset.mem_erase, ht]
  rw [Replays, replay, List.foldlM_cons, Edge.apply, if_pos ha, heq]
  rfl

variable {l : List α}

/-- Several members leave, each once. -/
theorem Replays.removed_all {s t : Finset α} (hl : l.Nodup)
    (hmem : ∀ x ∈ l, x ∈ s) (ht : ∀ x, x ∈ t ↔ x ∉ l ∧ x ∈ s) :
    Replays s (l.map .removed) t := by
  induction l generalizing s with
  | nil =>
    have heq : s = t := by
      ext x
      rw [ht]
      exact ⟨fun hx => ⟨List.not_mem_nil, hx⟩, fun hx => hx.2⟩
    rw [heq]
    exact .nil t
  | cons a rest ih =>
    obtain ⟨hnot, hrest⟩ := List.nodup_cons.mp hl
    have hfst : Replays s [.removed a] (s.erase a) :=
      .removed (hmem a List.mem_cons_self) fun x => Finset.mem_erase
    refine hfst.append (ih hrest ?_ ?_)
    · intro x hx
      refine Finset.mem_erase.mpr ⟨?_, hmem x (List.mem_cons_of_mem _ hx)⟩
      rintro rfl
      exact hnot hx
    · intro x
      rw [ht, Finset.mem_erase, List.mem_cons]
      tauto

theorem Replays.split {s u : Finset α} {a b : List (Edge α)} (h : Replays s (a ++ b) u) :
    ∃ t, Replays s a t ∧ Replays t b u := by
  rw [Replays, replay, List.foldlM_append] at h
  cases ha : a.foldlM Edge.apply s with
  | none =>
    rw [ha] at h
    cases h
  | some t =>
    rw [ha] at h
    exact ⟨t, ha, h⟩

theorem Replays.mem_added {s t : Finset α} (h : Replays s (l.map .added) t) (x : α) :
    x ∈ t ↔ x ∈ l ∨ x ∈ s := by
  induction l generalizing s with
  | nil =>
    cases h
    exact ⟨.inr, fun hx => hx.resolve_left List.not_mem_nil⟩
  | cons a rest ih =>
    obtain ⟨mid, hfst, hrest⟩ := h.split (a := [.added a])
    rw [Replays, replay, List.foldlM_cons, Edge.apply] at hfst
    split at hfst
    · cases hfst
    · cases hfst
      rw [ih hrest, Finset.mem_insert, List.mem_cons, ← or_assoc, or_comm (a := x ∈ rest)]

theorem Replays.mem_removed {s t : Finset α} (h : Replays s (l.map .removed) t)
    (x : α) : x ∈ t ↔ x ∉ l ∧ x ∈ s := by
  induction l generalizing s with
  | nil =>
    cases h
    exact ⟨fun hx => ⟨List.not_mem_nil, hx⟩, fun hx => hx.2⟩
  | cons a rest ih =>
    obtain ⟨mid, hfst, hrest⟩ := h.split (a := [.removed a])
    rw [Replays, replay, List.foldlM_cons, Edge.apply] at hfst
    split at hfst
    · cases hfst
      rw [ih hrest, Finset.mem_erase, List.mem_cons]
      tauto
    · cases hfst

/-! ## Two channels -/

/-- The edges of one element that wait on the two channels, what the listener has of
it so far, and what is true of it: the newest waiting edge tells the truth, and once
none waits the listener has it. -/
structure EdgesTell (arrivals departures : Nat → Prop) (heard present : Prop) : Prop where
  arrival : ∀ a, arrivals a → (∀ d, departures d → d < a) → present
  departure : ∀ d, departures d → (∀ a, arrivals a → a < d) → ¬ present
  settled : (∀ a, ¬ arrivals a) → (∀ d, ¬ departures d) → (heard ↔ present)

namespace EdgesTell

variable {A D A' D' : Nat → Prop} {heard heard' present present' : Prop} {n : Nat}

theorem congr (h : EdgesTell A D heard present) (hA : ∀ a, A a ↔ A' a) (hD : ∀ d, D d ↔ D' d)
    (hheard : heard ↔ heard') (hpres : present ↔ present') :
    EdgesTell A' D' heard' present' := by
  obtain rfl : A = A' := funext fun a => propext (hA a)
  obtain rfl : D = D' := funext fun d => propext (hD d)
  obtain rfl : heard = heard' := propext hheard
  obtain rfl : present = present' := propext hpres
  exact h

/-- A new edge is newer than all that wait. -/
theorem tell_arrival (hD : ∀ d, D d → d ≤ n) (hpres : present) :
    EdgesTell (fun a => A a ∨ a = n + 1) D heard present where
  arrival _ _ _ := hpres
  departure d hd hnew := by
    have hlt := hnew (n + 1) (.inr rfl)
    have hle := hD d hd
    omega
  settled hnone _ := absurd (.inr rfl) (hnone (n + 1))

theorem tell_departure (hA : ∀ a, A a → a ≤ n) (hpres : ¬ present) :
    EdgesTell A (fun d => D d ∨ d = n + 1) heard present where
  arrival a ha hnew := by
    have hlt := hnew (n + 1) (.inr rfl)
    have hle := hA a ha
    omega
  departure _ _ _ := hpres
  settled _ hnone := absurd (.inr rfl) (hnone (n + 1))

/-- An arrival is heard of that is older than every waiting departure. -/
theorem hear_arrival (h : EdgesTell (fun a => A a ∨ a = n) D heard present)
    (holder : ∀ d, D d → n < d) : EdgesTell A D True present where
  arrival a ha hnew := h.arrival a (.inl ha) hnew
  departure d hd hnew := by
    refine h.departure d hd ?_
    rintro a (ha | rfl)
    · exact hnew a ha
    · exact holder d hd
  settled _ hnone := iff_of_true trivial (h.arrival n (.inr rfl) fun d hd => absurd hd (hnone d))

/-- A departure is heard of that is older than every waiting arrival. -/
theorem hear_departure (h : EdgesTell A (fun d => D d ∨ d = n) heard present)
    (holder : ∀ a, A a → n < a) : EdgesTell A D False present where
  arrival a ha hnew := by
    refine h.arrival a ha ?_
    rintro d (hd | rfl)
    · exact hnew d hd
    · exact holder a ha
  departure d hd hnew := h.departure d (.inl hd) hnew
  settled hnone _ := iff_of_false id (h.departure n (.inr rfl) fun a ha => absurd ha (hnone a))

end EdgesTell
end Obi.Lib
