import Mathlib.Data.UInt

/-!
# Machines that halt

A machine reads one input at each step and either halts or moves to its next
state. `visited` lists the states it executes, each with the input it read
there, under a limit on how many: a machine that has not halted when the limit
is reached is cut off, and the rules below say when that cannot happen.

The rules a proof about a machine uses are induction over what one step
preserves (`visited_forall`) and a rank that every step lowers
(`length_visited_le`, `exists_halt`). The last section is about a value read
off the states: where it came from, and the values it takes along a run, one
after the other.
-/

namespace Obi.Lib

variable {ι σ : Type _}

/-- The states executed from `s` on, at most `limit` of them, with the inputs
read there; `k` inputs were read before. -/
def visited (step : ι → σ → Option σ) (input : Nat → ι) : (limit k : Nat) → σ → List (ι × σ)
  | 0, _, _ => []
  | limit + 1, k, s =>
    (input k, s) :: match step (input k) s with
      | none => []
      | some s' => visited step input limit (k + 1) s'

variable {step : ι → σ → Option σ} {input : Nat → ι} {P : σ → Prop} {rank : σ → Nat}

theorem mem_visited_succ {limit k : Nat} {s : σ} {v : ι × σ} :
    v ∈ visited step input (limit + 1) k s ↔ v = (input k, s) ∨
        ∃ s', step (input k) s = some s' ∧ v ∈ visited step input limit (k + 1) s' := by
  rw [visited]
  cases step (input k) s <;> simp

/-- What holds at the start and is kept by every step holds wherever the
machine executes, on one of its inputs. -/
theorem visited_forall
    (hstep : ∀ j s s', P s → step (input j) s = some s' → P s') (limit k : Nat) {s : σ}
    (hs : P s) : ∀ v ∈ visited step input limit k s, P v.2 ∧ ∃ j, v.1 = input j := by
  induction limit generalizing k s with
  | zero => intro v hv; simp [visited] at hv
  | succ limit ih =>
    intro v hv
    rcases mem_visited_succ.mp hv with rfl | ⟨s', hs', hv⟩
    · exact ⟨hs, k, rfl⟩
    · exact ih (k + 1) (hstep _ _ _ hs hs') v hv

/-- The same rule where a step keeps `P` only where `Q` holds of the state and
the input read there, and the machine is followed only as long as `going`
holds. -/
theorem visited_takeWhile_forall {Q : ι × σ → Prop} {going : ι × σ → Bool}
    (hstep : ∀ i s s', P s → Q (i, s) → going (i, s) = true → step i s = some s' → P s')
    (limit k : Nat) {s : σ} (hs : P s)
    (hin : ∀ v ∈ (visited step input limit k s).takeWhile going, Q v) :
    ∀ v ∈ (visited step input limit k s).takeWhile going, P v.2 := by
  induction limit generalizing k s with
  | zero => intro v hv; simp [visited] at hv
  | succ limit ih =>
    intro v hv
    rw [visited, List.takeWhile_cons] at hv hin
    by_cases hg : going (input k, s) = true
    · rw [if_pos hg] at hv hin
      rcases List.mem_cons.mp hv with rfl | hv
      · exact hs
      have hq := hin _ List.mem_cons_self
      cases hs' : step (input k) s with
      | none => rw [hs'] at hv; simp at hv
      | some s' =>
        rw [hs'] at hv hin
        exact ih (k + 1) (hstep _ _ _ hs hq hg hs')
          (fun v hv => hin v (List.mem_cons_of_mem _ hv)) v hv
    · rw [if_neg hg] at hv
      simp at hv

/-- A rank that every step lowers bounds the number of states executed. -/
theorem length_visited_le (hstep : ∀ i s s', P s → step i s = some s' → P s' ∧ rank s' < rank s)
    (limit k : Nat) {s : σ} (hs : P s) :
    (visited step input limit k s).length ≤ rank s + 1 := by
  induction limit generalizing k s with
  | zero => simp [visited]
  | succ limit ih =>
    rw [visited, List.length_cons]
    cases hs' : step (input k) s with
    | none => simp
    | some s' =>
      obtain ⟨hp, hlt⟩ := hstep _ _ _ hs hs'
      have := ih (k + 1) hp
      simp only []
      omega

/-- With a limit above the rank, the last state executed halts. -/
theorem exists_halt (hstep : ∀ i s s', P s → step i s = some s' → P s' ∧ rank s' < rank s)
    {limit : Nat} (k : Nat) {s : σ} (hs : P s) (hlimit : rank s < limit) :
    ∃ v, (visited step input limit k s).getLast? = some v ∧ step v.1 v.2 = none := by
  induction limit generalizing k s with
  | zero => omega
  | succ limit ih =>
    rw [visited]
    cases hs' : step (input k) s with
    | none => exact ⟨(input k, s), by simp, hs'⟩
    | some s' =>
      obtain ⟨hp, hlt⟩ := hstep _ _ _ hs hs'
      obtain ⟨v, hv, hhalt⟩ := ih (k + 1) hp (by omega)
      refine ⟨v, ?_, hhalt⟩
      rw [List.getLast?_cons, hv]
      rfl

/-! ## A value along a run -/

/-- Each member of the list is an `R`-step from the one before, the first from
`a`, and the last is `b`. -/
def Walk {α : Type _} (R : α → α → Prop) : α → List α → α → Prop
  | a, [], b => a = b
  | a, x :: l, b => R a x ∧ Walk R x l b

variable {α : Type _} {R : α → α → Prop}

theorem Walk.append {a b c : α} {l l' : List α} (h : Walk R a l b) (h' : Walk R b l' c) :
    Walk R a (l ++ l') c := by
  induction l generalizing a with
  | nil =>
    have hab : a = b := h
    rw [hab]
    exact h'
  | cons x l ih => exact ⟨h.1, ih h.2⟩

theorem Walk.isChain {a b : α} {l : List α} (h : Walk R a l b) : List.IsChain R (a :: l) := by
  induction l generalizing a with
  | nil => exact .singleton a
  | cons x l ih => exact .cons_cons h.1 (ih h.2)

/-- What every step keeps holds at the end of a walk. -/
theorem Walk.closed {S : α → Prop} (hS : ∀ a b, R a b → S a → S b) {a b : α} {l : List α}
    (h : Walk R a l b) (ha : S a) : S b := by
  induction l generalizing a with
  | nil => exact h ▸ ha
  | cons x l ih => exact ih h.2 (hS a x h.1 ha)

/-- The value at the end of a run: `e` reads the one the last step leaves, `f`
the one a run of no steps starts with. -/
def finalValue (step : ι → σ → Option σ) (input : Nat → ι) (f : σ → α) (e : ι × σ → α)
    (limit k : Nat) (s : σ) : α :=
  ((visited step input limit k s).getLast?.map e).getD (f s)

variable {f : σ → α} {e : ι × σ → α} (hnext : ∀ i s s', step i s = some s' → f s' = e (i, s))
include hnext

theorem finalValue_succ (limit k : Nat) {s : σ} : finalValue step input f e (limit + 1) k s =
      match step (input k) s with
      | none => e (input k, s)
      | some s' => finalValue step input f e limit (k + 1) s' := by
  rw [finalValue, visited, List.getLast?_cons]
  cases hs' : step (input k) s with
  | none => rfl
  | some s' =>
    simp only [finalValue, hnext _ _ _ hs']
    cases (visited step input limit (k + 1) s').getLast? <;> rfl

/-- A value that is not the first one was left by some step. -/
theorem visited_origin (limit k : Nat) {s : σ} : ∀ v ∈ visited step input limit k s, f v.2 = f s ∨
      ∃ u ∈ visited step input limit k s, f u.2 ≠ f v.2 ∧ e u = f v.2 := by
  induction limit generalizing k s with
  | zero => intro v hv; simp [visited] at hv
  | succ limit ih =>
    intro v hv
    rcases mem_visited_succ.mp hv with rfl | ⟨s', hs', hv⟩
    · exact .inl rfl
    rcases ih (k + 1) v hv with heq | ⟨u, hu, hne, hleft⟩
    · by_cases hsame : f s = f v.2
      · exact .inl hsame.symm
      · exact .inr ⟨(input k, s), mem_visited_succ.mpr (.inl rfl), hsame,
          by rw [heq, hnext _ _ _ hs']⟩
    · exact .inr ⟨u, mem_visited_succ.mpr (.inr ⟨s', hs', hu⟩), hne, hleft⟩

/-- The values along a run, when each step walks from one to the next. -/
theorem visited_walk {g : ι × σ → List α} (limit k : Nat) {s : σ}
    (hwalk : ∀ v ∈ visited step input limit k s, Walk R (f v.2) (g v) (e v)) :
    Walk R (f s) ((visited step input limit k s).flatMap g)
      (finalValue step input f e limit k s) := by
  induction limit generalizing k s with
  | zero => exact rfl
  | succ limit ih =>
    rw [finalValue_succ hnext]
    rw [visited] at hwalk ⊢
    have hhead := hwalk _ List.mem_cons_self
    cases hs' : step (input k) s with
    | none => simpa using hhead
    | some s' =>
      rw [hs'] at hwalk
      have htail := ih (k + 1) fun v hv => hwalk v (List.mem_cons_of_mem _ hv)
      rw [hnext _ _ _ hs'] at htail
      exact hhead.append htail

/-- What a step brings about and every later one keeps holds at the end. -/
theorem finalValue_settles {S : α → Prop} (hS : ∀ a b, R a b → S a → S b)
    {g : ι × σ → List α} (limit k : Nat) {s : σ}
    (hwalk : ∀ v ∈ visited step input limit k s, Walk R (f v.2) (g v) (e v)) {u : ι × σ}
    (hu : u ∈ visited step input limit k s) (hSu : S (e u)) :
    S (finalValue step input f e limit k s) := by
  induction limit generalizing k s with
  | zero => simp [visited] at hu
  | succ limit ih =>
    rw [finalValue_succ hnext]
    rcases mem_visited_succ.mp hu with rfl | ⟨s', hs', hu⟩
    · cases hs' : step (input k) s with
      | none => exact hSu
      | some s' =>
        have htail := fun v hv => hwalk v (mem_visited_succ.mpr (.inr ⟨s', hs', hv⟩))
        exact (visited_walk hnext limit (k + 1) htail).closed hS
          (by rw [hnext _ _ _ hs']; exact hSu)
    · rw [hs']
      exact ih (k + 1) (fun v hv => hwalk v (mem_visited_succ.mpr (.inr ⟨s', hs', hv⟩))) hu

end Obi.Lib
