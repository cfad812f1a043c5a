import Mathlib.Data.UInt

/-!
# Runs

A run feeds a list of events to a step function. `Along` says that every event
of a run meets a condition in the state it finds. What holds at the start and
is kept by every such step holds at the end; and if the condition is just what
keeps it, it holds along the run exactly when every event meets the condition.

A run whose events each change one part of the state is told by what an event
does to its part. `Since` says of a list of events that one of a first kind came
after every one of a second kind.
-/

namespace Obi.Lib
open List
variable {σ ε : Type _}

/-- Every event meets `ok` in the state it is handled in. -/
def Along (step : σ → ε → σ) (ok : σ → ε → Prop) : σ → List ε → Prop
  | _, [] => True
  | s, e :: rest => ok s e ∧ Along step ok (step s e) rest

variable {step : σ → ε → σ} {ok : σ → ε → Prop} {P : σ → Prop}
  {events : List ε} {s : σ} {α β : Type _} {q : ε → Prop}

theorem Along.inv (hstep : ∀ s e, P s → ok s e → P (step s e))
    (hs : P s) (h : Along step ok s events) : P (events.foldl step s) := by
  induction events generalizing s with
  | nil => exact hs
  | cons e rest ih => exact ih (hstep s e hs h.1) h.2

theorem along_of_forall (hq : ∀ e ∈ events, q e) (s : σ) :
    Along step (fun _ e => q e) s events := by
  induction events generalizing s with
  | nil => trivial
  | cons e rest ih => exact ⟨hq e mem_cons_self, ih (fun x hx => hq x (mem_cons_of_mem _ hx)) _⟩

theorem Along.and_forall (h : Along step ok s events)
    (hq : ∀ e ∈ events, q e) : Along step (fun s e => ok s e ∧ q e) s events := by
  induction events generalizing s with
  | nil => trivial
  | cons e rest ih =>
    exact ⟨⟨h.1, hq e mem_cons_self⟩, ih h.2 fun x hx => hq x (mem_cons_of_mem _ hx)⟩

/-- What an invariant gives at each step. -/
theorem Along.imp_of_inv {q : σ → ε → Prop}
    (hstep : ∀ s e, P s → ok s e → P (step s e) ∧ q s e) (hs : P s)
    (h : Along step ok s events) : Along step q s events := by
  induction events generalizing s with
  | nil => trivial
  | cons e rest ih =>
    obtain ⟨hnext, hq⟩ := hstep s e hs h.1
    exact ⟨hq, ih hnext h.2⟩

theorem along_append {before rest : List ε} : Along step ok s (before ++ rest) ↔
      Along step ok s before ∧ Along step ok (before.foldl step s) rest := by
  induction before generalizing s with
  | nil => exact ⟨fun h => ⟨trivial, h⟩, fun h => h.2⟩
  | cons e before ih => rw [cons_append, Along, Along, ih, and_assoc, foldl_cons]

theorem along_iff {Q : σ → Prop} (hQ : ∀ s e, Q s → Q (step s e))
    (hstep : ∀ s e, Q s → P s → (P (step s e) ↔ ok s e)) (hs : Q s) (hP : P s)
    (events : List ε) :
    Along step ok s events ↔ ∀ before, before <+: events → P (before.foldl step s) := by
  induction events generalizing s with
  | nil =>
    refine ⟨fun _ before hbef => ?_, fun _ => trivial⟩
    rw [prefix_nil.mp hbef]
    exact hP
  | cons e rest ih =>
    constructor
    · rintro ⟨hok, hrest⟩ before hbef
      have hnext : P (step s e) := (hstep s e hs hP).mpr hok
      cases before with
      | nil => exact hP
      | cons b before =>
        obtain ⟨rfl, htail⟩ := cons_prefix_cons.mp hbef
        exact (ih (hQ s b hs) hnext).mp hrest before htail
    · intro hall
      have hnext : P (step s e) := hall [e] (cons_prefix_cons.mpr ⟨rfl, nil_prefix⟩)
      refine ⟨(hstep s e hs hP).mp hnext, (ih (hQ s e hs) hnext).mpr ?_⟩
      intro before hbef
      exact hall (e :: before) (cons_prefix_cons.mpr ⟨rfl, hbef⟩)

instance instDecidableAlong [∀ s e, Decidable (ok s e)] :
    ∀ (s : σ) (events : List ε), Decidable (Along step ok s events)
  | _, [] => isTrue trivial
  | s, e :: rest =>
    have := instDecidableAlong (step s e) rest
    inferInstanceAs (Decidable (ok s e ∧ Along step ok (step s e) rest))

/-- Events that each change the part of the state they name, by something that
does no more the second time. -/
theorem foldl_observe_each [DecidableEq α] {round : σ → α → σ} (obs : σ → α → β)
    (f : α → β → β) (hf : ∀ a b, f a (f a b) = f a b) {l : List α}
    (hround : ∀ s, ∀ a ∈ l, P s → P (round s a) ∧
      ∀ x, obs (round s a) x = if x = a then f x (obs s x) else obs s x)
    (s : σ) (hs : P s) :
    P (l.foldl round s) ∧
      ∀ x, obs (l.foldl round s) x = if x ∈ l then f x (obs s x) else obs s x := by
  induction l generalizing s with
  | nil => exact ⟨hs, fun _ => rfl⟩
  | cons a rest ih =>
    obtain ⟨hnext, hobs⟩ := hround s a mem_cons_self hs
    have hlater := ih (fun s b hb => hround s b (mem_cons_of_mem _ hb)) (round s a) hnext
    refine ⟨hlater.1, fun x => ?_⟩
    rw [foldl_cons, hlater.2, hobs]
    by_cases hx : x = a
    · subst hx
      rw [if_pos rfl, if_pos mem_cons_self, hf, ite_self]
    · simp [hx]

/-- The same with one change for every part. -/
theorem foldl_observe [DecidableEq α] {round : σ → α → σ} (obs : σ → α → β)
    (f : β → β) (hf : ∀ b, f (f b) = f b) {l : List α}
    (hround : ∀ s, ∀ a ∈ l, P s → P (round s a) ∧
      ∀ x, obs (round s a) x = if x = a then f (obs s x) else obs s x)
    (s : σ) (hs : P s) :
    P (l.foldl round s) ∧ ∀ x, obs (l.foldl round s) x = if x ∈ l then f (obs s x) else obs s x :=
  foldl_observe_each obs (fun _ => f) (fun _ => hf) hround s hs

/-- An event of the first kind, and none of the second after it. -/
def Since (adds removes : ε → Prop) (events : List ε) : Prop :=
  ∃ before e after, events = before ++ e :: after ∧ adds e ∧ ∀ x ∈ after, ¬ removes x

theorem since_nil (adds removes : ε → Prop) : ¬ Since adds removes [] := by
  rintro ⟨before, e, after, heq, -⟩
  cases before <;> cases heq

theorem since_concat {adds removes : ε → Prop} {e : ε} :
    Since adds removes (events ++ [e]) ↔ adds e ∨ (Since adds removes events ∧ ¬ removes e) := by
  constructor
  · rintro ⟨before, x, after, heq, hx, haft⟩
    rcases eq_nil_or_concat after with rfl | ⟨after, y, rfl⟩
    · obtain ⟨-, hlast⟩ := append_inj' heq rfl
      obtain rfl := singleton_inj.mp hlast
      exact .inl hx
    rw [concat_eq_append] at heq haft
    rw [← cons_append, ← append_assoc] at heq
    obtain ⟨hevs, hlast⟩ := append_inj' heq rfl
    obtain rfl := singleton_inj.mp hlast
    refine .inr ⟨⟨before, x, after, hevs, hx, fun z hz => ?_⟩, ?_⟩
    · exact haft z (mem_append_left _ hz)
    · exact haft e (mem_append_right _ mem_cons_self)
  · rintro (he | ⟨⟨before, x, after, rfl, hx, haft⟩, hnot⟩)
    · exact ⟨events, e, [], rfl, he, fun x hx => absurd hx not_mem_nil⟩
    refine ⟨before, x, after ++ [e], by rw [append_assoc, cons_append], hx, ?_⟩
    intro z hz
    rcases mem_append.mp hz with hz | hz
    · exact haft z hz
    · rw [mem_singleton.mp hz]
      exact hnot

end Obi.Lib
