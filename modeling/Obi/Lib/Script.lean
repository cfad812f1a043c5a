import Mathlib.Data.UInt

/-!
# Programs that ask

A program over an interface: it asks, and goes on by the answer. What answers,
and with which state, is left open, so that one program runs on an
implementation and on its specification. If the two agree question by question,
they agree on every program.

A program run on a list is a parser: it takes what it wants from the list and says
how it ended. `Reads` says that it takes just the elements of one list, whatever
follows them, and `collect` runs it for as long as it succeeds.
-/

namespace Obi.Lib

/-- A program that asks questions `q`, answered by an `A q`. -/
inductive Script {Q : Type} (A : Q → Type) (α : Type)
  | done (a : α)
  | ask (q : Q) (next : A q → Script A α)

namespace Script

variable {Q : Type} {A : Q → Type} {α β σ τ : Type}

def bind : Script A α → (α → Script A β) → Script A β
  | .done a, f => f a
  | .ask q next, f => .ask q fun answer => (next answer).bind f

instance : Monad (Script A) where
  pure := .done
  bind := bind

instance : LawfulMonad (Script A) := .mk' _
  (fun p => by
    induction p with
    | done a => rfl
    | ask q next ih => exact congrArg (ask q) (funext ih))
  (fun _ _ => rfl)
  fun p f g => by
    induction p with
    | done a => rfl
    | ask q next ih => exact congrArg (ask q) (funext ih)

/-- A question by itself. -/
def query (q : Q) : Script A (A q) := .ask q .done

/-- The run on an implementation, whose answer may be undefined. -/
def run (answer : (q : Q) → σ → Option (A q × σ)) : Script A α → σ → Option (α × σ)
  | .done a, s => some (a, s)
  | .ask q next, s => match answer q s with
    | none => none
    | some (a, s') => (next a).run answer s'

/-- The run on a specification. -/
def eval (answer : (q : Q) → τ → A q × τ) : Script A α → τ → α × τ
  | .done a, t => (a, t)
  | .ask q next, t => (next (answer q t).1).eval answer (answer q t).2

variable {answer : (q : Q) → σ → Option (A q × σ)} {spec : (q : Q) → τ → A q × τ}

theorem eval_bind (p : Script A α) (f : α → Script A β) (t : τ) :
    (p >>= f).eval spec t = (f (p.eval spec t).1).eval spec (p.eval spec t).2 := by
  induction p generalizing t with
  | done a => rfl
  | ask q next ih => exact ih _ _

theorem run_bind (p : Script A α) (f : α → Script A β) (s : σ) :
    (p >>= f).run answer s = (p.run answer s).bind fun res => (f res.1).run answer res.2 := by
  induction p generalizing s with
  | done a => rfl
  | ask q next ih =>
    change (ask q fun a => next a >>= f).run answer s = _
    rw [run, run]
    rcases answer q s with _ | ⟨a, s'⟩
    · rfl
    · exact ih a s'

/-- An implementation that answers each question as the specification does, and
keeps in step with it, runs every program as the specification does. -/
theorem run_eq_eval {R : σ → τ → Prop}
    (h : ∀ q s t, R s t → ∃ s', answer q s = some ((spec q t).1, s') ∧ R s' (spec q t).2)
    (p : Script A α) {s : σ} {t : τ} (hst : R s t) :
    ∃ s', p.run answer s = some ((p.eval spec t).1, s') ∧ R s' (p.eval spec t).2 := by
  induction p generalizing s t with
  | done a => exact ⟨s, rfl, hst⟩
  | ask q next ih =>
    obtain ⟨s', hans, hst'⟩ := h q s t hst
    rw [run, hans]
    exact ih _ hst'

end Script

/-! ## Parsers of a list -/

/-- How the parser ended, and what it left. -/
abbrev Take (β ε α : Type) := List β → Except ε α × List β

variable {β ε α γ : Type}

def andThen (p : Take β ε α) (f : α → Take β ε γ) : Take β ε γ := fun l => match p l with
  | (.ok a, rest) => f a rest
  | (.error e, rest) => (.error e, rest)

/-- The parser reads the list as `a`: it takes all of it and nothing behind it. -/
def Reads (p : Take β ε α) (w : List β) (a : α) : Prop := ∀ t, p (w ++ t) = (.ok a, t)

theorem Reads.andThen {p : Take β ε α} {f : α → Take β ε γ} {u v : List β} {a : α} {b : γ}
    (hp : Reads p u a) (hf : Reads (f a) v b) : Reads (andThen p f) (u ++ v) b := by
  intro t
  rw [Lib.andThen, List.append_assoc, hp]
  exact hf t

/-- Items are read until there is none, `n` at most. The parser is told how many
may follow. -/
def collect (p : Nat → Take β ε α) : Nat → List β → List α
  | 0, _ => []
  | n + 1, l => match p n l with
    | (.error _, _) => []
    | (.ok a, rest) => a :: collect p n rest

end Obi.Lib
