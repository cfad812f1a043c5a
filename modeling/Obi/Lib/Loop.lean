import Mathlib.Data.UInt

/-!
# Loops with numbered rounds

A loop makes a fixed number of rounds at most. A round gets its number and the state and
says whether the loop is to stop after it.
-/

namespace Obi.Lib

variable {σ : Type _}

/-- The rounds from `i` on, `left` of them at most. -/
def loopFrom (round : Nat → σ → Bool × σ) : (left i : Nat) → σ → σ
  | 0, _, s => s
  | left + 1, i, s => match round i s with
    | (true, s') => s'
    | (false, s') => loopFrom round left (i + 1) s'

def loop (n : Nat) (round : Nat → σ → Bool × σ) (s : σ) : σ := loopFrom round n 0 s

/-- The rule for a loop: `P i` holds before round `i`, and `Q` after a round that stops and
after the last one. -/
theorem loopFrom_rule {round : Nat → σ → Bool × σ} {n : Nat} (P : Nat → σ → Prop) {Q : σ → Prop}
    (hround : ∀ i s, i < n → P i s →
      if (round i s).1 then Q (round i s).2 else P (i + 1) (round i s).2)
    (hend : ∀ s, P n s → Q s) {left i : Nat} (hleft : i + left = n) {s : σ} (hs : P i s) :
    Q (loopFrom round left i s) := by
  induction left generalizing i s with
  | zero =>
    obtain rfl : i = n := hleft
    exact hend s hs
  | succ left ih =>
    have hnext := hround i s (by omega) hs
    rw [loopFrom]
    generalize round i s = r at hnext
    obtain ⟨stop, s'⟩ := r
    cases stop with
    | true => exact hnext
    | false => exact ih (by omega) hnext

end Obi.Lib
