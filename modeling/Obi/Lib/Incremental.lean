import Mathlib.Data.UInt

/-!
# Parsers that ask for more

A parser takes what it wants from the front of its input, or fails. One failure
means that the input ends too early. `Parses` says that a parser wants just some
input: it takes all of it, whatever follows, and asks for more if it is given
less.
-/

namespace Obi.Lib

variable {β ε α γ : Type} {more : ε} {c w : List β} {x : β}

/-- A part of the input, and not all of it. -/
def ProperPart (c w : List β) : Prop := c <+: w ∧ c ≠ w

theorem ProperPart.append {a b : List β} (h : ProperPart c (a ++ b)) :
    ProperPart c a ∨ ∃ c', c = a ++ c' ∧ ProperPart c' b := by
  obtain ⟨⟨t, ht⟩, hne⟩ := h
  rcases List.append_eq_append_iff.mp ht with ⟨d, hd, -⟩ | ⟨c', rfl, hrest⟩
  · by_cases hca : c = a
    · refine .inr ⟨[], by rw [hca, List.append_nil], List.nil_prefix, ?_⟩
      rintro rfl
      exact hne (by rw [hca, List.append_nil])
    · exact .inl ⟨⟨d, hd.symm⟩, hca⟩
  · exact .inr ⟨c', rfl, ⟨t, hrest.symm⟩, fun h => hne (by rw [h])⟩

theorem ProperPart.cons (h : ProperPart (x :: c) (x :: w)) : ProperPart c w := by
  obtain ⟨hpre, hne⟩ := h
  exact ⟨(List.cons_prefix_cons.mp hpre).2, fun h => hne (by rw [h])⟩

theorem ProperPart.head (h : ProperPart c (x :: w)) :
    c = [] ∨ ∃ c', c = x :: c' ∧ ProperPart c' w := by
  cases c with
  | nil => exact .inl rfl
  | cons y c =>
    obtain rfl : y = x := (List.cons_prefix_cons.mp h.1).1
    exact .inr ⟨c, rfl, h.cons⟩

theorem ProperPart.length_lt (h : ProperPart c w) : c.length < w.length :=
  Nat.lt_of_le_of_ne h.1.length_le fun hlen => h.2 (h.1.eq_of_length hlen)

/-- Where the front of a sequence of records and a tail ends: within a record, or
within the tail. -/
theorem prefix_flatMap_append {f : α → List β} {l : List α} {p tail : List β}
    (h : p <+: l.flatMap f ++ tail) :
    (∃ done s rest q, l = done ++ s :: rest ∧ p = done.flatMap f ++ q ∧ ProperPart q (f s)) ∨
      ∃ q, p = l.flatMap f ++ q ∧ q <+: tail := by
  induction l generalizing p with
  | nil => exact .inr ⟨p, rfl, h⟩
  | cons s l ih =>
    rw [List.flatMap_cons, List.append_assoc] at h
    by_cases hs : ProperPart p (f s)
    · exact .inl ⟨[], s, l, p, rfl, rfl, hs⟩
    have hlen : (f s).length ≤ p.length := by
      by_contra hlt
      have hp : p <+: f s :=
        List.prefix_of_prefix_length_le h (List.prefix_append ..) (Nat.le_of_not_le hlt)
      refine hs ⟨hp, ?_⟩
      rintro rfl
      exact hlt (le_rfl)
    obtain ⟨q, rfl⟩ := List.prefix_of_prefix_length_le (List.prefix_append ..) h hlen
    rcases ih ((List.prefix_append_right_inj _).mp h) with
      ⟨done, s', rest, q', rfl, rfl, hq⟩ | ⟨q', rfl, hq⟩
    · refine .inl ⟨s :: done, s', rest, q', rfl, ?_, hq⟩
      rw [List.flatMap_cons, List.append_assoc]
    · refine .inr ⟨q', ?_, hq⟩
      rw [List.flatMap_cons, List.append_assoc]

/-- The parser reads `w` as `a`. -/
structure Parses (more : ε) (p : List β → Except ε (α × List β)) (w : List β) (a : α) : Prop where
  whole : ∀ t, p (w ++ t) = .ok (a, t)
  part : ∀ c, ProperPart c w → p c = .error more

end Obi.Lib
