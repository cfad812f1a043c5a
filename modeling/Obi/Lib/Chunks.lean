import Mathlib.Data.UInt

/-!
# Positions in a list of chunks

A list cut into chunks is read through a pair of a chunk index and an offset
in that chunk. `offsetOf` is the position of such a pair in the flat list, and
the lemmas say what lies ahead of it: the rest of its chunk, then the chunks
after it. Stepping off the end of a chunk does not move the position, and
chunks added at the end do not move it either.

A reader takes elements out of its chunk as they are, and copies those that lie
across the end of it. `crosses` says which of the two it does, by the position
alone.
-/

namespace Obi.Lib

variable {α : Type _} {cs : List (List α)} {c : List α} {i o : Nat}

/-- The position in the flat list of offset `o` in chunk `i`. -/
def offsetOf (cs : List (List α)) (i o : Nat) : Nat := (cs.take i).flatten.length + o

@[simp] theorem offsetOf_zero (cs : List (List α)) (o : Nat) : offsetOf cs 0 o = o := by
  simp [offsetOf]

theorem offsetOf_add (cs : List (List α)) (i o k : Nat) :
    offsetOf cs i (o + k) = offsetOf cs i o + k := by
  simp only [offsetOf]
  omega

/-- The end of a chunk and the start of the next one are one position. -/
theorem offsetOf_succ (h : cs[i]? = some c) : offsetOf cs (i + 1) 0 = offsetOf cs i c.length := by
  simp [offsetOf, List.take_add_one, h]

theorem drop_offsetOf (cs : List (List α)) (i o : Nat) :
    cs.flatten.drop (offsetOf cs i o) = ((cs.drop i).flatten).drop o := by
  have hspl : cs.flatten = (cs.take i).flatten ++ (cs.drop i).flatten := by
    rw [← List.flatten_append, List.take_append_drop]
  rw [hspl, offsetOf, ← List.drop_drop, List.drop_left]

theorem flatten_drop_of_get? (h : cs[i]? = some c) :
    (cs.drop i).flatten = c ++ (cs.drop (i + 1)).flatten := by
  obtain ⟨hi, rfl⟩ := getElem?_eq_some_iff.1 h
  rw [List.drop_eq_getElem_cons hi, List.flatten_cons]

/-! ## Crossing the end of a chunk -/

/-- The `n` elements from position `p` on do not all lie in the chunk a reader
stands in that has read those before. It leaves a chunk with the last element of
it, for the next one, even if that is empty. -/
def crosses : List (List α) → Nat → Nat → Bool
  | [], _, _ => true
  | c :: cs, p, n =>
    if p = 0 ∨ p < c.length then decide (c.length < p + n) else crosses cs (p - c.length) n

/-- The pair is where such a reader stands. -/
def Settled (cs : List (List α)) (i o : Nat) : Prop :=
  (o = 0 → i = 0 ∨ ∃ c, cs[i - 1]? = some c ∧ c ≠ []) ∧
    (o ≠ 0 → ∃ c, cs[i]? = some c ∧ o < c.length)

theorem Settled.tail {d : List α} (h : Settled (d :: cs) (i + 1) o) : Settled cs i o := by
  refine ⟨fun ho => ?_, fun ho => h.2 ho⟩
  rcases h.1 ho with hi | ⟨c, hc, hne⟩
  · exact absurd hi (Nat.succ_ne_zero i)
  · cases i with
    | zero => exact .inl rfl
    | succ i => exact .inr ⟨c, hc, hne⟩

theorem offsetOf_cons (d : List α) (cs : List (List α)) (i o : Nat) :
    offsetOf (d :: cs) (i + 1) o = d.length + offsetOf cs i o := by
  simp only [offsetOf, List.take_succ_cons, List.flatten_cons, List.length_append]
  omega

/-- Only a reader that has read nothing stands at position 0. -/
theorem Settled.offsetOf_pos (h : Settled cs (i + 1) o) : 0 < offsetOf cs (i + 1) o := by
  rcases Nat.eq_zero_or_pos o with ho | ho
  · rcases h.1 ho with hi | ⟨c, hc, hne⟩
    · exact absurd hi (Nat.succ_ne_zero i)
    rw [Nat.add_sub_cancel] at hc
    rw [ho, offsetOf_succ hc]
    exact Nat.add_pos_right _ (List.length_pos_iff.mpr hne)
  · exact Nat.add_pos_right _ ho

theorem crosses_offsetOf (h : cs[i]? = some c) (hs : Settled cs i o) (n : Nat) :
    crosses cs (offsetOf cs i o) n = decide (c.length < o + n) := by
  induction cs generalizing i with
  | nil => cases h
  | cons d cs ih =>
    rw [crosses]
    cases i with
    | zero =>
      obtain rfl : d = c := Option.some.inj h
      have hin : o = 0 ∨ o < d.length := by
        by_cases ho : o = 0
        · exact .inl ho
        obtain ⟨c, hc, hlt⟩ := hs.2 ho
        obtain rfl : d = c := Option.some.inj hc
        exact .inr hlt
      rw [offsetOf_zero, if_pos hin]
    | succ i =>
      have hpos := hs.offsetOf_pos
      rw [offsetOf_cons] at hpos ⊢
      rw [if_neg (by omega), Nat.add_sub_cancel_left]
      exact ih h hs.tail

end Obi.Lib
