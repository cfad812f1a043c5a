import Mathlib.Data.UInt

/-!
# Splicing lists

Three edits of a list at an offset: put a block in, take a block out, write
over a block. Each one is spelled with `take` and `drop`, so that what an edit
leaves alone is visible in its definition, and the lemmas below say how the
edits compose: taking out what was put in is the identity, writing over what
was just put in is putting the other block in, and a write that ends before
an insertion commutes with it.
-/

namespace Obi.Lib
open List
variable {α : Type _}

/-- `xs` with the block `ys` put in at offset `i`. -/
def insertAt (xs : List α) (i : Nat) (ys : List α) : List α := xs.take i ++ ys ++ xs.drop i

/-- `xs` with the `n` elements from offset `i` on taken out. -/
def removeAt (xs : List α) (i n : Nat) : List α := xs.take i ++ xs.drop (i + n)

/-- `xs` with the elements from offset `i` on written over by `ys`. -/
def overwriteAt (xs : List α) (i : Nat) (ys : List α) : List α :=
  xs.take i ++ ys ++ xs.drop (i + ys.length)

/-- The `n` elements from offset `i` on. -/
def slice (xs : List α) (i n : Nat) : List α := (xs.drop i).take n

@[simp] theorem length_insertAt (xs : List α) (i : Nat) (ys : List α) :
    (insertAt xs i ys).length = xs.length + ys.length := by
  simp only [insertAt, length_append, length_take, length_drop]
  omega

theorem length_removeAt_le (xs : List α) (i n : Nat) : (removeAt xs i n).length ≤ xs.length := by
  simp only [removeAt, length_append, length_take, length_drop]
  omega

variable {i : Nat} {xs ys : List α} {zs : List α} {n j : Nat}

theorem length_overwriteAt (h : i + ys.length ≤ xs.length) :
    (overwriteAt xs i ys).length = xs.length := by
  simp only [overwriteAt, length_append, length_take, length_drop]
  omega

theorem length_slice (xs : List α) (i n : Nat) : (slice xs i n).length = min n (xs.length - i) := by
  simp [slice]

theorem drop_slice (xs : List α) (i n k : Nat) :
    (slice xs i n).drop k = slice xs (i + k) (n - k) := by
  rw [slice, slice, drop_take, drop_drop]

/-- Taking out the block that was just put in gives the list back. -/
theorem removeAt_insertAt (hi : i ≤ xs.length) (hn : ys.length = n) :
    removeAt (insertAt xs i ys) i n = xs := by
  have htake : (xs.take i).length = i := by simp [hi]
  unfold removeAt insertAt
  rw [append_assoc, take_append_of_le_length (by omega), take_of_length_le (by omega),
    ← append_assoc, drop_append_of_le_length (by simp [htake, hn]),
    drop_of_length_le (by simp [hn]), nil_append, take_append_drop]

/-- Writing over the whole of a block that was just put in is putting the
other block in. -/
theorem overwriteAt_insertAt (hi : i ≤ xs.length) (hlen : zs.length = ys.length) :
    overwriteAt (insertAt xs i ys) i zs = insertAt xs i zs := by
  have htake : (xs.take i).length = i := by simp [hi]
  unfold overwriteAt insertAt
  rw [append_assoc (xs.take i) ys, take_append_of_le_length (by omega),
    take_of_length_le (by omega), ← append_assoc (xs.take i) ys,
    drop_append_of_le_length (by simp [htake, hlen]), drop_of_length_le (by simp [hlen]),
    nil_append]

/-- A write that ends before an insertion point commutes with the
insertion. -/
theorem overwriteAt_insertAt_of_le (hj : j + zs.length ≤ i) (hi : i ≤ xs.length) :
    overwriteAt (insertAt xs i ys) j zs = insertAt (overwriteAt xs j zs) i ys := by
  have htake : (xs.take i).length = i := by simp [hi]
  have hpre : (xs.take j ++ zs).length = j + zs.length := by
    simp only [length_append, length_take]; omega
  have hhead : (xs.take j ++ zs).take i = xs.take j ++ zs := take_of_length_le (by omega)
  have htail : (xs.take j ++ zs).drop i = [] := drop_of_length_le (by omega)
  unfold overwriteAt insertAt
  rw [append_assoc (xs.take i) ys, take_append_of_le_length (by omega), take_take,
    min_eq_left (by omega), drop_append_of_le_length (by omega)]
  rw [take_append, drop_append, hpre, hhead, htail, nil_append, drop_drop, drop_take]
  simp only [append_assoc]
  rw [show j + zs.length + (i - (j + zs.length)) = i by omega]

/-- Writing over a block with what it already holds changes nothing. -/
theorem overwriteAt_slice (h : slice xs i ys.length = ys) : overwriteAt xs i ys = xs := by
  unfold overwriteAt
  conv => lhs; lhs; rhs; rw [← h]
  rw [slice, append_assoc, ← drop_drop, take_append_drop, take_append_drop]

theorem take_insertAt_of_le (hj : j ≤ i) (hi : i ≤ xs.length)
    (ys : List α) : (insertAt xs i ys).take j = xs.take j := by
  have htake : (xs.take i).length = i := by simp [hi]
  rw [insertAt, append_assoc, take_append_of_le_length (by omega), take_take, min_eq_left hj]

theorem drop_insertAt (hi : i ≤ xs.length) (ys : List α) :
    (insertAt xs i ys).drop (i + ys.length) = xs.drop i := by
  have hpre : (xs.take i ++ ys).length = i + ys.length := by simp [hi]
  rw [insertAt, ← hpre, drop_left]

/-- A block that ends where another was put in is read together with it. -/
theorem slice_insertAt_ending (h : j + n ≤ xs.length) (ys : List α) :
    slice (insertAt xs (j + n) ys) j (n + ys.length) = slice xs j n ++ ys := by
  have htake : (xs.take (j + n)).length = j + n := by simp [h]
  have hmid : ((xs.take (j + n)).drop j).length = n := by rw [length_drop]; omega
  rw [slice, slice, insertAt, append_assoc, drop_append_of_le_length (by omega),
    take_append, hmid, take_of_length_le (by omega), Nat.add_sub_cancel_left,
    take_left, drop_take, Nat.add_sub_cancel_left]

/-! ## Edits inside one part of a concatenation -/

theorem slice_append_add (xs ys : List α) (i n : Nat) :
    slice (xs ++ ys) (xs.length + i) n = slice ys i n := by
  rw [slice, slice, drop_append, drop_of_length_le (by omega), nil_append, Nat.add_sub_cancel_left]

theorem slice_append_of_le (h : i + n ≤ xs.length)
    (ys : List α) : slice (xs ++ ys) i n = slice xs i n := by
  rw [slice, slice, drop_append_of_le_length (by omega),
    take_append_of_le_length (by rw [length_drop]; omega)]

/-- A block is read back where it stands. -/
theorem slice_of_split {l : List α} (h : l = xs ++ (ys ++ zs))
    (hi : xs.length = i) (hn : ys.length = n) : slice l i n = ys := by
  subst hi hn
  have hmid := slice_append_add xs (ys ++ zs) 0 ys.length
  rw [add_zero] at hmid
  rw [h, hmid, slice, drop_zero, take_left]

theorem insertAt_append_add (hi : i ≤ ys.length) (xs zs bs : List α) :
    insertAt (xs ++ (ys ++ zs)) (xs.length + i) bs = xs ++ (insertAt ys i bs ++ zs) := by
  have htake : (xs ++ (ys ++ zs)).take (xs.length + i) = xs ++ ys.take i := by
    rw [take_append, take_of_length_le (by omega), Nat.add_sub_cancel_left,
      take_append_of_le_length hi]
  have hdrop : (xs ++ (ys ++ zs)).drop (xs.length + i) = ys.drop i ++ zs := by
    rw [drop_append, drop_of_length_le (by omega), Nat.add_sub_cancel_left,
      nil_append, drop_append_of_le_length hi]
  rw [insertAt, insertAt, htake, hdrop]
  simp

theorem overwriteAt_append {bs : List α} (h : bs.length = ys.length) (xs zs : List α) :
    overwriteAt (xs ++ (ys ++ zs)) xs.length bs = xs ++ (bs ++ zs) := by
  rw [overwriteAt, take_left, h, ← append_assoc xs ys zs, ← length_append, drop_left, append_assoc]

end Obi.Lib
