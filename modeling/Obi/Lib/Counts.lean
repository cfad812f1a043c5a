import Obi.Lib.Table

/-!
# Reference counts

A table that counts how often each key is in use: a key nobody uses has no entry.
What it counts is a total over other tables, whose entries each use some keys.
-/

namespace Obi.Lib

variable {K V : Type _}

namespace Table

/-- The sum of a measure over all entries. -/
def total (size : V → Nat) (t : Table K V) : Nat := (t.entries.map fun e => size e.2).sum

variable [DecidableEq K] {size : V → Nat} {t : Table K V} {k : K} {v : V}

theorem total_erase (h : t.lookup k = some v) : total size t = total size (t.erase k) + size v := by
  have hmem : (⟨k, v⟩) ∈ t.entries := AList.mem_lookup_iff.mp h
  obtain ⟨w, before, after, -, hents, herase⟩ := List.exists_of_kerase (List.mem_keys_of_mem hmem)
  have hw : w = v := by
    refine eq_of_heq (List.NodupKeys.eq_of_mk_mem t.nodupKeys ?_ hmem ▸ HEq.rfl)
    rw [hents]
    exact List.mem_append_right _ List.mem_cons_self
  have hall : total size t = ((before ++ ⟨k, v⟩ :: after).map fun e => size e.2).sum := by
    rw [total, hents, hw]
  have hrest : total size (t.erase k) = ((before ++ after).map fun e => size e.2).sum := by
    rw [← herase]
    rfl
  rw [hall, hrest, List.map_append, List.map_append, List.map_cons, List.sum_append,
    List.sum_append, List.sum_cons]
  simp only []
  omega

theorem total_erase_none (h : t.lookup k = none) : total size (t.erase k) = total size t := by
  rw [total, total, AList.erase]
  simp only
  rw [List.kerase_of_notMem_keys (AList.lookup_eq_none.mp h)]

theorem total_insert (t : Table K V) (k : K) (v : V) :
    total size (t.insert k v) = total size (t.erase k) + size v := by
  rw [add_comm]
  rfl

theorem total_eq_zero_iff : total size t = 0 ↔ ∀ k v, t.lookup k = some v → size v = 0 := by
  rw [total, List.sum_eq_zero_iff_forall_eq_nat]
  constructor
  · intro h k v hv
    exact h _ (List.mem_map.mpr ⟨⟨k, v⟩, AList.mem_lookup_iff.mp hv, rfl⟩)
  · intro h n hn
    obtain ⟨⟨k, v⟩, he, rfl⟩ := List.mem_map.mp hn
    exact h k v (AList.mem_lookup_iff.mpr he)

end Table

variable [DecidableEq K]

/-- The table has the uses of every key, and no entry for a key without any. -/
def Counts (t : Table K Int) (uses : K → Nat) : Prop :=
  ∀ k, t.lookup k = if uses k = 0 then none else some (uses k : Int)

namespace Counts

variable {t : Table K Int} {uses uses' : K → Nat} {k : K}

theorem empty : Counts (∅ : Table K Int) fun _ => 0 := fun _ => rfl

section
variable (h : Counts t uses)
include h

theorem congr (heq : ∀ k, uses k = uses' k) : Counts t uses' :=
  fun k => by rw [h k, heq k]

theorem getD (k : K) : (t.lookup k).getD 0 = (uses k : Int) := by
  rw [h k]
  split
  · next hzero => rw [hzero]; rfl
  · rfl

theorem mem_iff (k : K) : (t.lookup k).isSome = true ↔ uses k ≠ 0 := by
  rw [h k]
  split
  · next hzero => exact iff_of_false Bool.false_ne_true (fun hne => hne hzero)
  · next hne => exact iff_of_true rfl hne

/-- One more use of a key. -/
theorem increment (k : K) :
    Counts (t.insert k ((t.lookup k).getD 0 + 1)) fun j => uses j + if j = k then 1 else 0 := by
  intro j
  simp only []
  rw [Table.get_insert, h.getD]
  by_cases hj : j = k
  · subst hj
    rw [if_pos rfl, if_pos rfl]
    rfl
  · rw [if_neg hj, if_neg hj, h j]
    rfl

/-- One use of a key less, of one that is used. -/
theorem decrement (hk : 0 < uses k) {t' : Table K Int}
    (ht' : t' = if (t.lookup k).getD 0 - 1 ≤ 0 then t.erase k
      else t.insert k ((t.lookup k).getD 0 - 1)) :
    Counts t' fun j => uses j - if j = k then 1 else 0 := by
  rw [h.getD] at ht'
  intro j
  simp only []
  by_cases hlast : (uses k : Int) - 1 ≤ 0
  · rw [ht', if_pos hlast, Table.get_erase]
    by_cases hj : j = k
    · subst hj
      rw [if_pos rfl, if_pos rfl, if_pos (by omega)]
    · rw [if_neg hj, if_neg hj, h j]
      rfl
  rw [ht', if_neg hlast, Table.get_insert]
  by_cases hj : j = k
  · subst hj
    rw [if_pos rfl, if_pos rfl, if_neg (by omega)]
    congr 1
    omega
  · rw [if_neg hj, if_neg hj, h j]
    rfl

end
end Counts
end Obi.Lib
