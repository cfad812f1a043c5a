import Mathlib.Data.Finmap
import Obi.Lib.Run

/-!
# Finite tables

A table has finitely many keys with one value each, so that it can be gone
through and counted as well as looked up. It is Mathlib's association list
with a fixed type of values; what is added is the form in which a proof about
a program uses a lookup, with the two keys compared by an `if`, and the pass
over all entries that drops some and changes the others.
-/

namespace Obi.Lib

/-- A finite map from `K` to `V`. -/
abbrev Table (K V : Type _) := AList fun _ : K => V

namespace Table

variable {K V : Type _}

/-- The entries `f` keeps, with the values it gives them. -/
def filterEntries (f : K → V → Option V) (l : List (Σ _ : K, V)) : List (Σ _ : K, V) :=
  l.filterMap fun e => (f e.1 e.2).map fun v => ⟨e.1, v⟩

theorem keys_filterEntries (f : K → V → Option V) (l : List (Σ _ : K, V)) :
    (filterEntries f l).keys.Sublist l.keys := by
  induction l with
  | nil => exact List.Sublist.refl _
  | cons e rest ih =>
    rw [filterEntries, List.filterMap_cons]
    cases f e.1 e.2 with
    | none => exact ih.cons _
    | some v => exact ih.cons_cons _

/-- A pass over a table: each entry is dropped or gets a new value. -/
def filterMap (f : K → V → Option V) (t : Table K V) : Table K V :=
  ⟨filterEntries f t.entries, (keys_filterEntries f t.entries).nodup t.nodupKeys⟩

variable [DecidableEq K]

theorem get_insert (t : Table K V) (k j : K) (v : V) :
    (t.insert k v).lookup j = if j = k then some v else t.lookup j := by
  by_cases h : j = k
  · subst h
    rw [if_pos rfl, AList.lookup_insert]
  · rw [if_neg h, AList.lookup_insert_ne h]

theorem get_erase (t : Table K V) (k j : K) :
    (t.erase k).lookup j = if j = k then none else t.lookup j := by
  by_cases h : j = k
  · subst h
    rw [if_pos rfl, AList.lookup_erase]
  · rw [if_neg h, AList.lookup_erase_ne h]

/-- An update of single entries that does no more the second time, made for
each key of a list. -/
theorem lookup_foldl {update : Table K V → K → Table K V} {g : Option V → Option V}
    (hupd : ∀ t k j, (update t k).lookup j = if j = k then g (t.lookup j) else t.lookup j)
    (hg : ∀ v, g (g v) = g v) (keys : List K) (t : Table K V) (j : K) :
    (keys.foldl update t).lookup j = if j ∈ keys then g (t.lookup j) else t.lookup j :=
  (foldl_observe (P := fun _ => True) (fun t j => t.lookup j) g hg
    (fun t k _ _ => ⟨trivial, hupd t k⟩) t trivial).2 j

theorem dlookup_filterEntries (f : K → V → Option V) (k : K) {l : List (Σ _ : K, V)}
    (hl : l.NodupKeys) :
    List.dlookup k (filterEntries f l) = Option.bind (List.dlookup k l) (f k) := by
  induction l with
  | nil => rfl
  | cons e rest ih =>
    obtain ⟨j, v⟩ := e
    have hrest := List.nodupKeys_cons.mp hl
    have hih := ih hrest.2
    rw [filterEntries] at hih ⊢
    rw [List.filterMap_cons]
    by_cases hk : k = j
    · subst hk
      rw [List.dlookup_cons_eq, Option.bind_some]
      cases hf : f k v with
      | none =>
        have hnone : List.dlookup k rest = none := List.dlookup_eq_none.mpr hrest.1
        rw [hnone] at hih
        exact hih
      | some w => exact List.dlookup_cons_eq _ _ _
    · rw [List.dlookup_cons_ne _ _ hk]
      cases hf : f j v with
      | none => exact hih
      | some w => exact (List.dlookup_cons_ne _ _ hk).trans hih

theorem lookup_filterMap (f : K → V → Option V) (t : Table K V) (k : K) :
    (t.filterMap f).lookup k = Option.bind (t.lookup k) (f k) :=
  dlookup_filterEntries f k t.nodupKeys

end Table
end Obi.Lib
