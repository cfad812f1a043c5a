import Obi.Lib.Table

/-!
# What several packages share

Process IDs, the UUIDs of Kafka topics, and the two-level maps of `maps.Map2`.
`Delete` drops an inner map once it is empty; `DeleteAll` drops it as it is.
-/

namespace Obi.Ref
open Lib

/-- `app.PID`. -/
abbrev PID := Nat

/-- `kafkaparser.UUID`. -/
abbrev UUID := Vector UInt8 16

abbrev Map2 (K₁ K₂ V : Type) := Table K₁ (Table K₂ V)

namespace Map2

variable {K₁ K₂ V : Type} [DecidableEq K₁] [DecidableEq K₂] (m : Map2 K₁ K₂ V) (key₁ : K₁)

def put (key₂ : K₂) (val : V) : Map2 K₁ K₂ V :=
  m.insert key₁ (((m.lookup key₁).getD ∅).insert key₂ val)

def get (key₂ : K₂) : Option V := (m.lookup key₁).bind fun m2 => m2.lookup key₂

def delete (key₂ : K₂) : Map2 K₁ K₂ V := match m.lookup key₁ with
  | none => m
  | some m2 =>
    let m2 := m2.erase key₂
    if m2.entries.isEmpty then m.erase key₁ else m.insert key₁ m2

def deleteAll : Map2 K₁ K₂ V := m.erase key₁

theorem get_put (k₁ j₁ : K₁) (k₂ j₂ : K₂) (v : V) :
    get (put m k₁ k₂ v) j₁ j₂ = if j₁ = k₁ ∧ j₂ = k₂ then some v else get m j₁ j₂ := by
  rw [get, put, Table.get_insert]
  by_cases h₁ : j₁ = k₁
  · subst h₁
    rw [if_pos rfl, Option.bind_some, Table.get_insert, get]
    split
    · next h₂ => rw [if_pos ⟨rfl, h₂⟩]
    · next h₂ =>
      rw [if_neg fun h => h₂ h.2]
      cases m.lookup j₁ with
      | none | some m2 => rfl
  · rw [if_neg h₁, if_neg fun h => h₁ h.1, get]

/-- Another inner map for a key, dropped if it is empty. -/
theorem get_replace (m2 : Table K₂ V) (k₁ j₁ : K₁) (j₂ : K₂) :
    get (if m2.entries.isEmpty then m.erase k₁ else m.insert k₁ m2) j₁ j₂ =
      if j₁ = k₁ then m2.lookup j₂ else get m j₁ j₂ := by
  by_cases h₁ : j₁ = k₁
  · subst h₁
    rw [if_pos rfl]
    split
    · next hemp =>
      have hnone : m2.lookup j₂ = none := by
        rw [AList.lookup, List.isEmpty_iff.mp hemp]
        rfl
      rw [get, AList.lookup_erase, Option.bind_none, hnone]
    · rw [get, AList.lookup_insert, Option.bind_some]
  · simp only [get]
    split
    · rw [Table.get_erase, if_neg h₁]
    · rw [Table.get_insert, if_neg h₁]

theorem get_delete (k₁ j₁ : K₁) (k₂ j₂ : K₂) :
    get (delete m k₁ k₂) j₁ j₂ = if j₁ = k₁ ∧ j₂ = k₂ then none else get m j₁ j₂ := by
  rw [delete]
  cases hm : m.lookup k₁ with
  | none =>
    by_cases h : j₁ = k₁ ∧ j₂ = k₂
    · rw [if_pos h, h.1]
      simp [get, hm]
    · rw [if_neg h]
  | some m2 =>
    refine (get_replace m (m2.erase k₂) k₁ j₁ j₂).trans ?_
    by_cases h₁ : j₁ = k₁
    · subst h₁
      rw [if_pos rfl, Table.get_erase]
      simp [get, hm]
    · rw [if_neg h₁, if_neg fun h => h₁ h.1]

omit [DecidableEq K₂] in
theorem lookup_deleteAll (k₁ j₁ : K₁) :
    (deleteAll m k₁).lookup j₁ = if j₁ = k₁ then none else m.lookup j₁ :=
  Table.get_erase m k₁ j₁

end Map2
end Obi.Ref
