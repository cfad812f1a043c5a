import Obi.Ref.Postgres

/-!
# The options of a startup message are split back into their arguments

A client joins arguments with blanks and puts a backslash before each blank or backslash
of an argument. The splitter is a machine over the bytes: the bytes of an argument leave it
in the middle of a word, a gap ends the word, and so the arguments come out one by one.
-/

namespace Obi.Refine.PostgresOptions
open Ref.Postgres OptionsSplit List

def escapeByte (c : UInt8) : List UInt8 :=
  if c = 92 ∨ isPostgresOptionsSpace c then [92, c] else [c]

def IsGap (gap : List UInt8) : Prop := ∀ c ∈ gap, isPostgresOptionsSpace c = true

/-- Arguments with the gap in front of each, and the gap behind the last. -/
def optionsText (parts : List (List UInt8 × List UInt8)) (last : List UInt8) : List UInt8 :=
  (parts.flatMap fun p => p.1 ++ p.2.flatMap escapeByte) ++ last

variable {a : List (List UInt8)} {w gap : List UInt8} {b : Bool} {c : UInt8}

theorem foldl_escapeByte :
    (escapeByte c).foldl step ⟨a, w, b, false⟩ = ⟨a, w ++ [c], true, false⟩ := by
  rw [escapeByte]
  split
  · simp [step]
  · next hc =>
    obtain ⟨hback, hspace⟩ := not_or.mp hc
    simp [step, hback, hspace]

theorem foldl_escaped (arg : List UInt8) (hne : arg ≠ []) :
    (arg.flatMap escapeByte).foldl step ⟨a, w, b, false⟩ = ⟨a, w ++ arg, true, false⟩ := by
  induction arg generalizing w b with
  | nil => exact absurd rfl hne
  | cons c arg ih =>
    rw [flatMap_cons, foldl_append, foldl_escapeByte]
    by_cases harg : arg = []
    · simp [harg]
    · rw [ih harg, append_assoc, singleton_append]

theorem step_space (hc : isPostgresOptionsSpace c = true) :
    step ⟨a, w, true, false⟩ c = { args := a ++ [w] } ∧ step { args := a } c = { args := a } := by
  have hback : c ≠ 92 := by
    rintro rfl
    revert hc
    decide
  simp [step, hback, hc]

theorem foldl_gap (hgap : IsGap gap) : gap.foldl step { args := a } = { args := a } := by
  induction gap with
  | nil => rfl
  | cons c gap ih =>
    obtain ⟨hc, hrest⟩ := forall_mem_cons.mp hgap
    rw [foldl_cons, (step_space (w := []) hc).2, ih hrest]

/-- A gap after an argument ends it. -/
theorem foldl_arg_gap (hgap : IsGap gap) (hne : gap ≠ []) :
    gap.foldl step ⟨a, w, true, false⟩ = { args := a ++ [w] } := by
  cases gap with
  | nil => exact absurd rfl hne
  | cons c gap =>
    obtain ⟨hc, hrest⟩ := forall_mem_cons.mp hgap
    rw [foldl_cons, (step_space hc).1, foldl_gap hrest]

theorem finish_parts {last : List UInt8} (hlast : IsGap last)
    (parts : List (List UInt8 × List UInt8)) (hparts : ∀ p ∈ parts, IsGap p.1 ∧ p.2 ≠ [])
    (hgaps : ∀ p ∈ parts, p.1 ≠ []) :
    ((optionsText parts last).foldl step ⟨a, w, true, false⟩).finish =
      a ++ w :: parts.map Prod.snd := by
  induction parts generalizing a w with
  | nil =>
    by_cases hend : last = []
    · simp [optionsText, hend, finish]
    · simp [optionsText, foldl_arg_gap hlast hend, finish]
  | cons p parts ih =>
    obtain ⟨⟨hgap, harg⟩, hparts⟩ := forall_mem_cons.mp hparts
    obtain ⟨hne, hgaps⟩ := forall_mem_cons.mp hgaps
    have hnext := ih (a := a ++ [w]) (w := p.2) hparts hgaps
    rw [optionsText, flatMap_cons, append_assoc, append_assoc, foldl_append, foldl_append,
      foldl_arg_gap hgap hne, foldl_escaped _ harg]
    simpa [optionsText] using hnext

/-- The first and the last gap may be empty, the gaps between arguments may not. -/
theorem options_split_back (parts : List (List UInt8 × List UInt8)) (last : List UInt8)
    (hlast : IsGap last) (hparts : ∀ p ∈ parts, IsGap p.1 ∧ p.2 ≠ [])
    (hgaps : ∀ p ∈ parts.tail, p.1 ≠ []) :
    splitPostgresOptions (optionsText parts last) = parts.map Prod.snd := by
  rw [splitPostgresOptions]
  cases parts with
  | nil => exact congrArg finish (foldl_gap hlast)
  | cons p parts =>
    obtain ⟨⟨hgap, harg⟩, hparts⟩ := forall_mem_cons.mp hparts
    rw [optionsText, flatMap_cons, append_assoc, append_assoc, foldl_append, foldl_append,
      foldl_gap hgap, foldl_escaped _ harg]
    exact finish_parts hlast parts hparts hgaps

theorem two_options_split :
    splitPostgresOptions (optionsText [([], [45, 99]), ([32, 9], [97, 32])] [10]) =
      [[45, 99], [97, 32]] :=
  options_split_back _ _ (by simp [IsGap]; decide) (by simp [IsGap]; decide) (by simp)

end Obi.Refine.PostgresOptions
