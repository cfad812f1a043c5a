import Obi.Proofs.PidsFilter

/-!
# Spans of forked children

A forked child that no generation covers borrows the `FileInfo` of the process that forked
it. The entry it does so by comes from the last fork that was recorded, discovery has not
taken over since, and it ends with the first `exec`.

Which generation covers a time is said of its own two times. As the clock of `BlockPID` does
not run backwards the generations of a PID follow each other, and the walk of `generationAt`,
which looks at the newest first, finds the one that covers.
-/

namespace Obi.Refine
open Lib Ref List PIDsFilter Option
variable {F : Type} {pf : PIDsFilter F} {key : ForkedChildKey} {child : ForkedChild F}
  {g : Generation F} {gens : List (Generation F)} {c t : Int}

/-! ## Which generation covers a time -/

/-- Each generation was removed before the newer ones began; `c` is the clock. -/
structure TimeOrdered (c : Int) (gens : List (Generation F)) : Prop where
  behind : gens.Pairwise fun g older => 0 < older.removedAt ∧ older.removedAt ≤ g.since
  times : ∀ g ∈ gens, g.removedAt = 0 ∧ g.since ≤ c ∨
    0 < g.removedAt ∧ g.since ≤ g.removedAt ∧ g.removedAt ≤ c

theorem TimeOrdered.takeWhile (h : TimeOrdered c gens) (p : Generation F → Bool) :
    TimeOrdered c (gens.takeWhile p) :=
  ⟨h.behind.sublist (takeWhile_sublist p), fun g hg =>
    h.times g ((takeWhile_sublist p).subset hg)⟩

theorem TimeOrdered.mono {now : Int} (hc : c ≤ now) (h : TimeOrdered c gens) :
    TimeOrdered now gens := by
  refine ⟨h.behind, fun g hg => ?_⟩
  have htimes := h.times g hg
  omega

theorem TimeOrdered.mark {now : Int} (hc : c ≤ now) (h0 : 0 ≤ c) {old : Option (PIDInfo F)}
    (h : TimeOrdered c ((old.map PIDInfo.generations).getD [])) :
    TimeOrdered now (((old.map (PIDInfo.marked now)).map PIDInfo.generations).getD []) := by
  cases old with
  | none => exact ⟨.nil, fun _ hg => absurd hg not_mem_nil⟩
  | some info =>
    obtain ⟨hbehind, htimes⟩ := h.mono hc
    have hsince := (h.times info.toGeneration mem_cons_self)
    simp only [map_some, getD_some, PIDInfo.generations, pairwise_cons, forall_mem_cons] at *
    rw [PIDInfo.marked]
    split
    · refine ⟨pairwise_cons.mpr hbehind, forall_mem_cons.mpr ⟨?_, htimes.2⟩⟩
      simp only
      omega
    · exact ⟨pairwise_cons.mpr hbehind, forall_mem_cons.mpr htimes⟩

end Obi.Refine
