import Obi.Proofs.PidsFilter
import Obi.Spec.PidHistory

/-!
# The generations of a PID are its registration history

The filter keeps for each PID the newest part of its registration history, and
what it has dropped expired before the clock. A span that is not older than the
retention therefore finds the process the whole history gives it.

The invariant is `Tracks`: it goes down the processes that had a PID and the
generations of its entry side by side, the newest first.
-/

namespace Obi.Refine
open Lib Ref Spec List PIDsFilter PIDInfo
variable {F : Type} {fi : F} {g : Generation F} {x c' now later : Int} {pids : List PID}
  {pf : PIDsFilter F} {span : PidSpan} {f : Registration F → Registration F}

/-! ## Generations beside registrations -/

/-- The process was blocked, at `x` at the latest. -/
def RemovedBy (x : Int) (r : Registration F) : Prop := ∃ y, r.removed = some y ∧ 0 < y ∧ y ≤ x

theorem RemovedBy.mono {r : Registration F} {y : Int} (hxy : x ≤ y) (h : RemovedBy x r) :
    RemovedBy y r := by
  obtain ⟨z, hz, hpos, hle⟩ := h
  exact ⟨z, hz, hpos, by omega⟩

theorem RemovedBy.ne_none {r : Registration F} (h : RemovedBy x r) : r.removed ≠ none := by
  obtain ⟨y, hy, -⟩ := h
  rw [hy]
  exact Option.some_ne_none y

/-- The time by which the retention of everything that expired by `c` began. -/
def horizon (c : Int) : Int := c - pidRemovalRetention - 1

theorem horizon_le (c : Int) : horizon c ≤ c := by
  unfold horizon pidRemovalRetention
  omega

/-- Where a generation begins: at the removal of the process before it, or
nowhere when every process before it has expired. -/
def Begins (c since : Int) (older : List (Registration F)) : Prop :=
  (since = 0 ∧ ∀ r ∈ older, RemovedBy (horizon c) r) ∨
    0 < since ∧ ∃ r rest, older = r :: rest ∧ r.removed = some since

/-- A generation is filed for this registration, by the clock `c`, with `older`
registrations before it. -/
structure Files (c : Int) (older : List (Registration F)) (r : Registration F)
    (g : Generation F) : Prop where
  fileInfo : g.fileInfo = r.fileInfo
  pids : g.otherKnownPids = r.pids
  removedAt : g.removedAt = r.removed.getD 0
  past : ∀ y, r.removed = some y → 0 < y ∧ y ≤ c
  order : ∀ r' ∈ older, RemovedBy (r.removed.getD c) r'
  since : Begins c g.since older

/-- The generations are the newest of the registrations, and those that are
missing have expired. -/
inductive Tracks (c : Int) : List (Registration F) → List (Generation F) → Prop
  | gone {older} (h : ∀ r ∈ older, RemovedBy (horizon c) r) : Tracks c older []
  | gen {r older g gens} (h : Files c older r g) (rest : Tracks c older gens) :
      Tracks c (r :: older) (g :: gens)

variable {r : Registration F} {c t : Int} {older regs : List (Registration F)}
  {gens : List (Generation F)} {info : PIDInfo F} {h : History F} {ns : Nat} {q pid : PID}

theorem Begins.mono {since : Int} (hc : c ≤ c')
    (h : Begins c since older) : Begins c' since older := by
  rcases h with ⟨h0, hall⟩ | h
  · exact .inl ⟨h0, fun r hr => (hall r hr).mono (by unfold horizon; omega)⟩
  · exact .inr h

theorem Files.mono (hc : c ≤ c') (h : Files c older r g) : Files c' older r g where
  fileInfo := h.fileInfo
  pids := h.pids
  removedAt := h.removedAt
  past y hy := ⟨(h.past y hy).1, Int.le_trans (h.past y hy).2 hc⟩
  order r' hr' := by
    refine (h.order r' hr').mono ?_
    cases r.removed with
    | none => exact hc
    | some y => exact le_refl y
  since := h.since.mono hc

theorem Tracks.mono (hc : c ≤ c') (h : Tracks c regs gens) : Tracks c' regs gens := by
  induction h with
  | gone hall => exact .gone fun r hr => (hall r hr).mono (by unfold horizon; omega)
  | gen hfls _ ih => exact .gen (hfls.mono hc) ih

/-- A generation that is not marked is filed for a process that lives. -/
theorem Files.removed_eq_none
    (h : Files c older r g) (hg : g.removedAt = 0) : r.removed = none := by
  cases hr : r.removed with
  | none => rfl
  | some y =>
    have hy := h.removedAt
    have hpos := (h.past y hr).1
    rw [hr, Option.getD_some] at hy
    omega

/-- Only the newest registration can be that of a live process. -/
theorem Tracks.live_is_head (h : Tracks c regs gens) (hr : r ∈ regs) (hlive : r.removed = none) :
    ∃ older g rest, regs = r :: older ∧ gens = g :: rest ∧ Files c older r g ∧
      Tracks c older rest := by
  cases h with
  | gone hall => exact absurd hlive (hall r hr).ne_none
  | @gen r' older g rest hfls htrk =>
    rcases mem_cons.mp hr with heq | hmem
    · subst heq
      exact ⟨older, g, rest, rfl, rfl, hfls, htrk⟩
    · exact absurd hlive (hfls.order r hmem).ne_none

/-! ## The process a span belongs to -/

theorem not_outlasts_removed (hx : x < t) (h : RemovedBy x r) : r.outlasts t = false := by
  obtain ⟨y, hy, -, hle⟩ := h
  rw [Registration.outlasts, hy, Option.all_some, decide_eq_false_iff_not]
  omega

/-- When the newest process is gone by `t`, so are all before it. -/
theorem Tracks.not_outlasts {s : Int} (ht : horizon c < t)
    (h : Tracks c (r :: older) gens) (hr : r.removed = some s) (hs : s < t) :
    ∀ r' ∈ r :: older, r'.outlasts t = false := by
  intro r' hr'
  cases h with
  | gone hall => exact not_outlasts_removed ht (hall r' hr')
  | gen hfls _ =>
    rcases mem_cons.mp hr' with heq | hmem
    · subst heq
      exact not_outlasts_removed hs ⟨s, hr, (hfls.past s hr).1, le_refl s⟩
    have hold := hfls.order r' hmem
    rw [hr] at hold
    exact not_outlasts_removed hs hold

/-- With the registrations newest first, the oldest that outlasts `t`. -/
def firstOutlasting (t : Int) (regs : List (Registration F)) : Option F :=
  (regs.reverse.find? fun r => r.outlasts t).map Registration.fileInfo

theorem outlasting_eq_none
    (h : ∀ r ∈ regs, r.outlasts t = false) : firstOutlasting t regs = none := by
  have hnone : (regs.reverse.find? fun r => r.outlasts t) = none := by
    rw [find?_eq_none]
    intro r hr
    rw [h r (mem_reverse.mp hr)]
    exact Bool.false_ne_true
  rw [firstOutlasting, hnone, Option.map_none]

theorem outlasting_cons_none (h : ∀ r' ∈ older, r'.outlasts t = false)
    (hr : r.outlasts t = true) : firstOutlasting t (r :: older) = some r.fileInfo := by
  have hnone : (older.reverse.find? fun r => r.outlasts t) = none := by
    rw [find?_eq_none]
    intro r' hr'
    rw [h r' (mem_reverse.mp hr')]
    exact Bool.false_ne_true
  rw [firstOutlasting, reverse_cons, find?_append, hnone, Option.none_or,
    find?_cons_of_pos (by exact hr), Option.map_some]

theorem outlasting_cons_mem {r' : Registration F} (hmem : r' ∈ older) (hr' : r'.outlasts t = true) :
    firstOutlasting t (r :: older) = firstOutlasting t older := by
  have hsome : (older.reverse.find? fun r => r.outlasts t).isSome := by
    rw [find?_isSome]
    exact ⟨r', mem_reverse.mpr hmem, hr'⟩
  obtain ⟨found, hfnd⟩ := Option.isSome_iff_exists.mp hsome
  rw [firstOutlasting, firstOutlasting, reverse_cons, find?_append, hfnd, Option.some_or]

/-- The walk down the generations finds the process of the span. -/
theorem generationAt_of_tracks (ht : horizon c < t) (h : Tracks c regs gens) :
    (generationAt gens t).map Generation.fileInfo = firstOutlasting t regs := by
  induction h with
  | gone hall =>
    rw [generationAt, Option.map_none, outlasting_eq_none]
    intro r hr
    exact not_outlasts_removed ht (hall r hr)
  | @gen r older g rest hfls htrk ih =>
    rw [generationAt]
    split
    · next hgone =>
      -- the span ended after this process, and so after all before it
      obtain ⟨hne, hlt⟩ := hgone
      have hrem : RemovedBy g.removedAt r := by
        rw [hfls.removedAt] at hne ⊢
        cases hr : r.removed with
        | none => rw [hr] at hne; exact absurd rfl hne
        | some y => exact ⟨y, hr, (hfls.past y hr).1, le_refl y⟩
      have hold : ∀ r' ∈ older, RemovedBy g.removedAt r' := by
        intro r' hr'
        obtain ⟨y, hy, -⟩ := hrem
        have := hfls.order r' hr'
        rw [hfls.removedAt]
        rw [hy] at this ⊢
        exact this
      rw [Option.map_none, outlasting_eq_none]
      intro r' hr'
      rcases mem_cons.mp hr' with heq | hmem
      · rw [heq]
        exact not_outlasts_removed hlt hrem
      · exact not_outlasts_removed hlt (hold r' hmem)
    · next hgone =>
      have hout : r.outlasts t = true := by
        rw [hfls.removedAt] at hgone
        rw [Registration.outlasts]
        cases hr : r.removed with
        | none => rfl
        | some y =>
          rw [hr, Option.getD_some] at hgone
          have hpos := (hfls.past y hr).1
          rw [Option.all_some, decide_eq_true_iff]
          omega
      split
      · next hsince =>
        rw [Option.map_some, hfls.fileInfo, outlasting_cons_none _ hout]
        intro r' hr'
        rcases hfls.since with ⟨-, hall⟩ | ⟨hpos, r1, rest1, holder, hr1⟩
        · exact not_outlasts_removed ht (hall r' hr')
        · subst holder
          exact htrk.not_outlasts ht hr1 (by omega) r' hr'
      · next hsince =>
        rcases hfls.since with ⟨h0, -⟩ | ⟨hpos, r1, rest1, holder, hr1⟩
        · exact absurd (.inl h0) hsince
        have hr₁out : r1.outlasts t = true := by
          rw [Registration.outlasts, hr1, Option.all_some, decide_eq_true_iff]
          omega
        rw [ih, outlasting_cons_mem (holder ▸ mem_cons_self) hr₁out]

/-! ## What a call does to the generations -/

/-- What pruning drops has expired. -/
theorem Tracks.takeWhile
    (h : Tracks c regs gens) : Tracks c regs (gens.takeWhile fun g => !expired g c) := by
  induction h with
  | gone hall => exact .gone hall
  | @gen r older g rest hfls _ ih =>
    rw [takeWhile_cons]
    cases hexp : expired g c with
    | false => exact .gen hfls ih
    | true =>
      rw [expired, decide_eq_true_iff, hfls.removedAt] at hexp
      cases hr : r.removed with
      | none => rw [hr] at hexp; exact absurd rfl hexp.1
      | some y =>
        rw [hr, Option.getD_some] at hexp
        have hle : y ≤ horizon c := by unfold horizon; omega
        refine .gone fun r' hr' => ?_
        rcases mem_cons.mp hr' with heq | hmem
        · subst heq
          exact ⟨y, hr, (hfls.past y hr).1, hle⟩
        have hold := hfls.order r' hmem
        rw [hr] at hold
        exact hold.mono hle

/-- A live process is marked in the history and in its entry alike. -/
theorem Tracks.mark (hpos : 0 < now) (hc : c ≤ now)
    (h : Tracks c (r :: older) info.generations) (hlive : r.removed = none) :
    Tracks now ({ r with removed := some now } :: older) (marked now info).generations := by
  obtain ⟨older', g, rest, hregs, hgens, hfls, htrk⟩ := h.live_is_head mem_cons_self hlive
  cases hregs
  cases hgens
  have hzero : info.removedAt = 0 := by
    have := hfls.removedAt
    rw [hlive] at this
    exact this
  rw [marked, if_pos hzero]
  refine .gen ⟨hfls.fileInfo, hfls.pids, rfl, ?_, ?_, hfls.since.mono hc⟩ (htrk.mono hc)
  · intro y hy
    cases hy
    exact ⟨hpos, le_rfl⟩
  · intro r' hr'
    have hold := hfls.order r' hr'
    rw [hlive] at hold
    exact hold.mono hc

/-- A process that lives is registered again. -/
theorem Tracks.refresh (h : Tracks c (r :: older) info.generations) (hlive : r.removed = none)
    (fi : F) (t : UInt8) :
    Tracks c ({ r with fileInfo := fi } :: older)
      (registerPID (some info) fi t r.pids).generations := by
  obtain ⟨older', g, rest, hregs, hgens, hfls, htrk⟩ := h.live_is_head mem_cons_self hlive
  cases hregs
  cases hgens
  have hzero : info.removedAt = 0 := by
    have := hfls.removedAt
    rw [hlive] at this
    exact this
  rw [registerPID, if_neg (not_not.mpr hzero)]
  exact .gen ⟨rfl, rfl, hfls.removedAt, hfls.past, hfls.order, hfls.since⟩ htrk

/-- A process takes over a PID whose processes are all gone. -/
theorem Tracks.succeed {old : Option (PIDInfo F)}
    (h : Tracks c regs ((old.map generations).getD []))
    (hgone : ∀ r ∈ regs, r.removed ≠ none) (pid : PID) (ns : Nat) (pids : List PID) (fi : F)
    (t : UInt8) :
    Tracks c (⟨pid, ns, pids, fi, none⟩ :: regs) (registerPID old fi t pids).generations := by
  have hpast : ∀ y, none = some y → 0 < y ∧ y ≤ c := fun y hy => nomatch hy
  cases old with
  | none =>
    cases h with
    | gone hall =>
      have horder : ∀ r ∈ regs, RemovedBy c r := fun r hr => (hall r hr).mono (horizon_le c)
      exact .gen ⟨rfl, rfl, rfl, hpast, horder, .inl ⟨rfl, hall⟩⟩ (.gone hall)
  | some info =>
    cases hregs : regs with
    | nil =>
      rw [hregs] at h
      cases h
    | cons r older =>
      subst hregs
      obtain ⟨y, hy⟩ := Option.ne_none_iff_exists'.mp (hgone r mem_cons_self)
      cases id h with
      | gen hfls _ =>
        have hrem : info.removedAt = y := by
          have := hfls.removedAt
          rw [hy] at this
          exact this
        obtain ⟨hpos, hle⟩ := hfls.past y hy
        rw [registerPID, if_pos (by omega)]
        refine .gen ⟨rfl, rfl, rfl, hpast, ?_, .inr ⟨?_, r, older, rfl, ?_⟩⟩ h
        · intro r' hr'
          rcases mem_cons.mp hr' with heq | hmem
          · subst heq
            exact ⟨y, hy, hpos, hle⟩
          have hold := hfls.order r' hmem
          rw [hy] at hold
          exact hold.mono hle
        · exact hrem ▸ hpos
        · exact hrem ▸ hy

/-! ## Runs -/

/-- The filter beside the history and the clock. -/
structure PidWorld (F : Type) where
  filter : PIDsFilter F
  history : History F
  clock : Int

def PidWorld.init : PidWorld F := ⟨newPIDsFilter F, [], 0⟩

def PidWorld.step (w : PidWorld F) (call : PidCall F) : PidWorld F :=
  { filter := w.filter.call call
    history := match call with
      | .allowPID pid ns fi _ (some pids) => w.history.allow pid ns pids fi
      | .blockPID pid ns now _ => w.history.block pid ns now
      | _ => w.history
    clock := match call with
      | .blockPID _ _ _ later => later
      | _ => w.clock }

/-- The clock is positive and does not go back. The PIDs of a process include
the one it is registered under, and no other live process of the namespace has
any of them. -/
def Admissible (w : PidWorld F) : PidCall F → Prop
  | .allowPID pid ns _ _ (some pids) =>
    pid ∈ pids ∧ ∀ r ∈ w.history, r.ns = ns → r.removed = none →
      (r.pid = pid ∧ r.pids = pids) ∨ (r.pid ≠ pid ∧ ∀ q ∈ pids, q ∉ r.pids)
  | .blockPID _ _ now later => 0 < now ∧ w.clock ≤ now ∧ now ≤ later
  | _ => True

/-- `BlockPID` goes through no PID of a live process registered under another. -/
def Spares (w : PidWorld F) : PidCall F → Prop
  | .blockPID pid ns _ _ =>
    ∀ q ∈ touched w.filter pid ns,
      ∀ r ∈ w.history, r.ns = ns → r.removed = none → q ∈ r.pids → r.pid = pid
  | _ => True

instance instDecidableAdmissible (w : PidWorld F) : ∀ call, Decidable (Admissible w call)
  | .allowPID pid ns _ _ (some pids) =>
    inferInstanceAs (Decidable (pid ∈ pids ∧ ∀ r ∈ w.history, r.ns = ns → r.removed = none →
      (r.pid = pid ∧ r.pids = pids) ∨ (r.pid ≠ pid ∧ ∀ q ∈ pids, q ∉ r.pids)))
  | .blockPID _ _ now later => inferInstanceAs (Decidable (0 < now ∧ w.clock ≤ now ∧ now ≤ later))
  | .allowPID _ _ _ _ none | .allowForkedChild .. | .endForkedChild .. => isTrue trivial

instance instDecidableSpares (w : PidWorld F) : ∀ call, Decidable (Spares w call)
  | .blockPID pid ns _ _ =>
    inferInstanceAs (Decidable (∀ q ∈ touched w.filter pid ns,
      ∀ r ∈ w.history, r.ns = ns → r.removed = none → q ∈ r.pids → r.pid = pid))
  | .allowPID .. | .allowForkedChild .. | .endForkedChild .. => isTrue trivial

/-- The filter agrees with the history on every PID. -/
structure Coherent (w : PidWorld F) : Prop where
  own : ∀ r ∈ w.history, r.pid ∈ r.pids
  tracks : ∀ ns q, Tracks w.clock (w.history.holders ns q).reverse (chain w.filter ns q)

theorem mem_holders : r ∈ h.holders ns q ↔ r ∈ h ∧ r.ns = ns ∧ q ∈ r.pids := by
  rw [History.holders, mem_filter, decide_eq_true_iff]

theorem holders_map (hf : ∀ r, (f r).ns = r.ns ∧ (f r).pids = r.pids) (ns : Nat) (q : PID) :
    History.holders (h.map f) ns q = (h.holders ns q).map f := by
  rw [History.holders, filter_map]
  congr 1
  refine filter_congr fun r _ => ?_
  rw [Function.comp_apply, (hf r).1, (hf r).2]

/-- A change to one live process leaves a list without it alone. -/
theorem map_is_of_forall_not (h : ∀ r ∈ regs, ¬ r.Is pid ns) :
    (regs.map fun r => if r.Is pid ns then f r else r) = regs := by
  rw [map_congr_left fun r hr => if_neg (h r hr), map_id']

variable {w : PidWorld F}

section
variable (hw : Coherent w)
include hw

/-- What the filter holds for each PID of a live process. -/
theorem Coherent.live (hr : r ∈ w.history) (hlive : r.removed = none) (hq : q ∈ r.pids) :
    ∃ older info, (w.history.holders r.ns q).reverse = r :: older ∧
      w.filter.entry r.ns q = some info ∧ Tracks w.clock (r :: older) info.generations ∧
      info.otherKnownPids = r.pids ∧ ∀ r' ∈ older, r'.removed ≠ none := by
  have hmem : r ∈ (w.history.holders r.ns q).reverse :=
    mem_reverse.mpr (mem_holders.mpr ⟨hr, rfl, hq⟩)
  have htrk := hw.tracks r.ns q
  obtain ⟨older, g, rest, hregs, hgens, hfls, -⟩ := htrk.live_is_head hmem hlive
  rw [chain] at hgens htrk
  cases hent : w.filter.entry r.ns q with
  | none =>
    rw [hent] at hgens
    cases hgens
  | some info =>
    rw [hent] at hgens htrk
    have hg : info.toGeneration = g := (cons.inj hgens).1
    subst hg
    exact ⟨older, info, hregs, rfl, hregs ▸ htrk, hfls.pids,
      fun r' hr' => (hfls.order r' hr').ne_none⟩

theorem coherent_refresh {t : UInt8} (hok : Admissible w (.allowPID pid ns fi t (some pids)))
    (hex : ∃ r ∈ w.history, r.Is pid ns) :
    Coherent (w.step (.allowPID pid ns fi t (some pids))) := by
  obtain ⟨r, hr, hns, hpid, hlive⟩ := hex
  have hpids : ∀ r ∈ w.history, r.Is pid ns → r.pids = pids := by
    intro r' hr' his
    rcases hok.2 r' hr' his.1 his.2.2 with hsame | hoth
    · exact hsame.2
    · exact absurd his.2.1 hoth.1
  have hstep : (w.step (.allowPID pid ns fi t (some pids))).history =
      w.history.map fun r => if r.Is pid ns then { r with fileInfo := fi } else r :=
    if_pos ⟨r, hr, hns, hpid, hlive⟩
  refine ⟨?_, ?_⟩
  · intro r' hr'
    rw [hstep, mem_map] at hr'
    obtain ⟨r0, hr0, rfl⟩ := hr'
    split
    · exact hw.own r0 hr0
    · exact hw.own r0 hr0
  · intro n q
    rw [hstep, holders_map (fun r => by split <;> exact ⟨rfl, rfl⟩), ← map_reverse]
    have hent := @entry_addPID F w.filter pid ns fi t pids n q
    change Tracks w.clock _ (chain (w.filter.addPID pid ns fi t (some pids)) n q)
    rw [chain, hent]
    by_cases hmem : n = ns ∧ q ∈ pids
    · obtain ⟨rfl, hq⟩ := hmem
      have hrpids := hpids r hr ⟨hns, hpid, hlive⟩
      subst hns
      obtain ⟨older, info, hregs, hinfo, htrk, -, hgone⟩ := hw.live hr hlive (hrpids ▸ hq)
      rw [if_pos ⟨rfl, hq⟩, hregs, hinfo, map_cons, if_pos ⟨rfl, hpid, hlive⟩,
        map_is_of_forall_not fun r' hr' his => hgone r' hr' his.2.2, ← hrpids]
      exact htrk.refresh hlive fi t
    · rw [if_neg hmem, map_is_of_forall_not]
      · exact hw.tracks n q
      intro r' hr' his
      have hr'' := mem_holders.mp (mem_reverse.mp hr')
      exact hmem ⟨hr''.2.1.symm.trans his.1, hpids r' hr''.1 his ▸ hr''.2.2⟩

theorem coherent_succeed {t : UInt8} (hok : Admissible w (.allowPID pid ns fi t (some pids)))
    (hex : ¬ ∃ r ∈ w.history, r.Is pid ns) :
    Coherent (w.step (.allowPID pid ns fi t (some pids))) := by
  have hstep : (w.step (.allowPID pid ns fi t (some pids))).history =
      w.history ++ [⟨pid, ns, pids, fi, none⟩] := if_neg hex
  refine ⟨?_, ?_⟩
  · intro r' hr'
    rw [hstep, mem_append, mem_singleton] at hr'
    rcases hr' with hold | rfl
    · exact hw.own r' hold
    · exact hok.1
  · intro n q
    have hent := @entry_addPID F w.filter pid ns fi t pids n q
    change Tracks w.clock _ (chain (w.filter.addPID pid ns fi t (some pids)) n q)
    rw [hstep, chain, hent, History.holders, filter_append, reverse_append]
    by_cases hmem : n = ns ∧ q ∈ pids
    · obtain ⟨rfl, hq⟩ := hmem
      have hgone : ∀ r ∈ (w.history.holders n q).reverse, r.removed ≠ none := by
        intro r hr hlive
        obtain ⟨hr, hns, hqr⟩ := mem_holders.mp (mem_reverse.mp hr)
        rcases hok.2 r hr hns hlive with hsame | hoth
        · exact hex ⟨r, hr, hns, hsame.1, hlive⟩
        · exact hoth.2 q hq hqr
      rw [if_pos ⟨rfl, hq⟩, filter_cons_of_pos (by simpa using hq)]
      exact (hw.tracks n q).succeed hgone pid n pids fi t
    · have hnew : ¬ decide (ns = n ∧ q ∈ pids) = true := by
        rw [decide_eq_true_iff]
        exact fun h => hmem ⟨h.1.symm, h.2⟩
      rw [if_neg hmem, filter_cons_of_neg (by exact hnew)]
      exact hw.tracks n q

/-- An entry that is not marked is that of a live process. -/
theorem Coherent.holder_of_unmarked (hent : w.filter.entry ns q = some info)
    (hzero : info.removedAt = 0) :
    ∃ r ∈ w.history.holders ns q, r.removed = none := by
  have htrk := hw.tracks ns q
  rw [chain, hent] at htrk
  cases hregs : (w.history.holders ns q).reverse with
  | nil =>
    rw [hregs] at htrk
    cases htrk
  | cons r older =>
    rw [hregs] at htrk
    cases htrk with
    | gen hfls _ =>
      have hmem : r ∈ (w.history.holders ns q).reverse := hregs ▸ mem_cons_self
      exact ⟨r, mem_reverse.mp hmem, hfls.removed_eq_none hzero⟩

/-- A process that is blocked is marked under all its PIDs. -/
theorem touched_of_live (hr : r ∈ w.history) (hlive : r.removed = none) (hq : q ∈ r.pids) :
    q ∈ touched w.filter r.pid r.ns := by
  obtain ⟨-, info, -, hinfo, -, hpids, -⟩ := hw.live hr hlive (hw.own r hr)
  rw [touched, hinfo, Option.map_some, hpids]
  exact mem_cons_of_mem _ hq

theorem tracks_block (hok : Admissible w (.blockPID pid ns now later))
    (hspar : Spares w (.blockPID pid ns now later)) (n : Nat) (q : PID) :
    Tracks now ((w.history.holders n q).reverse.map fun r =>
        if r.Is pid ns then { r with removed := some now } else r)
      (((if n = ns ∧ q ∈ touched w.filter pid ns then
          (w.filter.entry n q).map (marked now)
        else w.filter.entry n q).map generations).getD []) := by
  obtain ⟨hpos, hclock, -⟩ := hok
  by_cases hex : ∃ r ∈ w.history.holders n q, r.Is pid ns
  · obtain ⟨r, hholds, hns, hpid, hlive⟩ := hex
    obtain ⟨hr, rfl, hq⟩ := mem_holders.mp hholds
    obtain ⟨older, info, hregs, hinfo, htrk, -, hgone⟩ := hw.live hr hlive hq
    subst hns hpid
    rw [if_pos ⟨rfl, touched_of_live hw hr hlive hq⟩, hregs, hinfo, map_cons,
      if_pos ⟨rfl, rfl, hlive⟩, map_is_of_forall_not fun r' hr' his => hgone r' hr' his.2.2]
    exact htrk.mark hpos hclock hlive
  · have hnone : ∀ r ∈ (w.history.holders n q).reverse, ¬ r.Is pid ns := fun r hr his =>
      hex ⟨r, mem_reverse.mp hr, his⟩
    rw [map_is_of_forall_not hnone]
    have htrk := (hw.tracks n q).mono hclock
    split
    · next htouched =>
      -- what is marked here was marked already
      obtain ⟨rfl, hq⟩ := htouched
      rw [chain] at htrk
      cases hent : w.filter.entry n q with
      | none =>
        rw [hent] at htrk
        exact htrk
      | some info =>
        rw [hent] at htrk
        have hrem : info.removedAt ≠ 0 := by
          intro hzero
          obtain ⟨r, hholds, hlive⟩ := hw.holder_of_unmarked hent hzero
          obtain ⟨hr, hns, hqr⟩ := mem_holders.mp hholds
          have hpid := hspar q hq r hr hns hlive hqr
          exact hex ⟨r, hholds, hns, hpid, hlive⟩
        rw [Option.map_some, marked, if_neg hrem]
        exact htrk
    · exact htrk

theorem coherent_block (hok : Admissible w (.blockPID pid ns now later))
    (hspar : Spares w (.blockPID pid ns now later)) :
    Coherent (w.step (.blockPID pid ns now later)) := by
  have hmap : ∀ n q, ((w.step (.blockPID pid ns now later)).history.holders n q).reverse =
      (w.history.holders n q).reverse.map fun r =>
        if r.Is pid ns then { r with removed := some now } else r := by
    intro n q
    rw [map_reverse, ← holders_map (fun r => by split <;> exact ⟨rfl, rfl⟩)]
    rfl
  refine ⟨?_, ?_⟩
  · intro r' hr'
    obtain ⟨r0, hr0, rfl⟩ := mem_map.mp hr'
    split
    · exact hw.own r0 hr0
    · exact hw.own r0 hr0
  · intro n q
    rw [hmap]
    change Tracks later _ (chain (w.filter.removePID pid ns now later) n q)
    have hlater : now ≤ later := hok.2.2
    rcases @entry_removePID F w.filter pid ns now later with hsame | hmark
    · rw [chain, (hsame n q).1, map_is_of_forall_not]
      · exact (hw.tracks n q).mono (le_trans hok.2.1 hlater)
      -- a live process would have an entry in the namespace
      intro r hr ⟨hns, hpid, hlive⟩
      obtain ⟨hr, -⟩ := mem_holders.mp (mem_reverse.mp hr)
      obtain ⟨-, info, -, hinfo, -⟩ := hw.live hr hlive (hw.own r hr)
      rw [hns, (hsame ns r.pid).2] at hinfo
      cases hinfo
    · rw [chain, hmark, generations_prune]
      exact ((tracks_block hw hok hspar n q).mono hlater).takeWhile

/-- A call that files nothing. -/
theorem Coherent.of_same (filter : PIDsFilter F)
    (hsame : ∀ n q, filter.entry n q = w.filter.entry n q) :
    Coherent { w with filter := filter } := by
  refine ⟨hw.own, fun n q => ?_⟩
  have htrk := hw.tracks n q
  rw [chain, ← hsame] at htrk
  exact htrk

end

/-- Every call keeps the filter in agreement with the history. -/
theorem coherent_step (w : PidWorld F) (call : PidCall F) (hw : Coherent w)
    (hok : Admissible w call ∧ Spares w call) : Coherent (w.step call) := by
  cases call with
  | allowPID pid ns fi t read =>
    cases read with
    | none => exact hw.of_same _ (@entry_addPID_none F w.filter pid ns fi t)
    | some pids =>
      by_cases hex : ∃ r ∈ w.history, r.Is pid ns
      · exact coherent_refresh hw hok.1 hex
      · exact coherent_succeed hw hok.1 hex
  | blockPID pid ns now later => exact coherent_block hw hok.1 hok.2
  | allowForkedChild lost child parent t =>
    refine hw.of_same (w.filter.allowForkedChild lost child parent t) fun n q => ?_
    rw [allowForkedChild]
    split <;> rfl
  | endForkedChild lost child t =>
    refine hw.of_same (w.filter.endForkedChild lost child t) fun n q => ?_
    rw [endForkedChild]
    split
    · rfl
    · split <;> rfl

theorem coherent_run {calls : List (PidCall F)}
    (h : Along PidWorld.step (fun w call => Admissible w call ∧ Spares w call) PidWorld.init
      calls) :
    Coherent (calls.foldl PidWorld.step (PidWorld.init (F := F))) := by
  refine h.inv coherent_step ⟨?_, ?_⟩
  · intro r hr
    cases hr
  · intro ns q
    refine .gone fun r hr => ?_
    cases hr

/-! ## Attribution -/

/-- With no forked child in the way, the answer is read off the generations. -/
theorem fileInfoFor_eq (hforked : pf.forked.lookup ⟨span.ns, span.pid⟩ = none) :
    pf.fileInfoFor span = (generationAt (chain pf span.ns span.pid) span.endTime).map
        Generation.fileInfo := by
  rw [fileInfoFor, chain, hforked]
  cases pf.entry span.ns span.pid with
  | none => rfl
  | some info =>
    rw [Option.bind_some, Option.map_some, Option.getD_some]
    cases generationAt info.generations span.endTime with
    | none | some g => rfl

theorem fileInfoFor_of_tracks
    (htrk : Tracks c (h.holders span.ns span.pid).reverse (chain pf span.ns span.pid))
    (hforked : pf.forked.lookup ⟨span.ns, span.pid⟩ = none) (ht : horizon c < span.endTime) :
    pf.fileInfoFor span = h.ownerAt span.ns span.pid span.endTime := by
  rw [fileInfoFor_eq hforked, generationAt_of_tracks ht htrk, firstOutlasting,
    reverse_reverse, History.ownerAt]

/-- In a run in which `BlockPID` goes through no PID of another live process, a
span within the retention is filed under the process that held its PID when it
ended, and pruning does not change that. -/
theorem span_filed_under_holder (calls : List (PidCall F))
    (hrun : Along PidWorld.step (fun w call => Admissible w call ∧ Spares w call)
      PidWorld.init calls)
    {w : PidWorld F} (hw : w = calls.foldl PidWorld.step PidWorld.init) (span : PidSpan)
    {now : Int} (hclock : w.clock ≤ now) (ht : now - pidRemovalRetention ≤ span.endTime)
    (hforked : w.filter.forked.lookup ⟨span.ns, span.pid⟩ = none) :
    w.filter.fileInfoFor span = w.history.ownerAt span.ns span.pid span.endTime ∧
      ∀ c, w.clock ≤ c → c ≤ now → (w.filter.pruneExpired c).fileInfoFor span =
          w.history.ownerAt span.ns span.pid span.endTime := by
  have htrk := (hw ▸ coherent_run hrun).tracks span.ns span.pid
  have hlate : ∀ c, c ≤ now → horizon c < span.endTime := by
    intro c hc
    unfold horizon
    omega
  refine ⟨fileInfoFor_of_tracks htrk hforked (hlate _ hclock), ?_⟩
  intro c hc hle
  have hprun : Tracks c (w.history.holders span.ns span.pid).reverse
      (chain (w.filter.pruneExpired c) span.ns span.pid) := by
    rw [chain, entry_pruneExpired, generations_prune]
    exact (htrk.mono hc).takeWhile
  exact fileInfoFor_of_tracks hprun hforked (hlate c hle)

/-- Two processes have the PID 5 one after the other. -/
def reuseCalls : List (PidCall Nat) :=
  [.allowPID 100 7 1 1 (some [100, 5]), .blockPID 100 7 10 10,
   .allowPID 200 7 2 1 (some [200, 5]), .blockPID 200 7 20 20]

theorem span_filed_under_holder_reuse :
    (reuseCalls.foldl PidWorld.step PidWorld.init).filter.fileInfoFor ⟨7, 5, 10⟩ = some 1 ∧
      (reuseCalls.foldl PidWorld.step PidWorld.init).filter.fileInfoFor ⟨7, 5, 15⟩ = some 2 := by
  have hrun : Along PidWorld.step (fun w call => Admissible w call ∧ Spares w call)
      PidWorld.init reuseCalls := by
    decide +kernel
  have hclock : (reuseCalls.foldl PidWorld.step PidWorld.init).clock ≤ 25 := by decide +kernel
  have hforked : (reuseCalls.foldl PidWorld.step PidWorld.init).filter.forked.lookup ⟨7, 5⟩ =
      none := by
    decide +kernel
  have hold := (span_filed_under_holder reuseCalls hrun rfl ⟨7, 5, 10⟩ hclock (by decide) hforked).1
  have hnew := (span_filed_under_holder reuseCalls hrun rfl ⟨7, 5, 15⟩ hclock (by decide) hforked).1
  exact ⟨hold.trans (by decide +kernel), hnew.trans (by decide +kernel)⟩

/-- The PID 100 is registered with 5, blocked, and 5 goes to another process. A
new process 100 dies before its PIDs can be read, and is blocked. -/
def staleCalls : List (PidCall Nat) :=
  [.allowPID 100 7 1 1 (some [100, 5]), .blockPID 100 7 10 10,
   .allowPID 200 7 2 1 (some [200, 5]), .allowPID 100 7 3 1 none, .blockPID 100 7 20 20]

/-- The last call follows the PIDs filed with the entry of the first process
and marks the second as removed, though it lives. -/
theorem stale_block_takes_span : Along PidWorld.step Admissible PidWorld.init staleCalls ∧
      (staleCalls.foldl PidWorld.step PidWorld.init).clock ≤ 30 ∧
      (staleCalls.foldl PidWorld.step PidWorld.init).filter.forked.lookup ⟨7, 5⟩ = none ∧
      (staleCalls.foldl PidWorld.step PidWorld.init).history.ownerAt 7 5 30 = some 2 ∧
      (staleCalls.foldl PidWorld.step PidWorld.init).filter.fileInfoFor ⟨7, 5, 30⟩ = none := by
  decide +kernel

end Obi.Refine
