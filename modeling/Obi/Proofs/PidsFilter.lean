import Obi.Ref.PidsFilter

/-!
# What a call does to an entry

Every operation of the filter goes through a table of tables; here each is
brought down to what it does to the entry of one PID in one namespace. At the
end, what `BlockPID` does to the entries of other processes.
-/

namespace Obi.Refine
open Lib Ref PIDsFilter Table Option
variable {F : Type} {pf : PIDsFilter F}

/-! ## Registering -/

/-- A PID that comes up twice in one list is registered once. -/
theorem registerPID_registerPID (old : Option (PIDInfo F)) (fi : F) (t : UInt8) (pids : List PID) :
    registerPID (some (registerPID old fi t pids)) fi t pids = registerPID old fi t pids := by
  have hor : ∀ a : UInt8, a ||| t ||| t = a ||| t := fun a => by rw [UInt8.or_assoc, UInt8.or_self]
  cases old with
  | none => simp [registerPID]
  | some info =>
    by_cases hrem : info.removedAt = 0
    · simp [registerPID, hrem, hor]
    · simp [registerPID, hrem]

theorem lookup_registerAll (fi : F) (t : UInt8) (pids l : List PID)
    (ns : Table PID (PIDInfo F)) (q : PID) :
    (l.foldl (fun ns p => ns.insert p (registerPID (ns.lookup p) fi t pids)) ns).lookup q =
      if q ∈ l then some (registerPID (ns.lookup q) fi t pids) else ns.lookup q := by
  refine lookup_foldl (g := fun old => some (registerPID old fi t pids)) ?_ ?_ l ns q
  · intro ns p q
    rw [get_insert]
    by_cases hqp : q = p
    · subst hqp
      rw [if_pos rfl]
    · rw [if_neg hqp, if_neg hqp]
  · intro old
    rw [registerPID_registerPID]

theorem entry_addPID (pid : PID) (nsid : Nat) (fi : F) (t : UInt8) (pids : List PID) (ns : Nat)
    (q : PID) :
    (pf.addPID pid nsid fi t (some pids)).entry ns q =
      if ns = nsid ∧ q ∈ pids then some (registerPID (pf.entry ns q) fi t pids)
      else pf.entry ns q := by
  simp only [addPID, entry, get_insert]
  by_cases hns : ns = nsid
  · subst hns
    rw [if_pos rfl, bind_some, lookup_registerAll]
    cases pf.current.lookup ns with
    | none | some pids => simp
  · rw [if_neg hns, if_neg fun h => hns h.1]

/-- A registration whose PIDs cannot be read changes no entry. -/
theorem entry_addPID_none (pid : PID) (nsid : Nat) (fi : F) (t : UInt8) (ns : Nat) (q : PID) :
    (pf.addPID pid nsid fi t none).entry ns q = pf.entry ns q := by
  simp only [addPID, entry, get_insert]
  by_cases hns : ns = nsid
  · subst hns
    rw [if_pos rfl]
    cases pf.current.lookup ns with
    | none => simp
    | some pids => rfl
  · rw [if_neg hns]

/-! ## Marking and pruning -/

variable (now : Int)

def PIDInfo.marked (info : PIDInfo F) : PIDInfo F :=
  if info.removedAt = 0 then { info with removedAt := now } else info

theorem map_marked_map_marked (old : Option (PIDInfo F)) :
    (old.map (PIDInfo.marked now)).map (PIDInfo.marked now) = old.map (PIDInfo.marked now) := by
  cases old with
  | none => rfl
  | some info =>
    simp only [map_some, PIDInfo.marked]
    by_cases h : info.removedAt = 0 <;> simp [h]

theorem lookup_markAsRemoved (ns : Table PID (PIDInfo F)) (p q : PID) :
    (markAsRemoved now ns p).lookup q =
      if q = p then (ns.lookup q).map (PIDInfo.marked now) else ns.lookup q := by
  unfold markAsRemoved
  cases hp : ns.lookup p with
  | none =>
    by_cases hqp : q = p
    · subst hqp
      simp [hp]
    · rw [if_neg hqp]
  | some info =>
    simp only []
    split
    · next hrem =>
      rw [get_insert]
      by_cases hqp : q = p
      · subst hqp
        rw [if_pos rfl, if_pos rfl, hp, map_some, PIDInfo.marked, if_pos hrem]
      · rw [if_neg hqp, if_neg hqp]
    · next hrem =>
      by_cases hqp : q = p
      · subst hqp
        rw [if_pos rfl, hp, map_some, PIDInfo.marked, if_neg hrem]
      · rw [if_neg hqp]

theorem lookup_markAll (ns : Table PID (PIDInfo F)) (l : List PID) (q : PID) :
    (l.foldl (markAsRemoved now) ns).lookup q =
      if q ∈ l then (ns.lookup q).map (PIDInfo.marked now) else ns.lookup q :=
  lookup_foldl (lookup_markAsRemoved now) (map_marked_map_marked now) l ns q

theorem entry_pruneExpired (ns : Nat) (q : PID) :
    (pf.pruneExpired now).entry ns q = (pf.entry ns q).bind (PIDInfo.prune now) := by
  simp only [pruneExpired, entry, lookup_filterMap]
  cases pf.current.lookup ns with
  | none => rfl
  | some pids =>
    simp only [bind_some]
    by_cases hemp : (pids.filterMap fun _ info => info.prune now).entries.isEmpty = true
    · -- a namespace that is dropped has no entry left
      have hnone : (pids.filterMap fun _ info => info.prune now).lookup q = none := by
        rw [AList.lookup, List.isEmpty_iff.mp hemp]
        rfl
      rw [if_pos hemp, ← lookup_filterMap (fun _ info => info.prune now) pids q, hnone]
      rfl
    · rw [if_neg hemp, bind_some, lookup_filterMap]

/-- The PIDs `BlockPID` goes through: its own, and those filed with the entry
it finds there. -/
def PIDsFilter.touched (pf : PIDsFilter F) (pid : PID) (ns : Nat) : List PID :=
  pid :: ((pf.entry ns pid).map fun info => info.otherKnownPids).getD []

/-- `BlockPID` in a namespace the filter does not know changes nothing. In the
others it marks the PIDs it goes through and drops what has expired. -/
theorem entry_removePID (pid : PID) (nsid : Nat) (now later : Int) :
    (∀ ns q, (pf.removePID pid nsid now later).entry ns q = pf.entry ns q ∧
        pf.entry nsid q = none) ∨
      ∀ ns q, (pf.removePID pid nsid now later).entry ns q =
        (if ns = nsid ∧ q ∈ PIDsFilter.touched pf pid nsid then
          (pf.entry ns q).map (PIDInfo.marked now)
        else pf.entry ns q).bind (PIDInfo.prune later) := by
  cases hns : pf.current.lookup nsid with
  | none =>
    refine .inl fun ns q => ⟨?_, ?_⟩
    · simp [removePID, hns, entry]
    · simp [entry, hns]
  | some pids =>
    refine .inr fun ns q => ?_
    have hent : pf.entry nsid pid = pids.lookup pid := by simp [entry, hns]
    simp only [removePID, hns, entry_pruneExpired]
    congr 1
    simp only [entry, get_insert]
    by_cases hn : ns = nsid
    · subst hn
      rw [if_pos rfl, bind_some, lookup_markAsRemoved, lookup_markAll, hns]
      rw [PIDsFilter.touched, hent]
      by_cases hq : q = pid
      · subst hq
        rw [if_pos rfl, if_pos (show _ ∧ _ from ⟨rfl, List.mem_cons_self⟩)]
        split
        · exact map_marked_map_marked _ _
        · rfl
      · simp [hq]
    · rw [if_neg hn, if_neg fun h => hn h.1]

/-- The generations of a PID, none when it has no entry. -/
def PIDsFilter.chain (pf : PIDsFilter F) (ns : Nat) (q : PID) : List (Generation F) :=
  ((pf.entry ns q).map PIDInfo.generations).getD []

theorem generations_prune (old : Option (PIDInfo F)) (c : Int) :
    ((old.bind (PIDInfo.prune c)).map PIDInfo.generations).getD [] =
      ((old.map PIDInfo.generations).getD []).takeWhile fun g => !expired g c := by
  cases old with
  | none => rfl
  | some info =>
    rw [bind_some, map_some, getD_some, PIDInfo.generations, List.takeWhile_cons, PIDInfo.prune]
    cases expired info.toGeneration c with
    | true | false => rfl

/-! ## The entries of other processes -/

/-- A process that is allowed: the PID and namespace `AllowPID` got, and its
`FileInfo`. -/
structure AllowedProcess (F : Type) where
  pid : PID
  ns : Nat
  fileInfo : F

/-- The processes allowed after a call. -/
def allowedAfter (allowed : List (AllowedProcess F)) : PidCall F → List (AllowedProcess F)
  | .allowPID pid ns fi _ (some _) =>
    ⟨pid, ns, fi⟩ :: allowed.filter fun a => decide ¬(a.pid = pid ∧ a.ns = ns)
  | .blockPID pid ns _ _ => allowed.filter fun a => decide ¬(a.pid = pid ∧ a.ns = ns)
  | _ => allowed

/-- A live entry that carries the `FileInfo` of an allowed process other than
the one with this PID. -/
def CarriesOther (allowed : List (AllowedProcess F)) (pid : PID) (ns : Nat) (info : PIDInfo F) :
    Prop :=
  info.removedAt = 0 ∧ ∃ a ∈ allowed, ¬(a.pid = pid ∧ a.ns = ns) ∧ a.fileInfo = info.fileInfo

instance [DecidableEq F] (allowed : List (AllowedProcess F)) (pid : PID) (ns : Nat)
    (info : PIDInfo F) : Decidable (CarriesOther allowed pid ns info) := by
  unfold CarriesOther
  infer_instance

/-- The entry is as it was, or has lost the expired generations behind it. -/
def LeftAlone (pf : PIDsFilter F) (later : Int) (ns : Nat) (q : PID) (info : PIDInfo F) : Prop :=
  pf.entry ns q = some info ∨ pf.entry ns q =
      some { info with previous := info.previous.takeWhile fun g => !expired g later }

/-- `ValidPID` and `Filter` accept the PID as that of the entry's process. -/
def Accepts (pf : PIDsFilter F) (ns : Nat) (q : PID) (info : PIDInfo F) : Prop :=
  (∀ t, info.pidTypes &&& t ≠ 0 → pf.validPID q ns t = true) ∧
    ∀ t, (info.since = 0 ∨ t > info.since) → pf.fileInfoFor ⟨ns, q, t⟩ = some info.fileInfo

variable {info : PIDInfo F} {later : Int} {ns : Nat} {q : PID}

theorem prune_of_live (hlive : info.removedAt = 0) (now : Int) : info.prune now =
      some { info with previous := info.previous.takeWhile fun g => !expired g now } := by
  have hnot : ¬ expired info.toGeneration now = true := by simp [expired, hlive]
  rw [PIDInfo.prune, if_neg hnot]

theorem accepts_of_entry {older : List (Generation F)}
    (h : pf.entry ns q = some { info with previous := older }) (hlive : info.removedAt = 0) :
    Accepts pf ns q info := by
  refine ⟨fun t ht => ?_, fun t ht => ?_⟩
  · rw [validPID, h, any_some, PIDInfo.generations]
    simp [ht]
  · have hgen : generationAt (info.toGeneration :: older) t = some info.toGeneration := by
      rw [generationAt, if_neg fun hgone => hgone.1 hlive, if_pos ht]
    rw [fileInfoFor, h, bind_some, PIDInfo.generations, hgen]

theorem LeftAlone.accepts (h : LeftAlone pf later ns q info) (hlive : info.removedAt = 0) :
    Accepts pf ns q info := by
  rcases h with h | h
  · exact accepts_of_entry h hlive
  · exact accepts_of_entry h hlive

/-- A marked entry is not as it was. -/
theorem not_leftAlone_of_marked {now : Int} (hnow : 0 < now) (hlive : info.removedAt = 0)
    (h : pf.entry ns q = (PIDInfo.marked now info).prune later) :
    ¬ LeftAlone pf later ns q info := by
  have hprun : ∀ info', (PIDInfo.marked now info).prune later = some info' →
      info'.removedAt = now := by
    intro info' hp
    rw [PIDInfo.marked, if_pos hlive, PIDInfo.prune] at hp
    split at hp
    · cases hp
    · cases hp
      rfl
  rintro (hsame | hsame)
  · have hrem := hprun _ (h.symm.trans hsame)
    omega
  · have hrem := hprun _ (h.symm.trans hsame)
    rw [hlive] at hrem
    omega

/-- `BlockPID` leaves the live entries of the other allowed processes alone
exactly when it goes through none of them. -/
theorem block_keeps_others_iff [DecidableEq F] (calls : List (PidCall F)) (pid : PID) (ns : Nat)
    {now later : Int} (hnow : 0 < now) :
    (∀ n q info, (calls.foldl PIDsFilter.call (newPIDsFilter F)).entry n q = some info →
        CarriesOther (calls.foldl allowedAfter []) pid ns info →
        LeftAlone ((calls.foldl PIDsFilter.call (newPIDsFilter F)).call
            (.blockPID pid ns now later)) later n q info ∧
          Accepts ((calls.foldl PIDsFilter.call (newPIDsFilter F)).call
            (.blockPID pid ns now later)) n q info) ↔
      ∀ q ∈ PIDsFilter.touched (calls.foldl PIDsFilter.call (newPIDsFilter F)) pid ns,
        ∀ info, (calls.foldl PIDsFilter.call (newPIDsFilter F)).entry ns q = some info →
          ¬ CarriesOther (calls.foldl allowedAfter []) pid ns info := by
  generalize calls.foldl PIDsFilter.call (newPIDsFilter F) = pf
  generalize calls.foldl allowedAfter [] = allowed
  constructor
  · intro hkeep q hq info hent hoth
    obtain ⟨hsame, -⟩ := hkeep ns q info hent hoth
    rcases @entry_removePID F pf pid ns now later with hnone | hmark
    · rw [(hnone ns q).2] at hent
      cases hent
    have haft := hmark ns q
    rw [if_pos ⟨rfl, hq⟩, hent] at haft
    exact not_leftAlone_of_marked hnow hoth.1 haft hsame
  · intro hclr n q info hent hoth
    have hsame : LeftAlone (pf.removePID pid ns now later) later n q info := by
      rcases @entry_removePID F pf pid ns now later with hnone | hmark
      · exact .inl ((hnone n q).1.trans hent)
      have hnot : ¬ (n = ns ∧ q ∈ PIDsFilter.touched pf pid ns) := by
        rintro ⟨rfl, hq⟩
        exact hclr q hq info hent hoth
      have haft := hmark n q
      rw [if_neg hnot, hent, bind_some, prune_of_live hoth.1] at haft
      exact .inr haft
    exact ⟨hsame, hsame.accepts hoth.1⟩

/-- Two processes of one namespace that have no PID in common. -/
def separateCalls : List (PidCall Nat) :=
  [.allowPID 41000 7 1 1 (some [41000, 5]), .allowPID 90000 7 2 1 (some [90000, 6])]

theorem block_keeps_others_iff_sample : (0 : Int) < 1000 ∧
      ∀ n q info, (separateCalls.foldl PIDsFilter.call (newPIDsFilter Nat)).entry n q = some info →
        CarriesOther (separateCalls.foldl allowedAfter []) 41000 7 info →
        LeftAlone ((separateCalls.foldl PIDsFilter.call (newPIDsFilter Nat)).call
            (.blockPID 41000 7 1000 1000)) 1000 n q info ∧
          Accepts ((separateCalls.foldl PIDsFilter.call (newPIDsFilter Nat)).call
            (.blockPID 41000 7 1000 1000)) n q info := by
  refine ⟨by decide, (block_keeps_others_iff separateCalls 41000 7 (by decide)).mpr ?_⟩
  have hall : ∀ q ∈ PIDsFilter.touched
      (separateCalls.foldl PIDsFilter.call (newPIDsFilter Nat)) 41000 7,
      ((separateCalls.foldl PIDsFilter.call (newPIDsFilter Nat)).entry 7 q).all
        (fun info => !decide (CarriesOther (separateCalls.foldl allowedAfter []) 41000 7 info))
          = true := by
    decide +kernel
  intro q hq info hent
  have hinfo := hall q hq
  rw [hent] at hinfo
  simpa using hinfo

/-- Two processes of one namespace: the second is known there under the PID the
first has on the host. -/
def collidingCalls : List (PidCall Nat) :=
  [.allowPID 41000 7 1 1 (some [41000, 5]), .allowPID 90000 7 2 1 (some [90000, 41000])]

/-- Blocking the first takes the second's entry with it: the entry is live and
carries the second's `FileInfo`, and no span of that PID is accepted any more. -/
theorem block_removes_colliding_process :
    ∃ info, (collidingCalls.foldl PIDsFilter.call (newPIDsFilter Nat)).entry 7 41000 = some info ∧
      CarriesOther (collidingCalls.foldl allowedAfter []) 41000 7 info ∧
      (∃ a ∈ allowedAfter (collidingCalls.foldl allowedAfter []) (.blockPID 41000 7 1000 1000),
        a.fileInfo = info.fileInfo) ∧
      ¬ LeftAlone ((collidingCalls.foldl PIDsFilter.call (newPIDsFilter Nat)).call
          (.blockPID 41000 7 1000 1000)) 1000 7 41000 info ∧
      ((collidingCalls.foldl PIDsFilter.call (newPIDsFilter Nat)).call
          (.blockPID 41000 7 1000 1000)).fileInfoFor ⟨7, 41000, 2000⟩ = none := by
  refine ⟨⟨⟨2, 1, [90000, 41000], 0, 0⟩, []⟩, by decide +kernel, by decide +kernel,
    by decide +kernel, ?_, by decide +kernel⟩
  rintro (hsame | hsame)
  · exact absurd hsame (by decide +kernel)
  · exact absurd hsame (by decide +kernel)

end Obi.Refine
