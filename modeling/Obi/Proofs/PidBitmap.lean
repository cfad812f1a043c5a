import Mathlib.Data.Nat.Bitwise
import Obi.Ref.PidBitmap

/-!
# The bitmap of PIDs mirrors the kernel's

A word is wanted with the bits of the filter's PIDs in it, or cleared. The loop that writes
changes the bitmap and the map alike, and each word to what is wanted or not at all.
-/

namespace Obi.Refine
open Lib Ref PIDBitmap List
variable {b : PIDBitmap} {s : PIDBitmap × (Nat → Nat)}

theorem containsPID_iff {pid : Nat} : b.contains pid = true ↔
    pid < pidBitmapWords * 64 ∧ (b.words (pid / 64)).testBit (pid % 64) = true := by
  have hlt : pid / 64 < pidBitmapWords ↔ pid < pidBitmapWords * 64 := by omega
  rw [PIDBitmap.contains, Nat.one_shiftLeft, Nat.and_two_pow]
  cases (b.words (pid / 64)).testBit (pid % 64) <;> simp [hlt]

/-- What the loop over the PIDs makes of `want` and `added`. -/
theorem wantPIDs_spec (pids : List Nat) (s : Table Nat Nat × List PID) :
    (∀ word i, (((pids.foldl b.wantPID s).1.lookup word).getD 0).testBit i = true ↔
      ((s.1.lookup word).getD 0).testBit i = true ∨
        word < pidBitmapWords ∧ i < 64 ∧ word * 64 + i ∈ pids) ∧
    (pids.foldl b.wantPID s).2 = s.2 ++ pids.filter fun pid =>
      decide (pid < pidBitmapWords * 64) && !b.contains pid := by
  induction pids generalizing s with
  | nil => simp
  | cons pid rest ih =>
    obtain ⟨hwant, hadded⟩ := ih (b.wantPID s pid)
    simp only [foldl_cons, hadded, hwant]
    rw [wantPID]
    split
    · next hbeyond =>
      refine ⟨fun word i => ?_, ?_⟩
      · have hne : word < pidBitmapWords → i < 64 → word * 64 + i ≠ pid := by omega
        simp only [mem_cons]
        tauto
      · rw [filter_cons_of_neg (by simpa using fun h => absurd h (not_lt.mpr hbeyond))]
    · next hlt =>
      refine ⟨fun word i => ?_, ?_⟩
      · by_cases hword : word = pid / 64
        · have hbit : pid % 64 = i ↔ word < pidBitmapWords ∧ i < 64 ∧ word * 64 + i = pid := by
            omega
          simp only [hword, Table.get_insert, if_true, Option.getD_some, Nat.testBit_or,
            Nat.one_shiftLeft, Nat.testBit_two_pow, Bool.or_eq_true, decide_eq_true_eq, mem_cons]
          rw [← hword, hbit]
          tauto
        have hne : i < 64 → word * 64 + i ≠ pid := by omega
        simp only [Table.get_insert, if_neg hword, mem_cons]
        tauto
      · cases hin : b.contains pid <;> simp [hin, Nat.lt_of_not_le hlt]

/-- The loop over the words clears the set ones that no PID wants. -/
theorem wantClears_spec (words : List Nat) (want : Table Nat Nat) (word : Nat) :
    (words.foldl b.wantClear want).lookup word =
      if word ∈ words ∧ b.words word ≠ 0 ∧ want.lookup word = none then some 0
      else want.lookup word := by
  induction words generalizing want with
  | nil => simp
  | cons w rest ih =>
    rw [foldl_cons, ih, wantClear]
    by_cases hw : word = w
    · subst hw
      split
      · next hclr => simp [hclr]
      · next hclr => rw [if_neg fun h => hclr h.2, if_neg fun h => hclr h.2]
    · split <;> simp [hw]

/-- The bitmap and the map stay equal, a word is written as it is wanted, and all are if no
write fails. -/
theorem putWords_spec (fails : Nat → Bool) {l : List (Σ _ : Nat, Nat)} (hl : l.NodupKeys)
    (hs : s.1.words = s.2) :
    (putWords fails l s).1.1.words = (putWords fails l s).1.2 ∧
      (∀ word, (putWords fails l s).1.1.words word = s.1.words word ∨
        ⟨word, (putWords fails l s).1.1.words word⟩ ∈ l) ∧
      ((putWords fails l s).2 = none → ∀ e ∈ l, (putWords fails l s).1.1.words e.1 = e.2) := by
  induction l generalizing s with
  | nil => simp [putWords, hs]
  | cons e rest ih =>
    obtain ⟨hfst, hrest⟩ := nodupKeys_cons.mp hl
    have hout : ∀ v, (⟨e.1, v⟩ : Σ _ : Nat, Nat) ∉ rest := fun v hv =>
      hfst (mem_keys_of_mem (s := ⟨e.1, v⟩) hv)
    rw [putWords]
    split
    · next hsame =>
      obtain ⟨hmir, hwords, hall⟩ := ih hrest hs
      refine ⟨hmir, fun word => (hwords word).imp_right (mem_cons_of_mem _), fun hok => ?_⟩
      refine forall_mem_cons.mpr ⟨?_, hall hok⟩
      rw [(hwords e.1).resolve_right (hout _), hsame]
    split
    · exact ⟨hs, fun word => .inl rfl, nofun⟩
    obtain ⟨hmir, hwords, hall⟩ := ih hrest (s := (⟨Function.update s.1.words e.1 e.2⟩,
      Function.update s.2 e.1 e.2)) (by rw [hs])
    have hput := ((hwords e.1).resolve_right (hout _)).trans (Function.update_self ..)
    refine ⟨hmir, fun word => ?_, fun hok => forall_mem_cons.mpr ⟨hput, hall hok⟩⟩
    by_cases hword : word = e.1
    · rw [hword, hput]
      exact .inr mem_cons_self
    · exact (hwords word).imp (·.trans (Function.update_of_ne hword ..)) (mem_cons_of_mem _)

/-- What a rebuild writes is what it wants. -/
theorem rebuild_spec (reads : RebuildReads) (hs : s.1.words = s.2) : ∃ want : Table Nat Nat,
      (∀ word i, ((want.lookup word).getD 0).testBit i = true ↔
        word < pidBitmapWords ∧ i < 64 ∧ word * 64 + i ∈ reads.pids) ∧
      (∀ word < pidBitmapWords, want.lookup word = none → s.1.words word = 0) ∧
      (rebuild s reads).1.1.words = (rebuild s reads).1.2 ∧
      (∀ word, (rebuild s reads).1.1.words word = s.1.words word ∨
        want.lookup word = some ((rebuild s reads).1.1.words word)) ∧
      ((rebuild s reads).2.2 = none → ∀ word bits, want.lookup word = some bits →
        (rebuild s reads).1.1.words word = bits) ∧
      (rebuild s reads).2.1 = (reads.pids.filter fun pid =>
        decide (pid < pidBitmapWords * 64) && !s.1.contains pid).filter
          (rebuild s reads).1.1.contains := by
  obtain ⟨hwant, hadded⟩ := wantPIDs_spec (b := s.1) reads.pids (∅, [])
  have hclr := wantClears_spec (b := s.1) (range pidBitmapWords)
    (reads.pids.foldl s.1.wantPID (∅, [])).1
  simp only [rebuild]
  generalize (range pidBitmapWords).foldl s.1.wantClear _ = want at hclr ⊢
  have hperm := reads.perm want.entries
  obtain ⟨hmir, hwords, hall⟩ := putWords_spec reads.putFails
    ((perm_nodupKeys hperm).mpr want.nodupKeys) hs
  refine ⟨want, fun word i => ?_, fun word hword hnone => ?_, hmir, fun word =>
    (hwords word).imp_right fun h => AList.mem_lookup_iff.mpr (hperm.mem_iff.mp h),
    fun hok word bits h => ?_, ?_⟩
  · have hbits := hwant word i
    rw [hclr word]
    split <;> simp_all
  · by_contra hset
    rw [hclr word] at hnone
    split at hnone <;> simp_all
  · exact hall hok ⟨word, bits⟩ (hperm.mem_iff.mpr (AList.mem_lookup_iff.mp h))
  · rw [hadded]
    rfl

/-- After every rebuild the bitmap is what the map has; without an error just the bits of the
filter's PIDs are set; and the PIDs returned are those whose bit the rebuild has set. -/
theorem rebuild_mirrors (calls : List RebuildReads) (reads : RebuildReads) :
    let s := calls.foldl (fun s reads => (rebuild s reads).1) (⟨fun _ => 0⟩, fun _ => 0)
    let after := rebuild s reads
    after.1.1.words = after.1.2 ∧
    (after.2.2 = none → ∀ word < pidBitmapWords, ∀ i,
      (after.1.1.words word).testBit i = true ↔ i < 64 ∧ word * 64 + i ∈ reads.pids) ∧
    after.2.1.Nodup ∧
    ∀ pid, pid ∈ after.2.1 ↔ s.1.contains pid = false ∧ after.1.1.contains pid = true := by
  intro s
  have hs : s.1.words = s.2 := by
    refine foldlRecOn (motive := fun s : PIDBitmap × (Nat → Nat) => s.1.words = s.2) calls _ rfl
      fun s hs reads _ => ?_
    obtain ⟨want, -, -, hmir, -⟩ := rebuild_spec reads hs
    exact hmir
  obtain ⟨want, hwant, hnone, hmir, hwords, hall, hadded⟩ := rebuild_spec reads hs
  refine ⟨hmir, fun hok word hword i => ?_, ?_, fun pid => ?_⟩
  · have hbits : (rebuild s reads).1.1.words word = (want.lookup word).getD 0 := by
      cases hlook : want.lookup word with
      | none =>
        rcases hwords word with h | h
        · rw [h, hnone word hword hlook]
          rfl
        · rw [hlook] at h
          cases h
      | some bits => exact hall hok word bits hlook
    rw [hbits, hwant]
    exact and_iff_right hword
  · rw [hadded]
    exact (reads.nodup.filter _).filter _
  · rw [hadded, mem_filter, mem_filter, Bool.and_eq_true, decide_eq_true_eq, Bool.not_eq_true']
    refine ⟨fun h => ⟨h.1.2.2, h.2⟩, fun ⟨hbef, haft⟩ => ⟨⟨?_, ?_, hbef⟩, haft⟩⟩
    · obtain ⟨-, hbit⟩ := containsPID_iff.mp haft
      rcases hwords (pid / 64) with h | h
      · rw [h] at hbit
        rw [← Bool.not_eq_true, containsPID_iff] at hbef
        exact absurd ⟨(containsPID_iff.mp haft).1, hbit⟩ hbef
      have hin := (hwant (pid / 64) (pid % 64)).mp (by rw [h]; exact hbit)
      rw [Nat.div_add_mod'] at hin
      exact hin.2.2
    · exact (containsPID_iff.mp haft).1

end Obi.Refine
