import Obi.Proofs.FrameWalk
import Obi.Proofs.TailCalls

/-!
# A second traceparent is not added to a scanned block

Two traceparent fields invalidate each other, so a frame gets one only after
its header block has been looked through. The scan is spread over three
programs: `find_existing_h2_tp` moves a cursor to the next offset that could
open a field, `validate_h2_tp` looks at that field and either settles the frame
or moves the cursor on, and `create_h2_tp` reads what the two left behind.

`Cleared` is what the cursor stands for: nothing recognisable begins before it,
unless inside a field whose name and length are a traceparent's and whose value
is not. The scan passes over such a field whole. One lemma for each program
says what it does to the cursor, and the rule for a run of the chain puts them
together.
-/

namespace Obi.Refine
open Lib Ref

/-! ## What a header block carries -/

/-- The value of a field `h2_tp_classify` calls adoptable. -/
def tpFieldValue (p : List UInt8) : List UInt8 :=
  if p.getD 1 0 == kH2NlbPlain then p.drop kHpackTpValOffset
  else p.drop kHpackTpValOffsetHuffman

/-- The bytes such a field takes. -/
def tpFieldSize (p : List UInt8) : Nat :=
  if p.getD 1 0 == kH2NlbPlain then kH2TpHpackSize else kH2TpHpackHuffmanSize

/-- The test of `find_first_h2_tp_candidate` at an offset of a block. -/
def candidateAt (block : List UInt8) (i : Nat) : Bool :=
  h2TpIsCandidate (block.getD i 0) (block.getD (i + 1) 0) (block.getD (i + 2) 0)

/-- A traceparent is recognisable at an offset: it is there for certain, or it
can be adopted. -/
def RecognisableAt (block : List UInt8) (i : Nat) : Prop :=
  candidateAt block i = true ∧ (h2TpClassify (block.drop i) = .present ∨
      h2TpClassify (block.drop i) = .adoptable ∧ tpValueDashes (tpFieldValue (block.drop i)) = true)

/-- A field of a traceparent's shape whose value is misspelt. -/
def MalformedAt (block : List UInt8) (t : Nat) : Prop :=
  candidateAt block t = true ∧ h2TpClassify (block.drop t) = .adoptable ∧
    tpValueDashes (tpFieldValue (block.drop t)) = false

/-- The offset lies inside a malformed field that begins before it. -/
def InsideMalformed (block : List UInt8) (i : Nat) : Prop :=
  ∃ t < i, MalformedAt block t ∧ i < t + tpFieldSize (block.drop t)

/-- The scan is done with the offsets before `pos`. -/
def Cleared (block : List UInt8) (pos : Nat) : Prop :=
  ∀ i < pos, RecognisableAt block i → InsideMalformed block i

variable {block : List UInt8} {pos : Nat}

theorem Cleared.zero : Cleared block 0 := fun _ hi => absurd hi (by omega)

variable {pos' start : Nat} {p : List UInt8} {tp : TpInfo} {ans : PullAnswer} {s t : Chain}
  {env : HopEnv} {q : Prog} {s' : Chain} {i size len : Nat} {c : Prog × Chain} {msg : SkMsg}

theorem Cleared.mono (h : Cleared block pos) (hle : pos' ≤ pos) : Cleared block pos' :=
  fun i hi => h i (by omega)

theorem RecognisableAt.classified (h : RecognisableAt block i) :
    h2TpClassify (block.drop i) ≠ .none := by
  intro hnone
  rcases h.2 with h | h
  · rw [hnone] at h; cases h
  · rw [hnone] at h; cases h.1

/-- A field needs ten bytes to be recognised. -/
theorem RecognisableAt.length (h : RecognisableAt block i) : i + 10 ≤ block.length := by
  refine Decidable.byContradiction fun hlt => h.classified ?_
  rw [h2TpClassify]
  simp
  omega

section
variable (h : Cleared block pos)
include h

/-- The cursor moves over offsets where nothing is recognisable. -/
theorem Cleared.advance
    (hno : ∀ i, pos ≤ i → i < pos' → ¬ RecognisableAt block i) : Cleared block pos' := by
  intro i hi hrec
  by_cases hlt : i < pos
  · exact h i hlt hrec
  · exact absurd hrec (hno i (by omega) hi)

/-- A byte where no field is recognised. -/
theorem Cleared.step (hnone : h2TpClassify (block.drop pos) = .none) : Cleared block (pos + 1) := by
  refine h.advance fun i hi hlt hrec => ?_
  have heq : i = pos := by omega
  exact hrec.classified (heq ▸ hnone)

/-- With fewer than ten bytes left the whole block is cleared. -/
theorem Cleared.ending (hend : block.length < pos + 10) : Cleared block pos' :=
  h.advance fun i hi _ hrec => by
    have := hrec.length
    omega

/-- The cursor moves over a malformed field. -/
theorem Cleared.skip (hbad : MalformedAt block pos) :
    Cleared block (pos + tpFieldSize (block.drop pos)) := by
  intro i hi hrec
  rcases lt_trichotomy i pos with hlt | rfl | hgt
  · exact h i hlt hrec
  · rcases hrec.2 with hp | hp
    · rw [hbad.2.1] at hp; cases hp
    · rw [hbad.2.2] at hp; cases hp.2
  · exact ⟨pos, hgt, hbad, hi⟩

end

/-! ## The field under the cursor -/

theorem classify_adoptable (h : h2TpClassify p = .adoptable) :
    if p.getD 1 0 == kH2NlbPlain then kH2TpHpackSize ≤ p.length ∧ h2TpMatchPlain p = true
    else kH2TpHpackHuffmanSize ≤ p.length ∧ h2TpMatchHuffman p = true := by
  unfold h2TpClassify at h
  split at h
  · cases h
  split at h
  · split at h <;> cases h
  split at h
  · next hhuff =>
    rw [eq_of_beq hhuff]
    split at h
    · next hm => exact hm
    · split at h <;> cases h
  split at h
  · next hplain =>
    rw [if_pos hplain.1]
    split at h
    · next hm => exact hm
    · split at h <;> cases h
  · cases h

/-- A field whose shape is right is refused only for its dashes. -/
theorem validateH2Tp_none {nameLen valOffset : Nat} {name : List UInt8}
    (h : validateH2Tp size nameLen valOffset name p tp = none) (hsize : size ≤ p.length)
    (hname : slice p kHpackTpNameOffset nameLen = name)
    (hlen : p.getD (kHpackTpNameOffset + nameLen) 0 = 55) :
    tpValueDashes (p.drop valOffset) = false := by
  rw [validateH2Tp, if_neg (by omega), if_neg (not_not_intro hname), if_neg (not_not_intro hlen),
    decodeTpValue] at h
  split at h
  · next hd => simpa using hd
  · cases h

theorem dashes_of_refused (h : h2TpClassify p = .adoptable)
    (hv : (if p.getD 1 0 == kH2NlbPlain then validateH2TpPlain p tp
      else validateH2TpHuffman p tp) = none) : tpValueDashes (tpFieldValue p) = false := by
  have hm := classify_adoptable h
  rw [tpFieldValue]
  split at hv
  · rw [if_pos ‹_›, h2TpMatchPlain, Bool.and_eq_true] at hm
    rw [if_pos ‹_›]
    exact validateH2Tp_none hv hm.1 (eq_of_beq hm.2.1) (eq_of_beq hm.2.2)
  rw [if_neg ‹_›, h2TpMatchHuffman, Bool.and_eq_true] at hm
  rw [if_neg ‹_›]
  exact validateH2Tp_none hv hm.1 (eq_of_beq hm.2.1) (eq_of_beq hm.2.2)

/-! ## The window and the search in it -/

/-- A window that shows all it was asked for is the rest of the block. -/
theorem pullHpackWindow_shows
    (hmin : 10 ≤ len) (hmax : len ≤ 325) (hin : start + len ≤ msg.size) (h : ans.shows len = true) :
    pullHpackWindow ans msg start len = some (slice msg.bytes start len) := by
  have hsize := msg.size_lt
  rw [SkMsg.size] at hin
  cases ans with
  | err | null => cases h
  | ok avail =>
    have havail : len ≤ avail := by simpa [PullAnswer.shows] using h
    have hpull : min len (kH2MaxHpackScan + kH2TpHpackSize) = len := min_eq_left hmax
    have hstop : u32 (start + len) = start + len := u32_of_lt (by omega)
    rw [pullHpackWindow, if_neg (by simp only [kH2TpNeedNameHuffman]; omega), hpull]
    simp only [hstop]
    rw [SkMsg.pullData, dif_pos ⟨by omega, hin⟩]
    simp only [SkMsg.mapped, Option.map_some, Option.some.injEq]
    congr 1
    omega

/-- The search passes over no candidate it has the bytes of, and what it stops
at is one. -/
theorem findCandidateFrom_spec {data : List UInt8} (hlen : data.length = len)
    {left : Nat} (hi : i + left ≤ 256) :
    let c := findCandidateFrom data len left i
    (c = 256 ∨ i ≤ c ∧ c + 10 ≤ len ∧ candidateAt data c = true) ∧
      ∀ j, i ≤ j → j < i + left → j < c → j + 10 ≤ len → candidateAt data j = false := by
  induction left generalizing i with
  | zero => exact ⟨.inl rfl, fun j hij hj => absurd hj (by omega)⟩
  | succ left ih =>
    intro c
    have hc : c = findCandidateFrom data len (left + 1) i := rfl
    rw [findCandidateFrom, show kH2TpNeedNameHuffman = 10 from rfl] at hc
    by_cases hsh : i + 10 > len
    · rw [if_pos hsh] at hc
      exact ⟨.inl hc, fun j hij _ _ hj => absurd hj (by omega)⟩
    rw [if_neg hsh, if_neg (by rw [hlen]; exact hsh)] at hc
    by_cases hcand : candidateAt data i = true
    · rw [hc.trans (if_pos hcand)]
      exact ⟨.inr ⟨le_refl i, by omega, hcand⟩, fun j hij _ hj => absurd hj (by omega)⟩
    replace hc := hc.trans (if_neg hcand)
    obtain ⟨hstop, hpast⟩ := ih (i := i + 1) (by omega)
    rw [← hc] at hstop hpast
    refine ⟨hstop.imp_right fun h => ⟨by omega, h.2⟩, fun j hij hj hjc hjl => ?_⟩
    rcases eq_or_lt_of_le hij with rfl | hlt
    · exact Bool.eq_false_iff.mpr hcand
    · exact hpast j hlt (by omega) hjc hjl

theorem candidateAt_drop (block : List UInt8) (n i : Nat) :
    candidateAt (block.drop n) i = candidateAt block (n + i) := by
  simp [candidateAt, add_assoc]

/-! ## The cursor along the chain -/

/-- The header block of the frame a chain works on. -/
def frameBlock (s : Chain) : List UInt8 := slice s.msg.bytes s.ctx.h2HpackOffset s.ctx.h2HpackLen

/-- Two chains work on one frame of one message. -/
structure SameFrame (t s : Chain) : Prop where
  msg : s.msg = t.msg
  frameOffset : s.ctx.h2FrameOffset = t.ctx.h2FrameOffset
  payloadLen : s.ctx.h2PayloadLen = t.ctx.h2PayloadLen
  hpackOffset : s.ctx.h2HpackOffset = t.ctx.h2HpackOffset
  hpackLen : s.ctx.h2HpackLen = t.ctx.h2HpackLen

theorem SameFrame.refl (s : Chain) : SameFrame s s := ⟨rfl, rfl, rfl, rfl, rfl⟩

section
variable (h : SameFrame t s)
include h

theorem SameFrame.symm : SameFrame s t :=
  ⟨h.msg.symm, h.frameOffset.symm, h.payloadLen.symm, h.hpackOffset.symm, h.hpackLen.symm⟩

theorem SameFrame.trans {r : Chain} (h' : SameFrame s r) : SameFrame t r :=
  ⟨h'.msg.trans h.msg, h'.frameOffset.trans h.frameOffset, h'.payloadLen.trans h.payloadLen,
    h'.hpackOffset.trans h.hpackOffset, h'.hpackLen.trans h.hpackLen⟩

theorem SameFrame.frameBlock : frameBlock s = frameBlock t := by
  rw [Refine.frameBlock, Refine.frameBlock, h.msg, h.hpackOffset, h.hpackLen]

/-- The block is short enough to be scanned whole, and all of it is there. -/
structure WholeBlock (s : Chain) : Prop where
  inside : s.ctx.h2HpackOffset + s.ctx.h2HpackLen ≤ s.msg.size
  short : s.ctx.h2HpackLen ≤ 256

theorem SameFrame.wholeBlock (hw : WholeBlock t) : WholeBlock s :=
  ⟨by rw [h.hpackOffset, h.hpackLen, h.msg]; exact hw.inside, by rw [h.hpackLen]; exact hw.short⟩

end

theorem WholeBlock.length (h : WholeBlock s) : (frameBlock s).length = s.ctx.h2HpackLen := by
  have := h.inside
  rw [SkMsg.size] at this
  rw [frameBlock, length_slice]
  omega

/-- What the scan of the block of `t` has established where a program of the
chain is entered. -/
def Scanning (t : Chain) : Prog × Chain → Prop
  | (.findExistingH2Tp, s) =>
    SameFrame t s ∧ (WholeBlock t → Cleared (frameBlock t) s.ctx.h2TpCandidatePos)
  | (.validateH2Tp, s) =>
    SameFrame t s ∧ (WholeBlock t → Cleared (frameBlock t) s.ctx.h2TpCandidatePos ∧
      (s.ctx.h2TpCandidatePos < 256 → candidateAt (frameBlock t) s.ctx.h2TpCandidatePos = true))
  | (.createH2Tp, s) =>
    SameFrame t s ∧ (s.ctx.tpPresent = false → s.ctx.scanExhausted = false →
      WholeBlock t → Cleared (frameBlock t) 256)
  | (.writeH2Traceparent, s) =>
    SameFrame t s ∧ t.ctx.h2HpackLen ≤ 256 ∧ (WholeBlock t → Cleared (frameBlock t) 256)
  | (.detectH2, _) => True
  | _ => False

theorem Scanning.of_sameFrame (h : SameFrame t s) (hs : Scanning t c) : Scanning s c := by
  obtain ⟨p, r⟩ := c
  have hwh : WholeBlock s → WholeBlock t := h.symm.wholeBlock
  cases p <;> simp only [Scanning] at hs ⊢
  case findExistingH2Tp =>
    rw [h.frameBlock]
    exact ⟨h.symm.trans hs.1, fun hw => hs.2 (hwh hw)⟩
  case validateH2Tp =>
    rw [h.frameBlock]
    exact ⟨h.symm.trans hs.1, fun hw => hs.2 (hwh hw)⟩
  case createH2Tp =>
    rw [h.frameBlock]
    exact ⟨h.symm.trans hs.1, fun hp he hw => hs.2 hp he (hwh hw)⟩
  case writeH2Traceparent =>
    rw [h.frameBlock, h.hpackLen]
    exact ⟨h.symm.trans hs.1, hs.2.1, fun hw => hs.2.2 (hwh hw)⟩

/-- Wherever one of the two scanning programs asks for the rest of the block,
it is shown all of it. -/
def ScanShown (v : HopEnv × Prog × Chain) : Prop :=
  v.2.1 = .findExistingH2Tp ∨ v.2.1 = .validateH2Tp →
    kH2TpNeedNameHuffman ≤ v.2.2.ctx.h2HpackLen - v.2.2.ctx.h2TpCandidatePos →
      v.1.scan.shows (v.2.2.ctx.h2HpackLen - v.2.2.ctx.h2TpCandidatePos) = true

/-- What a program that is shown the rest of the block sees from `start` on. -/
theorem WholeBlock.window (h : WholeBlock s) (hmin : start + 10 ≤ s.ctx.h2HpackLen)
    (hshow : ans.shows (s.ctx.h2HpackLen - start) = true) :
    pullHpackWindow ans s.msg (u32 (s.ctx.h2HpackOffset + start)) (s.ctx.h2HpackLen - start) =
      some ((frameBlock s).drop start) := by
  have hin := h.inside
  have hsh := h.short
  have hsize : s.msg.size < 4294967296 := s.msg.size_lt
  rw [u32_of_lt (by omega), pullHpackWindow_shows (by omega) (by omega) (by omega) hshow,
    frameBlock, drop_slice]

theorem WholeBlock.shown (h : WholeBlock s)
    (hshow : kH2TpNeedNameHuffman ≤ s.ctx.h2HpackLen - start →
      ans.shows (s.ctx.h2HpackLen - start) = true) :
    (frameBlock s).length < start + 10 ∨
      pullHpackWindow ans s.msg (u32 (s.ctx.h2HpackOffset + start)) (s.ctx.h2HpackLen - start) =
        some ((frameBlock s).drop start) := by
  by_cases hmin : start + 10 ≤ s.ctx.h2HpackLen
  · exact .inr (h.window hmin (hshow (by simp only [kH2TpNeedNameHuffman]; omega)))
  · exact .inl (by rw [h.length]; omega)

/-- A search from the cursor that passed no candidate clears what it passed. -/
theorem Cleared.search {n : Nat} (h : Cleared block pos)
    (hno : ∀ j < n, j + 10 ≤ (block.drop pos).length → candidateAt (block.drop pos) j = false) :
    Cleared block (pos + n) := by
  refine h.advance fun i hle hlt hrec => ?_
  have hlen := hrec.length
  have hc := hno (i - pos) (by omega) (by rw [List.length_drop]; omega)
  rw [candidateAt_drop, Nat.add_sub_cancel' hle, hrec.1] at hc
  cases hc

theorem candidate_cleared (hw : WholeBlock s) (hstart : Cleared (frameBlock s) start)
    (hshow : 10 ≤ s.ctx.h2HpackLen - start → ans.shows (s.ctx.h2HpackLen - start) = true) :
    let c := findFirstH2TpCandidate ans s.msg (u32 (s.ctx.h2HpackOffset + start))
      (s.ctx.h2HpackLen - start)
    (c = 256 ∧ Cleared (frameBlock s) 256) ∨ start + c < 256 ∧ Cleared (frameBlock s) (start + c) ∧
        candidateAt (frameBlock s) (start + c) = true := by
  intro c
  have hsh := hw.short
  have hlen := hw.length
  by_cases hmin : start + 10 ≤ s.ctx.h2HpackLen
  · have hdrop : ((frameBlock s).drop start).length = s.ctx.h2HpackLen - start := by
      rw [List.length_drop, hlen]
    have hc : c =
        findCandidateFrom ((frameBlock s).drop start) (s.ctx.h2HpackLen - start) 256 0 := by
      show findFirstH2TpCandidate _ _ _ _ = _
      rw [findFirstH2TpCandidate, hw.window hmin (hshow (by omega))]
      rfl
    obtain ⟨hstop, hpast⟩ := findCandidateFrom_spec hdrop (show 0 + 256 ≤ 256 by omega)
    rw [← hc] at hstop hpast
    have hclr : ∀ n ≤ 256, n ≤ c → Cleared (frameBlock s) (start + n) := fun n hn hnc =>
      hstart.search fun j hj hjl => hpast j (by omega) (by omega) (by omega) (by omega)
    rcases hstop with heq | ⟨-, hin, hcand⟩
    · exact .inl ⟨heq, (hclr 256 (by omega) (by omega)).mono (by omega)⟩
    · exact .inr ⟨by omega, hclr c (by omega) (by omega), by rw [← candidateAt_drop]; exact hcand⟩
  · refine .inl ⟨?_, hstart.ending (by omega)⟩
    show findFirstH2TpCandidate _ _ _ _ = _
    rw [findFirstH2TpCandidate, pullHpackWindow,
      if_pos (by simp only [kH2TpNeedNameHuffman]; omega)]
    rfl

theorem setCandidate_sameFrame (s : Chain) (n : Nat) : SameFrame s (s.setCandidate n) :=
  ⟨rfl, rfl, rfl, rfl, rfl⟩

theorem findExisting_scanning
    (hs : Scanning s (.findExistingH2Tp, s)) (hshow : ScanShown (env, .findExistingH2Tp, s))
    (h : findExistingH2Tp env s = (.tailCall q, s')) : Scanning s (q, s') := by
  unfold findExistingH2Tp at h
  simp only [] at h
  split at h
  · cases h
  split at h
  · next hend =>
    cases h
    refine ⟨setCandidate_sameFrame s _, fun hw => ⟨(hs.2 hw).ending ?_, fun hlt => ?_⟩⟩
    · have hlen := hw.length
      have hsh := hw.short
      simp only [kH2MaxHpackScan] at hend
      omega
    · exact absurd hlt (lt_irrefl 256)
  next hgo =>
  generalize hc : findFirstH2TpCandidate _ _ _ _ = c at h
  have hfnd : WholeBlock s → (c = 256 ∧ Cleared (frameBlock s) 256) ∨
        s.ctx.h2TpCandidatePos + c < 256 ∧ Cleared (frameBlock s) (s.ctx.h2TpCandidatePos + c) ∧
          candidateAt (frameBlock s) (s.ctx.h2TpCandidatePos + c) = true := by
    intro hw
    have hsh := hw.short
    rw [min_eq_left (by simp only [kH2MaxHpackScan, kH2TpHpackHuffmanSize] at hgo ⊢; omega)] at hc
    rw [← hc]
    exact candidate_cleared hw (hs.2 hw) (hshow (.inl rfl))
  split at h
  · next hlt =>
    cases h
    refine ⟨setCandidate_sameFrame s _, fun hw => ?_⟩
    rcases hfnd hw with ⟨heq, -⟩ | ⟨-, hcl, hcand⟩
    · exact absurd hlt.1 (by rw [heq]; exact lt_irrefl 256)
    · exact ⟨hcl, fun _ => hcand⟩
  · next hge =>
    cases h
    refine ⟨setCandidate_sameFrame s _, fun hw => ?_⟩
    rcases hfnd hw with ⟨-, hcl⟩ | ⟨hlt, -⟩
    · exact ⟨hcl, fun hlt => absurd hlt (lt_irrefl 256)⟩
    · exact absurd ⟨by simp only [kH2MaxHpackScan]; omega, hlt⟩ hge

/-- The scan is over and the block is clear. -/
theorem Scanning.create (h : WholeBlock s → Cleared (frameBlock s) 256) :
    Scanning s (.createH2Tp, s) :=
  ⟨.refl s, fun _ _ => h⟩

theorem setAppTp_scanning (env : HopEnv) (s : Chain) : Scanning s (.createH2Tp,
      { s with ctx := { s.ctx with tpPresent := true } }.setAppTp env) := by
  obtain ⟨-, hmsg, hctx, -⟩ := setSkFlag_frame
    { s with ctx := { s.ctx with tpPresent := true } } env fun f => { f with appTp := true }
  refine ⟨⟨hmsg, ?_, ?_, ?_, ?_⟩, fun hp => ?_⟩
  all_goals rw [Chain.setAppTp, hctx] at *
  cases hp

theorem retryH2Tp_scanning {next : Nat} (hs : WholeBlock s → Cleared (frameBlock s) next)
    (h : retryH2Tp s next = (.tailCall q, s')) : Scanning s (q, s') := by
  unfold retryH2Tp at h
  split at h
  · next hend =>
    cases h
    exact .create fun hw => (hs hw).mono hend
  split at h
  · cases h
    exact ⟨⟨rfl, rfl, rfl, rfl, rfl⟩, fun _ he => absurd he (by simp)⟩
  · cases h
    exact ⟨⟨rfl, rfl, rfl, rfl, rfl⟩, hs⟩

/-- A refused field is one to pass over. -/
theorem cleared_malformed {target : Nat}
    (hcl : Cleared (frameBlock s) target) (hcand : candidateAt (frameBlock s) target = true)
    (hadopt : h2TpClassify ((frameBlock s).drop target) = .adoptable)
    (hdash : tpValueDashes (tpFieldValue ((frameBlock s).drop target)) = false)
    (hsize : tpFieldSize ((frameBlock s).drop target) = size) :
    Cleared (frameBlock s) (target + size) := by
  rw [← hsize]
  exact hcl.skip ⟨hcand, hadopt, hdash⟩

theorem validateProg_scanning
    (hs : Scanning s (.validateH2Tp, s)) (hshow : ScanShown (env, .validateH2Tp, s))
    (h : validateH2TpProg env s = (.tailCall q, s')) : Scanning s (q, s') := by
  unfold validateH2TpProg at h
  simp only [] at h
  split at h
  · cases h
  split at h
  · next hend =>
    cases h
    exact .create fun hw => (hs.2 hw).1.mono hend
  next hlt =>
  split at h
  · cases h
  split at h
  · next hend =>
    cases h
    refine .create fun hw => (hs.2 hw).1.ending ?_
    rw [hw.length]
    omega
  have hshown : ∀ hw : WholeBlock s, _ := fun hw => hw.shown (hshow (.inr rfl))
  split at h
  · next hpull =>
    cases h
    refine .create fun hw => (hs.2 hw).1.ending ((hshown hw).resolve_right ?_)
    rw [hpull]
    exact nofun
  next data hpull =>
  -- either the block ends at the cursor, or `data` is the rest of it
  have settle : ∀ n, (WholeBlock s → data = (frameBlock s).drop s.ctx.h2TpCandidatePos →
      Cleared (frameBlock s) n) → WholeBlock s → Cleared (frameBlock s) n := by
    intro n hn hw
    rcases hshown hw with hend | hsome
    · exact (hs.2 hw).1.ending hend
    · exact hn hw (Option.some.inj (hpull.symm.trans hsome))
  split at h
  · next hsh =>
    cases h
    refine .create (settle 256 fun hw heq => (hs.2 hw).1.ending ?_)
    rw [heq, List.length_drop] at hsh
    simp only [kH2TpNeedNameHuffman] at hsh
    omega
  have hcand : WholeBlock s → candidateAt (frameBlock s) s.ctx.h2TpCandidatePos = true :=
    fun hw => (hs.2 hw).2 (by simpa using hlt)
  split at h
  · next hnone =>
    refine retryH2Tp_scanning (settle _ fun hw heq => ?_) h
    rw [heq] at hnone
    exact (hs.2 hw).1.step hnone
  · cases h
    exact setAppTp_scanning env s
  · next hadopt =>
    split at h
    · next hplain =>
      split at h
      · cases h
        trivial
      · next href =>
        refine retryH2Tp_scanning (settle _ fun hw heq => ?_) h
        subst heq
        exact cleared_malformed (hs.2 hw).1 (hcand hw) hadopt
          (dashes_of_refused hadopt (by rw [if_pos hplain]; exact href)) (if_pos hplain)
    · next hhuff =>
      split at h
      · cases h
        trivial
      · next href =>
        refine retryH2Tp_scanning (settle _ fun hw heq => ?_) h
        subst heq
        exact cleared_malformed (hs.2 hw).1 (hcand hw) hadopt
          (dashes_of_refused hadopt (by rw [if_neg hhuff]; exact href)) (if_neg hhuff)

/-- What an `allow` of `create_h2_tp` says about the scan. -/
theorem allow_scanned {f : H2InjectFacts} (h : h2InjectVerdict f = .allow) :
    f.frameTpPresent = false ∧ f.scanIncomplete = false := by
  unfold h2InjectVerdict at h
  split at h
  · cases h
  · grind

theorem createH2Tp_scanning
    (hs : Scanning s (.createH2Tp, s)) (h : createH2Tp env s = (.tailCall q, s')) :
    Scanning s (q, s') := by
  unfold createH2Tp at h
  simp only [] at h
  split at h
  · cases h
  split at h
  · cases h
    trivial
  next hallow =>
  obtain ⟨hpres, hscan⟩ := allow_scanned (not_not.mp hallow)
  simp only [Bool.or_eq_false_iff, decide_eq_false_iff_not] at hscan
  generalize (getTpInfoPid env.outgoing s.ctx.pConn.pid).filter _ = existing at h
  obtain ⟨hmsg, -, -, parentTp, hctx⟩ := chooseH2Tp_frame env { s with tpInfo := .zero } existing
  split at h
  · cases h
    refine ⟨⟨hmsg, ?_, ?_, ?_, ?_⟩, le_of_not_gt hscan.2, hs.2 hpres hscan.1⟩
    all_goals rw [hctx]
  · cases h

theorem writeH2Tp_scanning (h : writeH2Tp env s = (.tailCall q, s')) : Scanning s (q, s') := by
  have hend := (writeH2Tp_end env s).tail q (by rw [h])
  rcases hend with ⟨hq, -⟩ | ⟨rfl, -⟩
  · cases hq
  · trivial

/-- One hop of the chain, before it goes on to the next frame. -/
theorem chainStep_scanning {c' : Prog × Chain}
    (hc : Scanning t c) (hshow : ScanShown (env, c)) (hgo : c.1 ≠ .detectH2)
    (h : chainStep env c = some c') : Scanning t c' := by
  obtain ⟨p, s⟩ := c
  have hrun := chainStep_eq_some h
  cases p <;> simp only [runProg] at hrun
  case findExistingH2Tp =>
    exact .of_sameFrame hc.1.symm (findExisting_scanning (.of_sameFrame hc.1 hc) hshow hrun)
  case validateH2Tp =>
    exact .of_sameFrame hc.1.symm (validateProg_scanning (.of_sameFrame hc.1 hc) hshow hrun)
  case createH2Tp =>
    exact .of_sameFrame hc.1.symm (createH2Tp_scanning (.of_sameFrame hc.1 hc) hrun)
  case writeH2Traceparent => exact .of_sameFrame hc.1.symm (writeH2Tp_scanning hrun)
  case detectH2 => exact absurd rfl hgo
  all_goals exact absurd hc id

/-! ## What reaches the write -/

/-- The hops a frame takes from the first program of the inject chain on, up to
the return to `detect_h2`. -/
def frameHops (inp : Nat → HopEnv) (limit k : Nat) (t : Chain) : List (HopEnv × Prog × Chain) :=
  (visited chainStep inp limit k (.findExistingH2Tp, t)).takeWhile fun v =>
    decide (v.2.1 ≠ .detectH2)

theorem frameHops_scanning {inp : Nat → HopEnv} {limit k : Nat}
    (ht : t.ctx.h2TpCandidatePos = 0) (hshown : ∀ v ∈ frameHops inp limit k t, ScanShown v) :
    ∀ v ∈ frameHops inp limit k t, Scanning t v.2 :=
  visited_takeWhile_forall
    (fun _ _ _ hc hshow hgo h => chainStep_scanning hc hshow (of_decide_eq_true hgo) h)
    limit k ⟨.refl t, fun _ => by rw [ht]; exact .zero⟩ hshown

/-- The header block of a frame lies in its payload. -/
theorem frameAt_block {ans : ParseAnswers} {f : H2FrameInfo}
    (h : parseH2FrameAt ans msg pos size = some f) (hend : f.isHeadersEnd = true) :
    f.hpackOffset + f.hpackLen ≤ pos + 9 + f.payloadLen := by
  unfold parseH2FrameAt at h
  split at h
  · cases h
  split at h
  · next d hd =>
    simp only [] at h
    split at h
    · cases h
    split at h
    · next hnot =>
      cases h
      exact absurd hend hnot
    split at h
    · cases h
    split at h
    · cases h
    · next hpad =>
      cases h
      have hle := u32_le (pos + 9 + h2HpackPrefixLen (frameInfoOf d).flags)
      simp only [kH2FrameHeaderLen]
      omega
  · cases h

theorem HandedOver.inside (h : HandedOver t)
    (hcomp : t.ctx.h2FrameOffset + 9 + t.ctx.h2PayloadLen ≤ t.msg.size) :
    t.ctx.h2HpackOffset + t.ctx.h2HpackLen ≤ t.msg.size := by
  obtain ⟨ans, f, hprs, hend, hpay, hoff, hlen⟩ := h.frame
  have hblk := frameAt_block hprs hend
  omega

theorem detectH2_handedOver
    (h : detectH2 env s = (.tailCall .findExistingH2Tp, t)) : HandedOver t := by
  obtain ⟨-, -, ⟨hq, -⟩ | ⟨-, p0, p, -, -, -, hscan⟩⟩ := detectH2_tail h
  · cases hq
  rcases hscan.tail _ rfl with ⟨hq, -⟩ | ⟨-, -, ht⟩
  · cases hq
  · exact ht

/-- A frame the chain commits a traceparent to carried none that could be
recognised, unless inside a malformed one: that one is passed over whole, and
the field goes in beside it. -/
theorem injected_block_carried_no_traceparent {env : HopEnv} {s t : Chain}
    {inp : Nat → HopEnv} {limit k : Nat} {v : HopEnv × Prog × Chain}
    (hdetect : detectH2 env s = (.tailCall .findExistingH2Tp, t))
    (hshown : ∀ v ∈ frameHops inp limit k t, ScanShown v)
    (hv : v ∈ frameHops inp limit k t) (hwrite : v.2.1 = .writeH2Traceparent)
    (hcommit : WriteCommits v.1 v.2.2) {i : Nat} (hrec : RecognisableAt (frameBlock t) i) :
    InsideMalformed (frameBlock t) i := by
  have ht := detectH2_handedOver hdetect
  have hscan := frameHops_scanning ht.candidatePos hshown v hv
  obtain ⟨wenv, p, w⟩ := v
  cases hwrite
  obtain ⟨hsame, hsh, hclr⟩ := hscan
  obtain ⟨-, hcomp, -⟩ := bounds_of_committed hcommit.2
  rw [hsame.frameOffset, hsame.payloadLen, hsame.msg] at hcomp
  have hwh : WholeBlock t := ⟨ht.inside hcomp, hsh⟩
  have hlen := hrec.length
  rw [hwh.length] at hlen
  exact hclr hwh i (by omega) hrec

instance : DecidablePred ScanShown := fun v => by
  unfold ScanShown
  infer_instance

/-- A request whose traceparent has one character too many before its first
dash: `700-4bf92f3577b34da6a3ce929d0e0e4736-00f067aa0ba902b7-0`. Read from the
length-like `7` on, the value is the value of an indexed field. -/
def malformedBlock : List UInt8 :=
  [0x82, 0x00, 0x0b] ++ kHpackTpName ++ [55] ++
    [0x37, 0x30, 0x30, 0x2d, 0x34, 0x62, 0x66, 0x39, 0x32, 0x66, 0x33, 0x35, 0x37, 0x37, 0x62,
      0x33, 0x34, 0x64, 0x61, 0x36, 0x61, 0x33, 0x63, 0x65, 0x39, 0x32, 0x39, 0x64, 0x30, 0x65,
      0x30, 0x65, 0x34, 0x37, 0x33, 0x36, 0x2d, 0x30, 0x30, 0x66, 0x30, 0x36, 0x37, 0x61, 0x61,
      0x30, 0x62, 0x61, 0x39, 0x30, 0x32, 0x62, 0x37, 0x2d, 0x30] ++ [0x84]

def malformedChain : Chain :=
  { cfg := ⟨true, true, true⟩
    msg := ⟨[0, 0, 71, kH2FrameHeaders, 0x05, 0, 0, 0, 1] ++ malformedBlock, none, by decide,
      by simp⟩
    ctx := TailcallCtx.zero
    tpInfo := .zero
    sk := ⟨some .confirmed, none⟩ }

def malformedHops : List (HopEnv × Prog × Chain) :=
  frameHops (fun _ => .ok) 6 0 (detectH2 .ok malformedChain).2

theorem length_malformedHops : malformedHops.length = 6 := by decide +kernel

/-- Find, validate, find, validate, create: then the write. -/
def malformedWrite : HopEnv × Prog × Chain :=
  malformedHops.get ⟨5, by rw [length_malformedHops]; decide⟩

theorem malformedWrite_commits :
    malformedWrite.2.1 = .writeH2Traceparent ∧ WriteCommits malformedWrite.1 malformedWrite.2.2 :=
  ⟨by decide +kernel, by decide +kernel, by decide +kernel⟩

theorem detectH2_malformed : detectH2 .ok malformedChain =
      (.tailCall .findExistingH2Tp, (detectH2 .ok malformedChain).2) :=
  Prod.ext (by decide +kernel) rfl

theorem malformed_recognisable :
    RecognisableAt (frameBlock (detectH2 .ok malformedChain).2) 15 :=
  ⟨by decide +kernel, .inl (by decide +kernel)⟩

theorem injected_block_carried_no_traceparent_malformed :
    InsideMalformed (frameBlock (detectH2 .ok malformedChain).2) 15 :=
  injected_block_carried_no_traceparent detectH2_malformed
    (show ∀ v ∈ malformedHops, ScanShown v by decide +kernel) (List.get_mem malformedHops _)
    malformedWrite_commits.1 malformedWrite_commits.2 malformed_recognisable

/-- Beside a malformed field a second one goes in, whatever the malformed value
looks like inside. -/
theorem injected_beside_malformed :
    ¬ ∀ (env : HopEnv) (s t : Chain) (inp : Nat → HopEnv) (limit k : Nat)
        (v : HopEnv × Prog × Chain),
      detectH2 env s = (.tailCall .findExistingH2Tp, t) →
      t.ctx.h2FrameOffset + kH2FrameHeaderLen + t.ctx.h2PayloadLen ≤ t.msg.size →
      t.ctx.h2HpackLen ≤ kH2MaxHpackScan →
      v ∈ frameHops inp limit k t → v.2.1 = .writeH2Traceparent → WriteCommits v.1 v.2.2 →
      ∀ i, ¬ RecognisableAt (frameBlock t) i :=
  fun h => h .ok malformedChain (detectH2 .ok malformedChain).2 (fun _ => .ok) 6 0 malformedWrite
    detectH2_malformed (by decide +kernel) (by decide +kernel) (List.get_mem malformedHops _)
    malformedWrite_commits.1 malformedWrite_commits.2 15 malformed_recognisable

end Obi.Refine
