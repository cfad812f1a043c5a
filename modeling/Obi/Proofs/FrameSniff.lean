import Mathlib.Data.List.GetD
import Obi.Ref.H2FrameScan
import Obi.Ref.TpInjector

/-!
# What the HTTP/2 sniffers accept

Both sniffers walk from header to header and carry the open header block along.
The checks of a frame use nothing of the frames before it but that block, so the
walk tiles the bytes exactly if they are permitted frames whose header blocks are
in one piece each.
-/

namespace Obi.Refine
open Lib Ref List Nat
variable {f bytes : List UInt8} {fs : List (List UInt8)} {st st' : H2SniffState}
  {left pos p : Nat} {i n : Nat}

/-! ## The sequences a conforming sender emits -/

/-- The bytes are a header and the payload it announces. -/
def Complete (f : List UInt8) : Prop := f.length = 9 + h2FramePayloadLen f

/-- The frame passes the rules of its type where a frame of that type may stand. -/
def Permitted (f : List UInt8) : Prop :=
  (h2SniffFrameHeader ⟨h2FrameStreamId f, false, f.getD 3 0 = kH2FrameContinuation⟩ f).isSome

/-- The stream whose header block the frame goes on with. -/
def continued (f : List UInt8) : Option Nat :=
  if f.getD 3 0 = kH2FrameContinuation then some (h2FrameStreamId f) else none

/-- The stream whose header block goes on behind the frame. -/
def leftOpen (f : List UInt8) : Option Nat :=
  if (f.getD 3 0 = kH2FrameHeaders ∨ f.getD 3 0 = kH2FramePushPromise ∨
      f.getD 3 0 = kH2FrameContinuation) ∧ f.getD 4 0 &&& kH2FlagEndHeaders = 0 then
    some (h2FrameStreamId f)
  else none

/-- Where the block of `before` is open, each frame goes on with what the frame
before it left open, and the last leaves nothing open. -/
def Blocks (before : Option Nat) (fs : List (List UInt8)) : Prop :=
  before :: fs.map leftOpen = fs.map continued ++ [none]

/-! ## One frame -/

/-- The stream whose header block is open. -/
def openIn (st : H2SniffState) : Option Nat :=
  if st.expectContinuation then some st.continuationStream else none

/-- The checks depend on the state through the open block only. -/
theorem check_eq (len sid : Nat) (t fl r : UInt8) : h2SniffCheckFrame st len t fl r sid =
      if openIn st = if t = kH2FrameContinuation then some sid else none then
        (h2SniffCheckFrame ⟨sid, false, t = kH2FrameContinuation⟩ len t fl r sid).map fun _ =>
          ⟨if t = kH2FrameHeaders ∨ t = kH2FramePushPromise then sid else st.continuationStream,
            st.seenHeaders || t == kH2FrameHeaders,
            decide ((t = kH2FrameHeaders ∨ t = kH2FramePushPromise ∨ t = kH2FrameContinuation) ∧
              fl &&& kH2FlagEndHeaders = 0)⟩
      else none := by
  obtain ⟨stream, seen, expect⟩ := st
  by_cases hblk : t = kH2FrameHeaders ∨ t = kH2FramePushPromise ∨ t = kH2FrameContinuation
  · rcases hblk with rfl | rfl | rfl <;> cases expect <;>
      simp [h2SniffCheckFrame, openIn, apply_ite (Option.map _), eq_comm]
    grind
  -- no other type changes the state
  obtain ⟨hh, hp, hc⟩ : t ≠ kH2FrameHeaders ∧ t ≠ kH2FramePushPromise ∧
    t ≠ kH2FrameContinuation := by simpa only [not_or] using hblk
  simp only [h2SniffCheckFrame, openIn, hh, hp, hc]
  cases expect <;> grind

theorem check_some (h : h2SniffFrameHeader st f = some st') :
    (openIn st = continued f ∧ Permitted f) ∧ openIn st' = leftOpen f ∧
      st'.seenHeaders = (st.seenHeaders || f.getD 3 0 == kH2FrameHeaders) := by
  rw [h2SniffFrameHeader, check_eq] at h
  obtain ⟨hopen, h⟩ := Option.ite_none_right_eq_some.mp h
  obtain ⟨_, hperm, rfl⟩ := Option.map_eq_some_iff.mp h
  refine ⟨⟨hopen, Option.isSome_of_eq_some hperm⟩, ?_, rfl⟩
  simp only [openIn, leftOpen, decide_eq_true_eq] at hopen ⊢
  grind

theorem exists_check (hopen : openIn st = continued f) (h : Permitted f) :
    ∃ st', h2SniffFrameHeader st f = some st' := by
  rw [h2SniffFrameHeader, check_eq, ← continued, if_pos hopen]
  obtain ⟨_, hperm⟩ := Option.isSome_iff_exists.mp h
  exact ⟨_, Option.map_eq_some_iff.mpr ⟨_, hperm, rfl⟩⟩

/-- The state behind frames that pass one after the other. -/
def passAll (st : H2SniffState) (fs : List (List UInt8)) : Option H2SniffState :=
  fs.foldlM h2SniffFrameHeader st

theorem passAll_cons : passAll st (f :: fs) = some st' ↔
    ∃ st1, h2SniffFrameHeader st f = some st1 ∧ passAll st1 fs = some st' := by
  simp [passAll, Option.bind_eq_some_iff]

theorem passAll_iff (st : H2SniffState) : (∃ st', passAll st fs = some st' ∧ openIn st' = none) ↔
    (∀ f ∈ fs, Permitted f) ∧ Blocks (openIn st) fs := by
  induction fs generalizing st with
  | nil => simp [passAll, Blocks]
  | cons f fs ih =>
    rw [forall_mem_cons, Blocks, map_cons, map_cons, cons_append, cons.injEq]
    constructor
    · intro ⟨st', hpass, hend⟩
      obtain ⟨st1, hf, hfs⟩ := passAll_cons.mp hpass
      obtain ⟨⟨hopen, hperm⟩, hleft, -⟩ := check_some hf
      obtain ⟨hall, hblks⟩ := (ih st1).mp ⟨st', hfs, hend⟩
      exact ⟨⟨hperm, hall⟩, hopen, hleft ▸ hblks⟩
    · intro ⟨⟨hperm, hall⟩, hopen, hblks⟩
      obtain ⟨st1, hf⟩ := exists_check hopen hperm
      rw [← (check_some hf).2.1] at hblks
      obtain ⟨st', hfs, hend⟩ := (ih st1).mpr ⟨hall, hblks⟩
      exact ⟨st', passAll_cons.mpr ⟨st1, hf, hfs⟩, hend⟩

theorem seenHeaders_passAll (h : passAll st fs = some st') (hseen : st'.seenHeaders = true) :
    st.seenHeaders = true ∨ ∃ f ∈ fs, f.getD 3 0 = kH2FrameHeaders := by
  induction fs generalizing st with
  | nil => cases h; exact .inl hseen
  | cons f fs ih =>
    obtain ⟨st1, hf, hfs⟩ := passAll_cons.mp h
    have hst1 := (check_some hf).2.2
    grind

/-! ## The walk both sniffers make -/

/-- The state and the position at the end of the walk, unless a header is cut
off or fails. -/
def framesWalk (bytes : List UInt8) : (left pos : Nat) → H2SniffState → Option (H2SniffState × Nat)
  | 0, pos, st => some (st, pos)
  | left + 1, pos, st =>
    if pos ≥ bytes.length then some (st, pos)
    else if pos + 9 > bytes.length then none
    else match h2SniffFrameHeader st (bytes.drop pos) with
    | none => none
    | some st' => framesWalk bytes left (pos + (9 + h2FramePayloadLen (bytes.drop pos))) st'

/-- A header is read off any bytes that begin with it. -/
theorem header_eq_of_front (st : H2SniffState) {l : List UInt8} (h : f <+: l) (hf : 9 ≤ f.length) :
    h2FramePayloadLen f = h2FramePayloadLen l ∧
      h2SniffFrameHeader st f = h2SniffFrameHeader st l := by
  obtain ⟨rest, rfl⟩ := h
  have hget : ∀ i < 9, (f ++ rest).getD i 0 = f.getD i 0 := fun i hi =>
    getD_append _ _ _ _ (by omega)
  simp only [h2FramePayloadLen, h2SniffFrameHeader, h2FrameStreamId, hget, reduceLT, and_self]

theorem frames_of_walk (h : framesWalk bytes left pos st = some (st', p)) (hp : p ≤ bytes.length) :
    ∃ fs, bytes.drop pos = fs.flatten ++ bytes.drop p ∧ (∀ f ∈ fs, Complete f) ∧
      passAll st fs = some st' ∧ pos ≤ p ∧ fs.length ≤ left ∧
      (p < bytes.length → fs.length = left) := by
  fun_induction framesWalk bytes left pos st with
  | case1 =>
    cases h
    exact ⟨[], rfl, nofun, rfl, le_rfl, le_rfl, fun _ => rfl⟩
  | case2 =>
    cases h
    exact ⟨[], rfl, nofun, rfl, le_rfl, zero_le _, by omega⟩
  | case3 | case4 => cases h
  | case5 left pos st _ _ st1 hcheck ih =>
    obtain ⟨fs, hdrop, hall, hpass, hle, hlen, hfull⟩ := ih h
    generalize hn : 9 + h2FramePayloadLen (bytes.drop pos) = n at *
    have hf : ((bytes.drop pos).take n).length = n := by simp; omega
    have hpre : (bytes.drop pos).take n <+: bytes.drop pos := take_prefix n _
    obtain ⟨hpay, hhdr⟩ := header_eq_of_front st hpre (by omega)
    refine ⟨(bytes.drop pos).take n :: fs, ?_, forall_mem_cons.mpr ⟨?_, hall⟩,
      passAll_cons.mpr ⟨st1, hhdr.trans hcheck, hpass⟩, by omega, succ_le_succ hlen,
      fun hlt => congrArg _ (hfull hlt)⟩
    · rw [flatten_cons, append_assoc, ← hdrop, ← drop_drop, take_append_drop]
    · rw [Complete, hpay, hf, hn]

theorem walk_of_frames (hdrop : bytes.drop pos = fs.flatten) (hpos : pos ≤ bytes.length)
    (hall : ∀ f ∈ fs, Complete f) (hpass : passAll st fs = some st') (hlen : fs.length ≤ left) :
    framesWalk bytes left pos st = some (st', bytes.length) := by
  induction fs generalizing left pos st with
  | nil =>
    obtain rfl : pos = bytes.length := le_antisymm hpos (drop_eq_nil_iff.mp hdrop)
    cases hpass
    cases left with
    | zero => rfl
    | succ left => exact if_pos (le_rfl)
  | cons f fs ih =>
    cases left with
    | zero => cases hlen
    | succ left =>
      obtain ⟨hf, hall⟩ := forall_mem_cons.mp hall
      obtain ⟨st1, hcheck, hpass⟩ := passAll_cons.mp hpass
      rw [Complete] at hf
      rw [flatten_cons] at hdrop
      have hprefix : f <+: bytes.drop pos := ⟨fs.flatten, hdrop.symm⟩
      obtain ⟨hpay, hhdr⟩ := header_eq_of_front st hprefix (by omega)
      have hsize := congrArg length hdrop
      rw [length_drop, length_append] at hsize
      rw [framesWalk, if_neg (by omega), if_neg (by omega), ← hhdr, hcheck, ← hpay, ← hf]
      refine ih ?_ (by omega) hall hpass (le_of_succ_le_succ hlen)
      rw [← drop_drop, hdrop, drop_left]

/-- Where `left` of the longest frames still end below the word size. -/
def Low (left pos : Nat) : Prop := pos + 65544 * left < 4294967296

theorem Low.header (h : Low (left + 1) pos) : u32 (pos + kH2FrameHeaderLen) = pos + 9 :=
  u32_of_lt (by rw [Low] at h; simp only [kH2FrameHeaderLen]; omega)

theorem Low.next {d : List UInt8} (h : Low (left + 1) pos)
    (hcheck : h2SniffFrameHeader st d = some st') :
    u32 (pos + kH2FrameHeaderLen + h2FramePayloadLen d) = pos + (9 + h2FramePayloadLen d) ∧
      Low left (pos + (9 + h2FramePayloadLen d)) := by
  have hlen : h2FramePayloadLen d ≤ 65535 := by
    by_contra hlong
    rw [h2SniffFrameHeader, h2SniffCheckFrame, if_pos (.inl (Nat.lt_of_not_le hlong))] at hcheck
    cases hcheck
  simp only [Low, kH2FrameHeaderLen] at h ⊢
  rw [u32_of_lt (by omega)]
  omega

theorem slice_eq_header (st : H2SniffState) (h : ¬ pos + 9 > bytes.length) :
    h2FramePayloadLen (slice bytes pos 9) = h2FramePayloadLen (bytes.drop pos) ∧
      h2SniffFrameHeader st (slice bytes pos 9) = h2SniffFrameHeader st (bytes.drop pos) := by
  have hpre : slice bytes pos 9 <+: bytes.drop pos := List.take_prefix _ _
  exact header_eq_of_front st hpre (by simp [slice]; omega)

theorem sniffWalk_eq {ans : Nat → PullAnswer} {msg : SkMsg} {hpackAt : Nat}
    (hans : ∀ i, (ans i).shows kH2FrameHeaderLen = true) (hpos : Low left pos) :
    (sniffWalk ans msg true left i pos st hpackAt).1 = match framesWalk msg.bytes left pos st with
      | none => .mismatch
      | some (st', p) => h2SniffWalkResult st' p msg.bytes.length := by
  induction left generalizing i pos st hpackAt with
  | zero => rfl
  | succ left ih =>
    rw [sniffWalk, framesWalk, hpos.header, SkMsg.size]
    by_cases hend : pos ≥ msg.bytes.length
    · rw [if_pos hend, if_pos hend]
    by_cases hcut : pos + 9 > msg.bytes.length
    · rw [if_neg hend, if_neg hend, if_pos hcut, if_pos hcut]
    have hpull : msg.pullView pos (pos + 9) kH2FrameHeaderLen (ans i) =
        some (some (slice msg.bytes pos 9)) :=
      SkMsg.pullView_shows (by decide) (not_lt.mp hcut) (hans i)
    obtain ⟨hpay, hhdr⟩ := slice_eq_header st hcut
    rw [if_neg hend, if_neg hend, if_neg hcut, if_neg hcut, hpull]
    cases hcheck : h2SniffFrameHeader st (msg.bytes.drop pos) with
    | none => simp [hhdr, hcheck]
    | some st1 =>
      obtain ⟨hnext, hlow⟩ := hpos.next hcheck
      simp only [if_true, hhdr, hcheck, hpay, hnext]
      exact ih hlow

theorem walk_of_looksLike {reads : Nat → Bool} (hpos : Low left pos)
    (h : looksLikeWalk reads bytes left i pos st = true) :
    ∃ st' p, framesWalk bytes left pos st = some (st', p) ∧
      h2SniffAccept st' p bytes.length = true := by
  fun_induction looksLikeWalk reads bytes left i pos st with
  | case1 => exact ⟨_, _, rfl, h⟩
  | case2 _ _ _ _ hend => exact ⟨_, _, if_pos hend, h⟩
  | case6 left i pos st hend hcut _ d st1 hcheck pos' ih =>
    rw [hpos.header] at hcut
    obtain ⟨hpay, hhdr⟩ := slice_eq_header st hcut
    obtain ⟨hnext, hlow⟩ := hpos.next hcheck
    have hpos' : pos' = pos + (9 + h2FramePayloadLen d) := hnext
    rw [hpos'] at ih h
    rw [framesWalk, if_neg hend, if_neg hcut, ← hpay, ← hhdr]
    simp only [d, kH2FrameHeaderLen] at hcheck
    rw [hcheck]
    exact ih hlow h
  | _ => cases h

/-! ## Both sniffers -/

/-- The bytes are frames that pass the rules of their types, each header block
in one piece. -/
structure Tiling (fs : List (List UInt8)) (bytes : List UInt8) : Prop where
  bytes_eq : bytes = fs.flatten
  complete : ∀ f ∈ fs, Complete f
  permitted : ∀ f ∈ fs, Permitted f
  blocks : Blocks none fs

theorem tiles_iff : h2SniffTiles st p n = true ↔ n ≠ 0 ∧ p = n ∧ openIn st = none := by
  simp [h2SniffTiles, openIn, and_assoc]

theorem tiled_iff : h2SniffWalkResult st p n = .tiled ↔ h2SniffTiles st p n = true := by
  rw [h2SniffWalkResult, h2SniffTiles]
  grind

theorem tiling_of_walk (h : framesWalk bytes kH2SniffMaxFrames 0 .zero = some (st', p))
    (htiles : h2SniffTiles st' p bytes.length = true) :
    ∃ fs, Tiling fs bytes ∧ 0 < fs.length ∧ fs.length ≤ kH2SniffMaxFrames ∧
      passAll .zero fs = some st' := by
  obtain ⟨hne, rfl, hopen⟩ := tiles_iff.mp htiles
  obtain ⟨fs, hbs, hall, hpass, -, hlen, -⟩ := frames_of_walk h (le_rfl)
  rw [drop_zero, drop_length, append_nil] at hbs
  obtain ⟨hperm, hblks⟩ := (passAll_iff _).mp ⟨st', hpass, hopen⟩
  refine ⟨fs, ⟨hbs, hall, hperm, hblks⟩, length_pos_iff.mpr ?_, hlen, hpass⟩
  rintro rfl
  exact hne (congrArg length hbs)

theorem sniffed_frames (ans : Nat → PullAnswer) (msg : SkMsg) (reads : Nat → Bool)
    (hans : ∀ i, (ans i).shows kH2FrameHeaderLen = true) :
    ((sniffHttp2Frames ans msg true).1 = .tiled ↔
      ∃ fs, Tiling fs msg.bytes ∧ 0 < fs.length ∧ fs.length ≤ kH2SniffMaxFrames) ∧
    ((sniffHttp2Frames ans msg true).1 = .unfinished →
      ∃ fs rest, msg.bytes = fs.flatten ++ rest ∧ fs.length = kH2SniffMaxFrames ∧
        (∀ f ∈ fs, Complete f) ∧ (passAll .zero fs).isSome = true ∧ rest ≠ []) ∧
    (looksLikeHttp2Frames reads msg.bytes = true → (sniffHttp2Frames ans msg true).1 = .tiled ∧
        ∃ fs, Tiling fs msg.bytes ∧ ∃ f ∈ fs, f.getD 3 0 = kH2FrameHeaders) := by
  rw [sniffHttp2Frames, sniffWalk_eq hans (by simp [Low])]
  refine ⟨⟨fun h => ?_, fun ⟨fs, htile, hpos, hlen⟩ => ?_⟩, fun h => ?_, fun h => ?_⟩
  · split at h
    · cases h
    · next hwalk =>
      obtain ⟨fs, htile, hpos, hlen, -⟩ := tiling_of_walk hwalk (tiled_iff.mp h)
      exact ⟨fs, htile, hpos, hlen⟩
  · obtain ⟨st', hpass, hopen⟩ := (passAll_iff .zero).mpr ⟨htile.permitted, htile.blocks⟩
    obtain ⟨f, hf⟩ := exists_mem_of_length_pos hpos
    have hne : msg.bytes.length ≠ 0 := by
      have := htile.complete f hf
      have := (sublist_flatten_of_mem hf).length_le
      grind [Complete, htile.bytes_eq]
    have hbs : msg.bytes.drop 0 = fs.flatten := htile.bytes_eq
    rw [walk_of_frames hbs (zero_le _) htile.complete hpass hlen]
    exact tiled_iff.mpr (tiles_iff.mpr ⟨hne, rfl, hopen⟩)
  · split at h
    · cases h
    · next st p hwalk =>
      have hp : p < msg.bytes.length := by
        rw [h2SniffWalkResult] at h
        grind
      obtain ⟨fs, hbs, hall, hpass, -, -, hfull⟩ := frames_of_walk hwalk (le_of_lt hp)
      exact ⟨fs, _, hbs, hfull hp, hall, by rw [hpass]; rfl, by simpa using hp⟩
  · rw [looksLikeHttp2Frames] at h
    split at h
    · cases h
    obtain ⟨st', p, hwalk, haccept⟩ := walk_of_looksLike (by simp [Low]) h
    obtain ⟨hseen, htiles⟩ := Bool.and_eq_true_iff.mp haccept
    obtain ⟨fs, htile, -, -, hpass⟩ := tiling_of_walk hwalk htiles
    refine ⟨by rw [hwalk]; exact tiled_iff.mpr htiles, fs, htile, ?_⟩
    exact (seenHeaders_passAll hpass hseen).resolve_left Bool.false_ne_true

/-- A header block in two frames. -/
def splitBlock : SkMsg where
  bytes := [0, 0, 1, 1, 0, 0, 0, 0, 1, 0x82] ++ [0, 0, 0, 9, 4, 0, 0, 0, 1]
  data := none
  size_lt := by decide
  data_le := nofun

theorem sniffed_frames_split :
    ∃ fs, Tiling fs splitBlock.bytes ∧ 0 < fs.length ∧ fs.length ≤ kH2SniffMaxFrames :=
  (sniffed_frames (fun _ => .ok 9) splitBlock (fun _ => true) fun _ => rfl).1.mp (by decide +kernel)

end Obi.Refine
