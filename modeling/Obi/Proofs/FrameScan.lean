import Obi.Ref.H2FrameScan
import Obi.Spec.H2Frame

/-!
# Reads do not change which frames are scanned

However TCP cuts a stream of frames into reads, the scan takes up every frame
once, in order, at its first byte. The proof follows one quantity, the
position of the next frame that has not been taken up. Inside a buffer the
walk moves it from header to header; at the end of a buffer it lies behind the
last byte (the rest of a frame is skipped), on it (nothing is carried over),
or before it (the beginning of a frame is kept). The entry the scan leaves for
the connection says which, and resuming from it puts the next buffer's walk at
that position again.
-/

namespace Obi.Refine
open Ref Spec Lib List GrpcFramesCtx ScanOutcome Nat Option

/-- The frames of the scan's contract. -/
structure Scannable (f : RawFrame) : Prop where
  type_le : f.ftype ≤ frameContinuation
  length_le : f.payload.length ≤ kH2DefaultMaxFrameSize
  valid : isInvalidFrame (frameHeaderOf f.header) = false

/-- A frame's header as the scan reads it. -/
def headerOf (f : RawFrame) : FrameHeader := frameHeaderOf f.header

theorem headerOf_length (f : RawFrame) :
    (headerOf f).length = f.payload.length := f.payloadLen_header

theorem headerOf_size (f : RawFrame) : (headerOf f).length + kFrameHeaderLen = f.bytes.length := by
  rw [headerOf_length, f.length_bytes, kFrameHeaderLen, add_comm]

theorem plausible_headerOf {f : RawFrame} (h : Scannable f) :
    h2FramePlausible (headerOf f) = true := by
  rw [h2FramePlausible, headerOf_length, Bool.and_eq_true]
  exact ⟨decide_eq_true h.type_le, decide_eq_true h.length_le⟩

/-! ## Reading the buffer -/

variable {c : CutFrame} {g'' : GrpcFramesCtx} {all done' : List RawFrame} {xs : List UInt8}
  {i n a : Nat} {b : ScanBuf} {p : ScanProg}

theorem read_eq_slice (h : i + n ≤ b.bytes.length) : b.read i n = slice b.bytes i n := by
  refine ext_getElem ?_ fun k hk hk' => ?_
  · rw [length_slice]
    simp only [ScanBuf.read, length_map, length_range]
    omega
  simp only [ScanBuf.read, length_map, length_range] at hk
  simp only [ScanBuf.read, getElem_map, getElem_range, slice,
    getElem_take, getElem_drop, getD_eq_getElem?_getD]
  rw [getElem?_eq_getElem (by omega), getD_some]

/-- A prefix of a frame and what follows it reads as the frame does. -/
theorem slice_of_initial {f : RawFrame} {rest : List UInt8}
    (h : xs.drop i <+: f.bytes ++ rest) (hn : n ≤ f.bytes.length)
    (hlen : i + n ≤ xs.length) : slice xs i n = f.bytes.take n := by
  obtain ⟨t, ht⟩ := h
  have hd : n ≤ (xs.drop i).length := by rw [length_drop]; omega
  calc slice xs i n = (xs.drop i ++ t).take n := by
        rw [slice, take_append_of_le_length hd]
    _ = (f.bytes ++ rest).take n := by rw [ht]
    _ = f.bytes.take n := take_append_of_le_length hn

theorem take_header (f : RawFrame) : f.bytes.take 9 = f.header := take_left' f.length_header

theorem read_header {f : RawFrame} {rest : List UInt8}
    (h : b.bytes.drop i <+: f.bytes ++ rest) (hlen : i + 9 ≤ b.bytes.length) :
    b.read i kFrameHeaderLen = f.header := by
  rw [kFrameHeaderLen, read_eq_slice hlen,
    slice_of_initial h (by rw [f.length_bytes]; omega) hlen, take_header]

theorem drop_prefix_append {ys zs : List UInt8} (h : xs <+: ys ++ zs)
    (hle : ys.length ≤ xs.length) : xs.drop ys.length <+: zs := by
  obtain ⟨t, ht⟩ := h
  refine ⟨t, ?_⟩
  rw [← drop_append_of_le_length hle, ht, drop_left]

/-! ## Where a walk stands -/

/-- The walk is at the first byte of `todo`, as far as the buffer goes. -/
structure Aligned (g : GrpcFramesCtx) (todo : List RawFrame) : Prop where
  recv : g.direction = tcpRecv
  small : g.bytesLen < 8192
  pos_le : g.pos ≤ g.bytesLen
  ahead : g.buf.bytes.drop g.pos <+: encode todo
  good : ∀ f ∈ todo, Scannable f

/-- The fields the walk goes by are the same in both contexts. -/
structure SameWalk (g g' : GrpcFramesCtx) : Prop where
  direction : g'.direction = g.direction
  buf : g'.buf = g.buf
  pos : g'.pos = g.pos
  terminateSearch : g'.terminateSearch = g.terminateSearch

variable {g g' : GrpcFramesCtx} {f : RawFrame} {todo rest : List RawFrame}
  {env : ScanEnv}

theorem SameWalk.refl (g : GrpcFramesCtx) : SameWalk g g := ⟨rfl, rfl, rfl, rfl⟩

section
variable (h : SameWalk g g')
include h

theorem SameWalk.trans (h' : SameWalk g' g'') : SameWalk g g'' :=
  ⟨h'.direction.trans h.direction, h'.buf.trans h.buf, h'.pos.trans h.pos,
    h'.terminateSearch.trans h.terminateSearch⟩

theorem SameWalk.bytesLen : g'.bytesLen = g.bytesLen := by
  rw [GrpcFramesCtx.bytesLen, h.buf, GrpcFramesCtx.bytesLen]

theorem SameWalk.remaining : g'.remaining = g.remaining := by
  rw [GrpcFramesCtx.remaining, h.bytesLen, h.pos, GrpcFramesCtx.remaining]

theorem SameWalk.nextFrame : nextFrame g' = Ref.nextFrame g := by
  rw [Ref.nextFrame, h.buf, h.pos, Ref.nextFrame]

theorem SameWalk.keeps (frame : FrameHeader) :
    h2KeepsCutFrame g' frame = h2KeepsCutFrame g frame := by
  simp only [h2KeepsCutFrame, h2TracksCutFrames, h.direction, h.bytesLen, h.remaining]

theorem SameWalk.aligned (ha : Aligned g todo) : Aligned g' todo where
  recv := h.direction.trans ha.recv
  small := by rw [h.bytesLen]; exact ha.small
  pos_le := by rw [h.bytesLen, h.pos]; exact ha.pos_le
  ahead := by rw [h.buf, h.pos]; exact ha.ahead
  good := ha.good

end

theorem Aligned.remaining (h : Aligned g todo) : g.remaining = g.bytesLen - g.pos := by
  have hsm := h.small
  have hpos := h.pos_le
  rw [GrpcFramesCtx.remaining, u32]
  omega

theorem Aligned.tracks (h : Aligned g todo) : h2TracksCutFrames g = true := by
  rw [h2TracksCutFrames, h.recv]
  exact decide_eq_true h.small

theorem Aligned.exists_frame (h : Aligned g todo) (hlt : g.pos < g.bytesLen) :
    ∃ f rest, todo = f :: rest := by
  cases todo with
  | nil =>
    have hlen := h.ahead.length_le
    rw [encode_nil, length_nil, length_drop] at hlen
    rw [GrpcFramesCtx.bytesLen] at hlt
    omega
  | cons f rest => exact ⟨f, rest, rfl⟩

section
variable (h : Aligned g (f :: rest))
include h

/-- A complete header in the buffer is read as it is. -/
theorem Aligned.nextFrame (hlen : g.pos + 9 ≤ g.bytesLen) : nextFrame g = headerOf f := by
  have hahead := h.ahead
  rw [encode_cons] at hahead
  rw [Ref.nextFrame, read_header hahead hlen, headerOf]

/-- The scan sets a frame aside if its header is cut, or if it is a cut
HEADERS frame of at most 256 bytes. -/
def SetsAside (f : RawFrame) (n : Nat) : Prop :=
  n < 9 ∨ (isHeadersFrame (headerOf f) = true ∧ n < f.bytes.length ∧ f.bytes.length ≤ 256)

theorem Aligned.keeps_iff : h2KeepsCutFrame g (Ref.nextFrame g) = true
      ↔ SetsAside f (g.bytesLen - g.pos) := by
  rw [h2KeepsCutFrame, h.tracks, h.remaining, Bool.true_and, Bool.or_eq_true, decide_eq_true_eq]
  by_cases hlen : g.bytesLen - g.pos < 9
  · exact ⟨fun _ => .inl hlen, fun _ => .inl hlen⟩
  rw [h.nextFrame (by omega), headerOf_size, Bool.and_eq_true,
    Bool.and_eq_true, decide_eq_true_eq, decide_eq_true_eq, and_assoc]
  exact Iff.rfl

theorem Aligned.not_aside (hkeep : h2KeepsCutFrame g (Ref.nextFrame g) = false) :
    ¬ g.bytesLen - g.pos < 9 ∧ ¬ (isHeadersFrame (headerOf f) = true ∧
      g.bytesLen - g.pos < f.bytes.length ∧ f.bytes.length ≤ 256) := by
  rw [← not_or, ← SetsAside, ← h.keeps_iff, hkeep]
  exact Bool.false_ne_true

end

/-- A frame that is set aside is not all there. -/
theorem SetsAside.lt (h : SetsAside f n) : n < f.bytes.length := by
  rcases h with h | h
  · rw [f.length_bytes]
    omega
  · exact h.2.1

theorem Aligned.advance (h : Aligned g (f :: rest))
    (hle : f.bytes.length ≤ g.bytesLen - g.pos) (b : Bool) :
    Aligned { g with pos := g.pos + f.bytes.length, terminateSearch := b } rest where
  recv := h.recv
  small := h.small
  pos_le := by
    have hpos := h.pos_le
    show g.pos + f.bytes.length ≤ g.bytesLen
    omega
  ahead := by
    have hahead := h.ahead
    rw [← drop_drop]
    refine drop_prefix_append hahead ?_
    rw [length_drop]
    exact hle
  good := fun x hx => h.good x (mem_cons_of_mem _ hx)

/-! ## What was looked at -/

/-- The header of `f`, taken up at its first byte: as many of the frame's
bytes as the buffer has follow there, and all of them if it is a HEADERS frame
of at most 256 bytes. -/
structure SeenAt (e : Examined) (f : RawFrame) : Prop where
  frame : e.frame = headerOf f
  header_le : e.pos + 9 ≤ e.buf.length
  contiguous : ∀ n, n ≤ f.bytes.length → e.pos + n ≤ e.buf.length →
    slice e.buf e.pos n = f.bytes.take n
  whole : isHeadersFrame (headerOf f) = true → f.bytes.length ≤ 256 →
    e.pos + f.bytes.length ≤ e.buf.length

/-- The beginning of `f`, left for the next read. -/
def AsideAt (e : Examined) (f : RawFrame) : Prop :=
  ∃ n, n < f.bytes.length ∧ e.buf.drop e.pos = f.bytes.take n

/-- The headers taken up are those of `done`, in order, and what was set aside
began a frame of `all`. -/
structure Walked (all : List RawFrame) (ex : List Examined) (done : List RawFrame) : Prop where
  seen : List.Forall₂ SeenAt (ex.filter fun e => !e.setAside) done
  aside : ∀ e ∈ ex, e.setAside = true → ∃ f ∈ all, AsideAt e f

theorem Walked.nil (all : List RawFrame) : Walked all [] [] := ⟨.nil, fun _ h => nomatch h⟩

theorem Walked.append {ex ex' : List Examined} {done : List RawFrame} (h : Walked all ex done)
    (h' : Walked all ex' done') : Walked all (ex ++ ex') (done ++ done') where
  seen := by
    rw [filter_append]
    exact rel_append h.seen h'.seen
  aside := fun e he =>
    (mem_append.1 he).elim (h.aside e) (h'.aside e)

theorem Walked.mono {all' : List RawFrame} {ex : List Examined}
    {done : List RawFrame} (h : Walked all ex done) (hsub : all ⊆ all') :
    Walked all' ex done where
  seen := h.seen
  aside := fun e he ha =>
    let ⟨f, hf, hat⟩ := h.aside e he ha
    ⟨f, hsub hf, hat⟩

/-- At which bytes frames begin, the first of them at `a`. -/
def frameOffsets (a : Nat) : List RawFrame → List Nat
  | [] => []
  | f :: rest => a :: frameOffsets (a + f.bytes.length) rest

theorem frameOffsets_append (a : Nat) (fs rest : List RawFrame) : frameOffsets a (fs ++ rest) =
    frameOffsets a fs ++ frameOffsets (a + (encode fs).length) rest := by
  induction fs generalizing a with
  | nil => rfl
  | cons f fs ih =>
    rw [cons_append, frameOffsets, ih, frameOffsets, encode_cons, length_append, add_assoc]
    rfl

theorem le_of_mem_frameOffsets {fs : List RawFrame} (h : x ∈ frameOffsets a fs) : a ≤ x := by
  induction fs generalizing a with
  | nil => cases h
  | cons f fs ih =>
    rcases mem_cons.mp h with rfl | h
    · exact le_refl _
    · exact le_trans (Nat.le_add_right _ _) (ih h)

theorem frameOffsets_shift (a start : Nat) (fs : List RawFrame) :
    (frameOffsets a fs).map (fun x => start + (x - a)) = frameOffsets start fs := by
  induction fs generalizing a start with
  | nil => rfl
  | cons f fs ih =>
    rw [frameOffsets, map_cons, frameOffsets, Nat.sub_self,
      ← ih (a + f.bytes.length) (start + f.bytes.length)]
    refine congrArg (start :: ·) (map_congr_left fun x hx => ?_)
    have hle := le_of_mem_frameOffsets hx
    omega

/-- The headers of one buffer: the frames of `all` begin at `a` in it. -/
structure WalkedAt (buf : List UInt8) (a : Nat) (all : List RawFrame) (ex : List Examined)
    (done : List RawFrame) : Prop extends Walked all ex done where
  within : ∀ e ∈ ex, e.buf = buf ∧ e.pos ≤ buf.length
  starts : (ex.filter fun e => !e.setAside).map Examined.pos = frameOffsets a done
  onFrames : ∀ e ∈ ex, e.pos ∈ frameOffsets a all

variable {buf : List UInt8}

theorem WalkedAt.nil : WalkedAt buf a all [] [] :=
  ⟨.nil all, fun _ h => absurd h not_mem_nil, rfl, fun _ h => absurd h not_mem_nil⟩

theorem WalkedAt.append {ex ex' : List Examined} {pre : List RawFrame}
    (h : WalkedAt buf a (pre ++ rest) ex pre)
    (h' : WalkedAt buf (a + (encode pre).length) rest ex' done') :
    WalkedAt buf a (pre ++ rest) (ex ++ ex') (pre ++ done') where
  toWalked := h.toWalked.append (h'.toWalked.mono (subset_append_right _ _))
  within e he := (mem_append.mp he).elim (h.within e) (h'.within e)
  starts := by rw [filter_append, map_append, h.starts, h'.starts, frameOffsets_append]
  onFrames e he := by
    refine (mem_append.mp he).elim (h.onFrames e) fun he => ?_
    rw [frameOffsets_append]
    exact mem_append_right _ (h'.onFrames e he)

theorem Aligned.walked_seen (h : Aligned g (f :: rest)) (hlt : g.pos < g.bytesLen)
    (hkeep : h2KeepsCutFrame g (Ref.nextFrame g) = false) :
    WalkedAt g.buf.bytes g.pos (f :: rest) [⟨g.buf.bytes, g.pos, Ref.nextFrame g, false⟩] [f] := by
  have haside := h.not_aside hkeep
  have hhdr : g.pos + 9 ≤ g.bytesLen := by omega
  have hahead := h.ahead
  refine ⟨⟨.cons ⟨h.nextFrame hhdr, hhdr, ?_, ?_⟩ .nil, ?_⟩,
    forall_mem_singleton.mpr ⟨rfl, h.pos_le⟩, rfl, forall_mem_singleton.mpr mem_cons_self⟩
  · exact fun n hn hlen => slice_of_initial hahead hn hlen
  · intro hhdrs hsize
    have hnot : ¬ (g.bytesLen - g.pos < f.bytes.length) :=
      fun hcut => haside.2 ⟨hhdrs, hcut, hsize⟩
    show g.pos + f.bytes.length ≤ g.bytesLen
    omega
  · intro e he ha
    rw [mem_singleton.1 he] at ha
    cases ha

theorem Aligned.walked_aside (h : Aligned g (f :: rest))
    (hkeep : h2KeepsCutFrame g (Ref.nextFrame g) = true) (frame : FrameHeader) :
    WalkedAt g.buf.bytes g.pos (f :: rest) [⟨g.buf.bytes, g.pos, frame, true⟩] [] := by
  have hlt := (h.keeps_iff.1 hkeep).lt
  refine ⟨⟨.nil, fun e he _ => ⟨f, mem_cons_self, ?_⟩⟩,
    forall_mem_singleton.mpr ⟨rfl, h.pos_le⟩, rfl, forall_mem_singleton.mpr mem_cons_self⟩
  rw [mem_singleton.1 he]
  refine ⟨g.bytesLen - g.pos, hlt, ?_⟩
  have hahead := h.ahead
  have hlen : (g.buf.bytes.drop g.pos).length = g.bytesLen - g.pos := length_drop
  rw [← @take_append_of_le_length _ _ (encode rest) _ (le_of_lt hlt), ← hlen]
  exact prefix_iff_eq_take.1 hahead

/-! ## Passes -/

theorem SameWalk.saved (h : SameWalk g g') (n : Nat) : SameWalk g { g' with savedStreamId := n } :=
  ⟨h.direction, h.buf, h.pos, h.terminateSearch⟩

theorem updatePrevInfo_same (env : ScanEnv) (g : GrpcFramesCtx) :
    SameWalk g (updatePrevInfo env g) := by
  rw [updatePrevInfo]
  split <;> exact ⟨rfl, rfl, rfl, rfl⟩

/-- A handler leaves the walk where it is. -/
def HandlesAt (g : GrpcFramesCtx) (r : Handled) : Prop :=
  (∃ g', r = .goOn g' ∧ SameWalk g g') ∨ ∃ p g', r = .call p g' ∧ p ≠ .grpcFrames ∧ SameWalk g g'

theorem headers_handlesAt (env : ScanEnv) (g : GrpcFramesCtx)
    (frame : FrameHeader) : HandlesAt g (handleHeadersFrame env g frame) := by
  have hsame := updatePrevInfo_same env g
  simp only [handleHeadersFrame]
  split
  · split
    · exact .inr ⟨_, _, rfl, nofun, hsame.saved _⟩
    · exact .inl ⟨_, rfl, hsame.saved _⟩
  split
  · exact .inl ⟨_, rfl, hsame⟩
  · exact .inr ⟨_, _, rfl, nofun, hsame⟩

theorem dataEnd_handlesAt (env : ScanEnv) (g : GrpcFramesCtx)
    (frame : FrameHeader) : HandlesAt g (handleDataStreamEnd env g frame) := by
  rw [handleDataStreamEnd]
  split
  · exact .inl ⟨_, rfl, SameWalk.refl g⟩
  split
  · exact .inr ⟨_, _, rfl, nofun, ((SameWalk.refl g).saved _).trans (updatePrevInfo_same env _)⟩
  · exact .inl ⟨_, rfl, SameWalk.refl g⟩

/-- A header that is taken up is handed to a program, or the pass comes to its
end with the walk unmoved. -/
def SettlesAt (g : GrpcFramesCtx) (frame : FrameHeader) (r : PassExit) : Prop :=
  (∃ g', r = passEnd g' frame ∧ SameWalk g g')
    ∨ ∃ p g', r = .call p g' ∧ p ≠ .grpcFrames ∧ SameWalk g g'

variable {frame : FrameHeader} {r : PassExit} {ex : List Examined} {left : Nat}
  {saved : Option CutFrame}

theorem SettlesAt.trans (h : SettlesAt g' frame r) (hsame : SameWalk g g') :
    SettlesAt g frame r := by
  rcases h with ⟨g1, hr, h₁⟩ | ⟨p, g1, hr, hp, h₁⟩
  · exact .inl ⟨g1, hr, hsame.trans h₁⟩
  · exact .inr ⟨p, g1, hr, hp, hsame.trans h₁⟩

theorem passData_settlesAt (env : ScanEnv) (g : GrpcFramesCtx)
    (hval : isInvalidFrame frame = false) :
    SettlesAt g frame (passData env g frame) := by
  simp only [passData, hval, Bool.false_eq_true, if_false]
  split
  · rcases dataEnd_handlesAt env g frame with
      ⟨g', hg, hsame⟩ | ⟨p, g', hg, hp, hsame⟩
    · rw [hg]
      exact .inl ⟨g', rfl, hsame⟩
    · rw [hg]
      exact .inr ⟨p, g', rfl, hp, hsame⟩
  · exact .inl ⟨g, rfl, SameWalk.refl g⟩

theorem passFrame_settlesAt (env : ScanEnv) (g : GrpcFramesCtx)
    (hval : isInvalidFrame frame = false) :
    SettlesAt g frame (passFrame env g frame) := by
  have hpush : SameWalk g (if frame.type = framePushPromise then updatePrevInfo env g else g) := by
    split
    · exact updatePrevInfo_same env g
    · exact SameWalk.refl g
  simp only [passFrame]
  generalize (if frame.type = framePushPromise then updatePrevInfo env g else g) = g1 at hpush
  refine SettlesAt.trans ?_ hpush
  split
  · rcases headers_handlesAt env g1 frame with
      ⟨g', hg, hsame⟩ | ⟨p, g', hg, hp, hsame⟩
    · rw [hg]
      exact (passData_settlesAt env g' hval).trans hsame
    · rw [hg]
      exact .inr ⟨p, g', rfl, hp, hsame⟩
  · exact passData_settlesAt env g1 hval

/-! ## The loop -/

/-- The walk went over `done` and stands before `rest`. -/
structure Reached (g g' : GrpcFramesCtx) (done rest : List RawFrame) : Prop where
  buf : g'.buf = g.buf
  pos : g'.pos = g.pos + (encode done).length
  aligned : Aligned g' rest

theorem Reached.of_same (h : SameWalk g g') (ha : Aligned g todo) : Reached g g' [] todo :=
  ⟨h.buf, by rw [h.pos]; rfl, h.aligned ha⟩

/-- The end of the frame the walk stands at. -/
theorem Reached.pos_behind {done : List RawFrame} (h : Reached g g' done (f :: rest)) :
    g.pos + (encode (done ++ [f])).length = g'.pos + f.bytes.length := by
  rw [encode_append, length_append, encode_cons, encode_nil, append_nil, ← add_assoc, ← h.pos]

theorem Reached.trans {done rest' : List RawFrame}
    (h : Reached g g' done rest) (h' : Reached g' g'' done' rest') :
    Reached g g'' (done ++ done') rest' where
  buf := h'.buf.trans h.buf
  pos := by
    rw [h'.pos, h.pos, encode_append, length_append, add_assoc]
  aligned := h'.aligned

/-- The frame at the walk's position has been taken up. -/
structure OnFrame (g : GrpcFramesCtx) (f : RawFrame) (rest : List RawFrame) : Prop where
  aligned : Aligned g (f :: rest)
  pos_lt : g.pos < g.bytesLen
  keeps : h2KeepsCutFrame g (nextFrame g) = false

theorem OnFrame.header_le (h : OnFrame g f rest) : g.pos + 9 ≤ g.bytesLen := by
  have haside := h.aligned.not_aside h.keeps
  omega

theorem OnFrame.nextFrame (h : OnFrame g f rest) : nextFrame g = headerOf f :=
  h.aligned.nextFrame h.header_le

theorem OnFrame.size (h : OnFrame g f rest) :
    (Ref.nextFrame g).length + kFrameHeaderLen = f.bytes.length := by
  rw [h.nextFrame, headerOf_size]

theorem SameWalk.onFrame (h : SameWalk g g') (hf : OnFrame g f rest) : OnFrame g' f rest where
  aligned := h.aligned hf.aligned
  pos_lt := by rw [h.bytesLen, h.pos]; exact hf.pos_lt
  keeps := by rw [h.nextFrame, h.keeps]; exact hf.keeps

/-- How the loop can end: between two frames, at a frame it sets aside, on a
frame that fills the buffer, or at a call for the frame it is on. -/
inductive LoopEnd (g : GrpcFramesCtx) (todo : List RawFrame)
    (ex : List Examined) : PassExit → Prop
  | between (done rest : List RawFrame) (g' : GrpcFramesCtx) :
      todo = done ++ rest → WalkedAt g.buf.bytes g.pos todo ex done → Reached g g' done rest →
      g'.terminateSearch = false → LoopEnd g todo ex (.leave g')
  | aside (done rest : List RawFrame) (f : RawFrame) (g' : GrpcFramesCtx) :
      todo = done ++ f :: rest → WalkedAt g.buf.bytes g.pos todo ex done →
      Reached g g' done (f :: rest) → g'.terminateSearch = true →
      g'.pos < g'.bytesLen → h2KeepsCutFrame g' (nextFrame g') = true →
      LoopEnd g todo ex (.leave g')
  | last (done rest : List RawFrame) (f : RawFrame) (g' : GrpcFramesCtx) :
      todo = done ++ f :: rest → WalkedAt g.buf.bytes g.pos todo ex (done ++ [f]) →
      Reached g g' done (f :: rest) → g'.terminateSearch = true →
      OnFrame g' f rest → g'.bytesLen - g'.pos ≤ f.bytes.length →
      LoopEnd g todo ex (.leave g')
  | call (done rest : List RawFrame) (f : RawFrame) (p : ScanProg)
      (g' : GrpcFramesCtx) :
      todo = done ++ f :: rest → WalkedAt g.buf.bytes g.pos todo ex (done ++ [f]) →
      Reached g g' done (f :: rest) → g'.terminateSearch = false →
      OnFrame g' f rest → p ≠ .grpcFrames → LoopEnd g todo ex (.call p g')

/-- The passes after the frames `pre`, seen from before them. -/
theorem LoopEnd.behind {pre : List RawFrame} {ex1 : List Examined}
    (h : LoopEnd g' rest ex r) (hreach : Reached g g' pre rest)
    (hw : WalkedAt g.buf.bytes g.pos (pre ++ rest) ex1 pre) :
    LoopEnd g (pre ++ rest) (ex1 ++ ex) r := by
  have hnext {done : List RawFrame} (h : WalkedAt g'.buf.bytes g'.pos rest ex done) :
      WalkedAt g.buf.bytes g.pos (pre ++ rest) (ex1 ++ ex) (pre ++ done) := by
    rw [hreach.buf, hreach.pos] at h
    exact hw.append h
  have hspl : ∀ {done rest'}, rest = done ++ rest' → pre ++ rest = pre ++ done ++ rest' :=
    fun hsplit => by rw [hsplit, append_assoc]
  cases h with
  | between done rest' g'' hsplit hw' hr ht =>
    exact .between (pre ++ done) rest' g'' (hspl hsplit)
      (hnext hw') (hreach.trans hr) ht
  | aside done rest' f g'' hsplit hw' hr ht hlt hk =>
    exact .aside (pre ++ done) rest' f g'' (hspl hsplit)
      (hnext hw') (hreach.trans hr) ht hlt hk
  | last done rest' f g'' hsplit hw' hr ht hon hle =>
    exact .last (pre ++ done) rest' f g'' (hspl hsplit)
      (append_assoc pre done [f] ▸ hnext hw') (hreach.trans hr) ht hon hle
  | call done rest' f p g'' hsplit hw' hr ht hon hp =>
    exact .call (pre ++ done) rest' f p g'' (hspl hsplit)
      (append_assoc pre done [f] ▸ hnext hw') (hreach.trans hr) ht hon hp

theorem Aligned.terminate (h : Aligned g todo) : Aligned g.terminate todo :=
  ⟨h.recv, h.small, h.pos_le, h.ahead, h.good⟩

theorem OnFrame.terminate (h : OnFrame g f rest) : OnFrame g.terminate f rest :=
  ⟨h.aligned.terminate, h.pos_lt, h.keeps⟩

theorem Reached.terminate {done : List RawFrame} (h : Reached g g' done rest) :
    Reached g g'.terminate done rest :=
  ⟨h.buf, h.pos, h.aligned.terminate⟩

/-- A pass ends the loop, or goes over one frame. -/
theorem examineFrame_end (env : ScanEnv) (ha : Aligned g todo) (ht : g.terminateSearch = false) :
    LoopEnd g todo (examineFrame env g).1.toList (examineFrame env g).2
      ∨ ∃ f rest g', todo = f :: rest ∧ (examineFrame env g).2 = .next g'
        ∧ WalkedAt g.buf.bytes g.pos todo (examineFrame env g).1.toList [f]
        ∧ Reached g g' [f] rest ∧ g'.terminateSearch = false := by
  have hhere := Reached.of_same (SameWalk.refl g) ha
  rw [examineFrame]
  split
  · exact .inl (.between [] todo g rfl .nil hhere ht)
  · next hend =>
    have hlt : g.pos < g.bytesLen := Nat.lt_of_not_le hend
    obtain ⟨f, rest, rfl⟩ := ha.exists_frame hlt
    simp only []
    cases hk : h2KeepsCutFrame g (nextFrame g) with
    | true =>
      exact .inl (.aside [] rest f g.terminate rfl (ha.walked_aside hk _)
        hhere.terminate rfl hlt hk)
    | false =>
      have hon : OnFrame g f rest := ⟨ha, hlt, hk⟩
      have hw := ha.walked_seen hlt hk
      have hval : isInvalidFrame (nextFrame g) = false := by
        rw [hon.nextFrame]
        exact (ha.good f mem_cons_self).valid
      rcases passFrame_settlesAt env g hval with
        ⟨g', hr, hsame⟩ | ⟨p, g', hr, hp, hsame⟩
      · have hon' := hsame.onFrame hon
        have hhere' := Reached.of_same hsame ha
        simp only [hr, passEnd]
        rw [hon.size, hon'.aligned.remaining]
        by_cases hfill : g'.bytesLen - g'.pos ≤ f.bytes.length
        · rw [if_pos hfill]
          exact .inl (.last [] rest f g'.terminate rfl hw hhere'.terminate rfl hon'.terminate hfill)
        rw [if_neg hfill]
        refine .inr ⟨f, rest, _, rfl, rfl, hw, ⟨hsame.buf, ?_, ?_⟩, ?_⟩
        · rw [hsame.pos, encode_cons, encode_nil, append_nil]
        · exact hon'.aligned.advance (Nat.le_of_not_le hfill) _
        · exact hsame.terminateSearch.trans ht
      · simp only [hr]
        exact .inl (.call [] rest f p g' rfl hw (Reached.of_same hsame ha)
          (hsame.terminateSearch.trans ht) (hsame.onFrame hon) hp)

theorem framesLoop_end (env : ScanEnv) (n : Nat) (ha : Aligned g todo)
    (ht : g.terminateSearch = false) :
    LoopEnd g todo (framesLoop env n g).1 (framesLoop env n g).2 := by
  induction n generalizing g todo with
  | zero => exact .between [] todo g rfl .nil (Reached.of_same (SameWalk.refl g) ha) ht
  | succ n ih =>
    have hcnt := Reached.of_same (show SameWalk g g.countIteration from
      ⟨rfl, rfl, rfl, rfl⟩) ha
    rw [framesLoop, framesPass]
    rcases examineFrame_end env hcnt.aligned ht with
      hstop | ⟨f, rest, g', rfl, hnext, hw, hr, ht'⟩
    · have hexit := hstop.behind hcnt .nil
      generalize examineFrame env g.countIteration = r at hexit ⊢
      obtain ⟨ex, exit⟩ := r
      cases exit with
      | next g' => cases hexit
      | leave g' | call p g' => exact hexit
    · simp only [hnext]
      exact ((ih hr.aligned ht').behind hr hw).behind hcnt .nil

/-! ## What is saved -/

/-- The maps and the per-CPU memory the cut frames go through are there. -/
structure Answers (env : ScanEnv) : Prop where
  lookup : env.lookup = true
  cutMem : env.cutMem = true
  joinedMem : env.joinedMem = true
  update : env.update = true

theorem Answers.saves (h : Answers env) (ht : h2TracksCutFrames g = true) :
    (h2TracksCutFrames g && env.cutMem && env.update) = true := by
  rw [ht, h.cutMem, h.update]
  rfl

/-- The entry to save when the next frame to take up begins at `a`. -/
def LeftAt (buf : List UInt8) (a : Nat) (rest : List RawFrame) (saved : Option CutFrame) : Prop :=
  (a = buf.length ∧ saved = none) ∨ (buf.length < a ∧ saved = some ⟨a - buf.length, []⟩)
    ∨ (a < buf.length ∧ saved = some ⟨0, buf.drop a⟩ ∧ buf.drop a <+: encode rest
      ∧ ∃ f rest', rest = f :: rest' ∧ SetsAside f (buf.length - a))

section
variable (henv : Answers env)
include henv

theorem save_at_end (h : Aligned g todo)
    (hend : g.bytesLen ≤ g.pos) : h2SaveCutFrame env g = none := by
  rw [h2SaveCutFrame, if_pos (henv.saves h.tracks),
    if_neg (by have := h.pos_le; omega), if_neg (by omega)]

theorem save_behind (hrecv : g.direction = tcpRecv)
    (hsm : g.bytesLen < 8192) (hlt : g.bytesLen < g.pos) :
    h2SaveCutFrame env g = some ⟨g.pos - g.bytesLen, []⟩ := by
  have htrk : h2TracksCutFrames g = true := by
    rw [h2TracksCutFrames, hrecv]
    exact decide_eq_true hsm
  rw [h2SaveCutFrame, if_pos (henv.saves htrk), if_pos hlt]

theorem save_aside (h : Aligned g (f :: rest)) (hlt : g.pos < g.bytesLen)
    (hk : h2KeepsCutFrame g (nextFrame g) = true) :
    h2SaveCutFrame env g = some ⟨0, g.buf.bytes.drop g.pos⟩ := by
  have hsm := h.small
  have hle : g.bytesLen - g.pos ≤ 256 := by
    rcases h.keeps_iff.1 hk with hcut | ⟨-, hcut, hsize⟩ <;> omega
  have hlen : (g.buf.bytes.drop g.pos).length = g.bytesLen - g.pos := length_drop
  rw [h2SaveCutFrame, if_pos (henv.saves h.tracks), if_neg (by omega), if_pos hlt]
  simp only [hk, if_true, h.remaining, kIovecMaxLen, kKprobesHttp2BufSize]
  rw [min_eq_left (show g.pos ≤ 8192 by omega), min_eq_left hle,
    read_eq_slice (by rw [GrpcFramesCtx.bytesLen] at *; omega), slice, ← hlen, take_length]

theorem save_last (h : OnFrame g f rest) (hfill : g.bytesLen - g.pos ≤ f.bytes.length) :
    h2SaveCutFrame env g = if f.bytes.length = g.bytesLen - g.pos then none
        else some ⟨g.pos + f.bytes.length - g.bytesLen, []⟩ := by
  have hlt := h.pos_lt
  have hgood := h.aligned.good f mem_cons_self
  rw [h2SaveCutFrame, if_pos (henv.saves h.aligned.tracks), if_neg (by omega), if_pos hlt]
  simp only [h.keeps, Bool.false_eq_true, if_false, h.size, h.aligned.remaining]
  rw [h.nextFrame, plausible_headerOf hgood,
    show isInvalidFrame (headerOf f) = false from hgood.valid]
  by_cases heq : f.bytes.length = g.bytesLen - g.pos
  · rw [if_pos heq, if_pos (.inl (le_of_eq heq))]
  have hmore : ¬ (f.bytes.length ≤ g.bytesLen - g.pos ∨ false = true ∨ true = false) := by
    rintro (hle | hno | hno)
    · omega
    · cases hno
    · cases hno
  rw [if_neg heq, if_neg hmore]
  congr 2
  omega

theorem leftAt_end (h : Aligned g todo) (hend : g.bytesLen ≤ g.pos) :
    LeftAt g.buf.bytes g.pos todo (h2SaveCutFrame env g) :=
  .inl ⟨le_antisymm h.pos_le hend, save_at_end henv h hend⟩

theorem leftAt_aside (h : Aligned g (f :: rest)) (hlt : g.pos < g.bytesLen)
    (hk : h2KeepsCutFrame g (nextFrame g) = true) :
    LeftAt g.buf.bytes g.pos (f :: rest) (h2SaveCutFrame env g) :=
  .inr (.inr ⟨hlt, save_aside henv h hlt hk, h.ahead, f, rest, rfl, h.keeps_iff.1 hk⟩)

theorem leftAt_last (h : OnFrame g f rest) (hfill : g.bytesLen - g.pos ≤ f.bytes.length) :
    LeftAt g.buf.bytes (g.pos + f.bytes.length) rest (h2SaveCutFrame env g) := by
  have hlt := h.pos_lt
  rw [save_last henv h hfill]
  split
  · next heq => exact .inl ⟨by rw [heq]; simp only [GrpcFramesCtx.bytesLen] at *; omega, rfl⟩
  · exact .inr (.inl ⟨by simp only [GrpcFramesCtx.bytesLen] at *; omega, rfl⟩)

end

/-! A handler that is called when the scan is over saves what was saved. -/

theorem resume_at_end (h : Aligned g todo) (hend : g.bytesLen ≤ g.pos) :
    resumeFrameScan env g = .finish (h2SaveCutFrame env g) false none := by
  have hk : h2KeepsCutFrame g (nextFrame g) = true := by
    rw [h2KeepsCutFrame, h.tracks, h.remaining, show g.bytesLen - g.pos = 0 by omega]
    rfl
  simp only [resumeFrameScan, hk, if_true]
  rw [if_neg (by simp; omega)]

theorem resume_aside (hk : h2KeepsCutFrame g (nextFrame g) = true) (ht : g.terminateSearch = true) :
    resumeFrameScan env g = .finish (h2SaveCutFrame env g) false none := by
  simp [resumeFrameScan, hk, ht]

theorem resume_last (henv : Answers env) (h : OnFrame g f rest)
    (hfill : g.bytesLen - g.pos ≤ f.bytes.length) :
    resumeFrameScan env g = .finish (h2SaveCutFrame env g) false none := by
  simp only [resumeFrameScan, h.keeps, h.size]
  rw [if_neg (by simp [GrpcFramesCtx.bytesLen] at *; omega)]
  congr 1
  rw [save_last henv h hfill]
  by_cases heq : f.bytes.length = g.bytesLen - g.pos
  · rw [if_pos heq]
    exact save_at_end henv (h.aligned.advance (le_of_eq heq) g.terminateSearch)
      (by simp [GrpcFramesCtx.bytesLen] at *; omega)
  rw [if_neg heq]
  exact save_behind henv h.aligned.recv h.aligned.small
    (by simp [GrpcFramesCtx.bytesLen] at *; omega)

theorem forget_same (g : GrpcFramesCtx) : SameWalk g (h2ForgetStream g) := ⟨rfl, rfl, rfl, rfl⟩

/-! ## A buffer -/

/-- What a scan of a buffer from position `a` comes to: it took up the frames
`done` and left the entry for the one after them. -/
def Scanned (buf : List UInt8) (a : Nat) (todo : List RawFrame)
    (cut : Option CutFrame) (o : ScanOutcome) : Prop :=
  ∃ done rest saved, todo = done ++ rest ∧ WalkedAt buf a todo o.examined done
    ∧ o.cut = saved.or cut ∧ LeftAt buf (a + (encode done).length) rest saved

theorem Scanned.extend {done : List RawFrame} {cut : Option CutFrame} {o : ScanOutcome}
    (h : Scanned buf (a + (encode done).length) rest cut o)
    (hsplit : todo = done ++ rest) (hw : WalkedAt buf a todo ex done) :
    Scanned buf a todo cut { o with examined := ex ++ o.examined } := by
  obtain ⟨done', rest', saved, hspl', hw', hcut, hleft⟩ := h
  refine ⟨done ++ done', rest', saved, ?_, ?_, hcut, ?_⟩
  · rw [hsplit, hspl', append_assoc]
  · rw [hsplit] at hw ⊢
    exact hw.append hw'
  · rw [encode_append, length_append, ← add_assoc]
    exact hleft

/-- A tail call that did not fail, and what comes of the program called. -/
theorem runScan_call {p' : ScanProg} {cut : Option CutFrame}
    (hprog : runScanProg env g p = (ex, .call p' g'))
    (hfail : (runScan env left p g cut).failed = false) :
    ∃ n, left = n + 1 ∧ runScan env left p g cut = { runScan env n p' g' cut with
          examined := ex ++ (runScan env n p' g' cut).examined } := by
  rw [runScan.eq_def] at hfail ⊢
  simp only [hprog] at hfail ⊢
  cases left with
  | zero => cases hfail
  | succ n => exact ⟨n, rfl, rfl⟩

section
variable {unscanned : Bool} (left : Nat) (cut : Option CutFrame)
  (hprog : runScanProg env g' .grpcFrames = (ex, .finish saved unscanned (handleDataFrame g)))
  (hres : resumeFrameScan env g = .finish saved false none)
  (hforg : resumeFrameScan env (h2ForgetStream g) = .finish saved false none)
include hres hforg

/-- The call after the end of a scan, which changes nothing. -/
theorem runScan_last :
    runScan env left .handleEndFrame g (saved.or cut) = ⟨[], saved.or cut, false, false⟩ := by
  have hexit : obiProtocolHttp2GrpcHandleEndFrame env g = .finish saved false none := by
    rw [obiProtocolHttp2GrpcHandleEndFrame]
    split
    · exact hforg
    · exact hres
  have hor : saved.or (saved.or cut) = saved.or cut := by
    cases saved <;> rfl
  rw [runScan.eq_def]
  simp [runScanProg, hexit, hor]

include hprog

/-- The end of the program behind its loop, once the scan is over. -/
theorem runScan_over :
    runScan env left .grpcFrames g' cut = ⟨ex, saved.or cut, false, unscanned⟩ := by
  rw [runScan.eq_def]
  simp only [hprog]
  cases hlast : handleDataFrame g with
  | none => rfl
  | some pg =>
    have hpg : pg = (.handleEndFrame, g) := by
      simp only [handleDataFrame] at hlast
      split at hlast
      · cases hlast
      split at hlast
      · exact (some.inj hlast).symm
      · cases hlast
    subst hpg
    cases left with
    | zero => rfl
    | succ left => simp [runScan_last left cut hres hforg]

theorem scanned_over {done : List RawFrame} (hsplit : todo = done ++ rest)
    (hw : WalkedAt buf a todo ex done)
    (hleft : LeftAt buf (a + (encode done).length) rest saved) :
    Scanned buf a todo cut (runScan env left .grpcFrames g' cut) := by
  rw [runScan_over left cut hprog hres hforg]
  exact ⟨done, rest, saved, hsplit, hw, rfl, hleft⟩

end

/-- A handler goes on behind its frame, or saves what is left of it. -/
theorem resume_onFrame (henv : Answers env) (h : OnFrame g f rest)
    (ht : g.terminateSearch = false) :
    (∃ g', resumeFrameScan env g = .call .grpcFrames g'
        ∧ g'.terminateSearch = false ∧ Aligned g' rest ∧ g'.buf = g.buf
        ∧ g'.pos = g.pos + f.bytes.length)
      ∨ ∃ saved, resumeFrameScan env g = .finish saved false none
        ∧ LeftAt g.buf.bytes (g.pos + f.bytes.length) rest saved := by
  by_cases hmore : g.pos + f.bytes.length < g.bytesLen
  · refine .inl ⟨{ g with pos := g.pos + f.bytes.length }, ?_, ht, ?_, rfl, rfl⟩
    · simp only [resumeFrameScan, h.keeps, h.size, ht]
      exact if_pos (decide_eq_true hmore)
    · exact h.aligned.advance (by omega) g.terminateSearch
  · have hfill : g.bytesLen - g.pos ≤ f.bytes.length := by omega
    exact .inr ⟨_, resume_last henv h hfill, leftAt_last henv h hfill⟩

/-- The two handlers come to `resume_frame_scan` where they were called. -/
theorem runScanProg_handler (env : ScanEnv) (g : GrpcFramesCtx) (hp : p ≠ .grpcFrames) :
    ∃ g', SameWalk g g' ∧ runScanProg env g p = ([], resumeFrameScan env g') := by
  cases p with
  | grpcFrames => exact absurd rfl hp
  | handleStartFrame => exact ⟨g, SameWalk.refl g, rfl⟩
  | handleEndFrame =>
    simp only [runScanProg, obiProtocolHttp2GrpcHandleEndFrame]
    split
    · exact ⟨h2ForgetStream g, ⟨rfl, rfl, rfl, rfl⟩, rfl⟩
    · exact ⟨g, SameWalk.refl g, rfl⟩

/-- With `left` tail calls, a scan that is not cut short goes over the frames
of its buffer. -/
def ScansFrames (env : ScanEnv) (left : Nat) : Prop :=
  ∀ (g : GrpcFramesCtx) (todo : List RawFrame) (cut : Option CutFrame),
    Aligned g todo → g.terminateSearch = false →
    (runScan env left .grpcFrames g cut).failed = false →
    (runScan env left .grpcFrames g cut).unscanned = false →
    Scanned g.buf.bytes g.pos todo cut (runScan env left .grpcFrames g cut)

def ScansAfter (env : ScanEnv) (left : Nat) : Prop :=
  ∀ (g : GrpcFramesCtx) (f : RawFrame) (rest : List RawFrame)
    (cut : Option CutFrame) (p : ScanProg), p ≠ .grpcFrames →
    OnFrame g f rest → g.terminateSearch = false →
    (runScan env left p g cut).failed = false →
    (runScan env left p g cut).unscanned = false →
    Scanned g.buf.bytes (g.pos + f.bytes.length) rest cut (runScan env left p g cut)

theorem scansAfter_step (henv : Answers env)
    (ih : ∀ n, left = n + 1 → ScansFrames env n) : ScansAfter env left := by
  intro g f rest cut p hp hon ht hfail hscan
  obtain ⟨g1, hsame, hprog⟩ := runScanProg_handler env g hp
  have hon1 := hsame.onFrame hon
  have ht1 := hsame.terminateSearch.trans ht
  rw [← hsame.buf, ← hsame.pos]
  rcases resume_onFrame henv hon1 ht1 with
    ⟨g2, hr, ht2, ha2, hbuf, hpos⟩ | ⟨saved, hr, hleft⟩
  · rw [hr] at hprog
    obtain ⟨n, hn, hcall⟩ := runScan_call hprog hfail
    rw [hcall] at hfail hscan ⊢
    have hnext := ih n hn g2 rest cut ha2 ht2 hfail hscan
    rw [hbuf, hpos] at hnext
    exact hnext
  rw [runScan.eq_def]
  simp only [hprog, hr]
  exact ⟨[], rest, saved, rfl, .nil, rfl, hleft⟩

theorem scansFrames_step (henv : Answers env) (ihFrames : ∀ n, left = n + 1 → ScansFrames env n)
    (ihAfter : ∀ n, left = n + 1 → ScansAfter env n) :
    ScansFrames env left := by
  intro g todo cut ha ht hfail hscan
  have hend := framesLoop_end env kMaxLoopIterations ha ht
  have hprog : runScanProg env g .grpcFrames = obiProtocolHttp2GrpcFrames env g := rfl
  rw [obiProtocolHttp2GrpcFrames] at hprog
  generalize framesLoop env kMaxLoopIterations g = r at hend hprog
  obtain ⟨ex, exit⟩ := r
  cases hend with
  | call done rest f p g' hsplit hw hr ht' hon hp =>
    obtain ⟨n, hn, hcall⟩ := runScan_call hprog hfail
    rw [hcall] at hfail hscan ⊢
    have hnext := ihAfter n hn g' f rest cut p hp hon ht' hfail hscan
    rw [← hr.pos_behind, hr.buf] at hnext
    exact hnext.extend (hsplit.trans (append_cons _ _ _)) hw
  | between done rest g' hsplit hw hr ht' =>
    simp only [afterLoop, ht'] at hprog
    split at hprog
    · obtain ⟨n, hn, hcall⟩ := runScan_call hprog hfail
      rw [hcall] at hfail hscan ⊢
      have hnext := ihFrames n hn g' rest cut hr.aligned ht' hfail hscan
      rw [hr.buf, hr.pos] at hnext
      exact hnext.extend hsplit hw
    by_cases hall : g'.bytesLen ≤ g'.pos
    · have hleft := leftAt_end henv hr.aligned hall
      rw [hr.buf, hr.pos] at hleft
      exact scanned_over left cut hprog (resume_at_end hr.aligned hall)
        (resume_at_end ((forget_same g').aligned hr.aligned) hall)
        hsplit hw hleft
    -- the scan ran out of iterations
    rw [decide_eq_true (Nat.lt_of_not_le hall)] at hprog
    rw [runScan.eq_def] at hscan
    simp only [hprog] at hscan
    split at hscan <;> cases hscan
  | aside done rest f g' hsplit hw hr ht' hlt hk =>
    simp only [afterLoop, ht'] at hprog
    have hleft := leftAt_aside henv hr.aligned hlt hk
    rw [hr.buf, hr.pos] at hleft
    exact scanned_over left cut hprog (resume_aside hk ht') (resume_aside hk ht') hsplit hw hleft
  | last done rest f g' hsplit hw hr ht' hon hfill =>
    simp only [afterLoop, ht'] at hprog
    have hleft := leftAt_last henv hon hfill
    rw [hr.buf, ← hr.pos_behind] at hleft
    exact scanned_over left cut hprog (resume_last henv hon hfill)
      (resume_last henv ((forget_same g').onFrame hon) hfill)
      (hsplit.trans (append_cons _ _ _)) hw hleft

theorem runScan_scanned (henv : Answers env) (left : Nat) : ScansFrames env left := by
  have both : ScansFrames env left ∧ ScansAfter env left := by
    induction left with
    | zero =>
      exact ⟨scansFrames_step henv (fun n h => by omega) (fun n h => by omega),
        scansAfter_step henv (fun n h => by omega)⟩
    | succ left ih =>
      have hf : ∀ n, left + 1 = n + 1 → ScansFrames env n := by
        intro n hn
        cases hn
        exact ih.1
      have hs : ∀ n, left + 1 = n + 1 → ScansAfter env n := by
        intro n hn
        cases hn
        exact ih.2
      exact ⟨scansFrames_step henv hf hs, scansAfter_step henv hf⟩
  exact both.1

/-! ## A stream -/

/-- What the connection's entry stands for when `received` has come in and
the frames `done` have been taken up: the next frame begins as many bytes
ahead as are to be skipped, or as many behind as are kept. -/
structure Standing (received : List UInt8) (done todo : List RawFrame)
    (cut : Option CutFrame) : Prop where
  place : (encode done).length + (cut.getD ⟨0, []⟩).data.length
    = received.length + (cut.getD ⟨0, []⟩).skip
  either : (cut.getD ⟨0, []⟩).skip = 0 ∨ (cut.getD ⟨0, []⟩).data = []
  data : (cut.getD ⟨0, []⟩).data <+: encode todo
  aside : (cut.getD ⟨0, []⟩).data ≠ [] → ∃ f rest, todo = f :: rest
    ∧ SetsAside f (cut.getD ⟨0, []⟩).data.length

variable {received bytes future : List UInt8} {done : List RawFrame}
  {cut : Option CutFrame}

/-- A header at a frame's first byte is plausible. -/
theorem plausible_of_initial {buf : ScanBuf} (hahead : buf.bytes.drop i <+: encode todo)
    (hgood : ∀ f ∈ todo, Scannable f) (hlen : i + 9 ≤ buf.bytes.length) :
    h2FrameHeaderPlausible buf i = true := by
  cases todo with
  | nil =>
    have := hahead.length_le
    rw [encode_nil, length_nil, length_drop] at this
    omega
  | cons f rest =>
    rw [h2FrameHeaderPlausible, read_header hahead hlen]
    exact plausible_headerOf (hgood f mem_cons_self)

/-- Where the frame after the kept one begins in the read. -/
theorem nextAfterKept_eq {data : List UInt8} {rest : List UInt8} (h : data <+: f.bytes ++ rest)
    (hlen : 9 ≤ data.length) :
    nextAfterKept data data.length = f.bytes.length - data.length := by
  have hhdr : data.take 9 = f.header := by
    have hslice := slice_of_initial (n := 9)
      (show data.drop 0 <+: f.bytes ++ rest by rw [drop_zero]; exact h)
      (by rw [f.length_bytes]; omega) (by omega)
    rw [slice, drop_zero] at hslice
    rw [hslice, take_header]
  have hpay : h2FramePayloadLen data = f.payload.length := by
    rw [← f.payloadLen_header, ← hhdr]
    simp [h2FramePayloadLen]
  rw [nextAfterKept, kFrameHeaderLen, if_pos hlen, hpay, f.length_bytes, add_comm 9]

/-- Kept bytes are joined with the read that continues them. -/
theorem joinCutFrame_eq (henv : Answers env) (hdata : c.data <+: encode todo)
    (haside : ∃ f rest, todo = f :: rest ∧ SetsAside f c.data.length)
    (hjoin : c.data ++ bytes <+: encode todo)
    (hgood : ∀ f ∈ todo, Scannable f) (hsm : bytes.length < 8192) :
    joinCutFrame env (.init env tcpRecv bytes) c = { init env tcpRecv bytes with
          buf := ⟨c.data ++ bytes, env.beyond⟩ } := by
  obtain ⟨f, rest, rfl, haside⟩ := haside
  have hcut := haside.lt
  have hkept : min c.data.length kKprobesHttp2BufSize = c.data.length := by
    rw [kKprobesHttp2BufSize]
    rcases haside with hlt | ⟨-, hlt, hle⟩ <;> omega
  have hread : min (init env tcpRecv bytes).bytesLen kIovecMaxLen = bytes.length :=
    min_eq_left (le_of_lt hsm)
  have hnext : nextAfterKept c.data c.data.length = 0 ∨ bytes.length
        < nextAfterKept c.data c.data.length + kFrameHeaderLen
      ∨ h2FrameHeaderPlausible (init env tcpRecv bytes).buf
          (nextAfterKept c.data c.data.length) = true := by
    by_cases hlen : 9 ≤ c.data.length
    · rw [nextAfterKept_eq hdata hlen]
      by_cases hsh : bytes.length < f.bytes.length - c.data.length + 9
      · exact .inr (.inl hsh)
      -- the next frame's header is all in the read
      have hrest : bytes.drop (f.bytes.length - c.data.length) <+: encode rest := by
        have := drop_prefix_append hjoin (by rw [length_append]; omega)
        rwa [drop_append, drop_eq_nil_of_le (by omega)] at this
      exact .inr (.inr (plausible_of_initial hrest (fun x hx => hgood x (mem_cons_of_mem _ hx))
        (show f.bytes.length - c.data.length + 9 ≤ bytes.length by omega)))
    · exact .inl (if_neg hlen)
  simp only [joinCutFrame, hkept, hread]
  rw [if_pos ⟨henv.joinedMem, hnext⟩,
    read_eq_slice (show 0 + bytes.length ≤ bytes.length by omega), slice]
  simp [init]

/-- The walk of a read starts at the first byte of the next frame. -/
structure Starts (received bytes : List UInt8) (done todo : List RawFrame)
    (g : GrpcFramesCtx) : Prop where
  aligned : Aligned g todo
  going : g.terminateSearch = false
  place : (encode done).length + (g.bytesLen - g.pos) = received.length + bytes.length

section
variable (h : Standing received done todo cut)
  (hstrm : received ++ (bytes ++ future) = encode done ++ encode todo)
include h hstrm

/-- The kept bytes and the read continue the stream at the next frame. -/
theorem Standing.joined (hskip : (cut.getD ⟨0, []⟩).skip = 0) :
    (cut.getD ⟨0, []⟩).data ++ bytes <+: encode todo := by
  have hplace := h.place
  have hdrop : received.drop (encode done).length ++ (bytes ++ future) = encode todo := by
    rw [← drop_append_of_le_length (by omega), hstrm, drop_left]
  have hkept : received.drop (encode done).length = (cut.getD ⟨0, []⟩).data := by
    have hlen : (received.drop (encode done).length).length = (cut.getD ⟨0, []⟩).data.length := by
      rw [length_drop]
      omega
    refine List.IsPrefix.eq_of_length ?_ hlen
    refine prefix_of_prefix_length_le ?_ h.data (le_of_eq hlen)
    exact ⟨_, hdrop⟩
  rw [← hkept, ← hdrop, ← append_assoc]
  exact prefix_append _ _

/-- Behind the bytes to skip the read continues at the next frame. -/
theorem Standing.skipped (hskip : (cut.getD ⟨0, []⟩).data = [])
    (hle : (cut.getD ⟨0, []⟩).skip ≤ bytes.length) :
    bytes.drop (cut.getD ⟨0, []⟩).skip <+: encode todo := by
  have hplace := h.place
  rw [hskip, length_nil, add_zero] at hplace
  have hdrop : (received ++ (bytes ++ future)).drop (encode done).length
      = bytes.drop (cut.getD ⟨0, []⟩).skip ++ future := by
    rw [hplace, ← drop_drop, drop_left, drop_append_of_le_length hle]
  rw [hstrm, drop_left] at hdrop
  rw [hdrop]
  exact prefix_append _ _

variable (hgood : ∀ f ∈ todo, Scannable f)
include hgood

/-- With nothing to skip the walk starts at the kept bytes. -/
theorem Standing.starts_joined (hsm : (cut.getD ⟨0, []⟩).data.length + bytes.length < 8192)
    (hskip : (cut.getD ⟨0, []⟩).skip = 0) :
    Starts received bytes done todo { init env tcpRecv bytes with
        buf := ⟨(cut.getD ⟨0, []⟩).data ++ bytes, env.beyond⟩ } := by
  have hplace := h.place
  refine ⟨⟨rfl, ?_, zero_le _, h.joined hstrm hskip, hgood⟩, rfl, ?_⟩
  · show ((cut.getD ⟨0, []⟩).data ++ bytes).length < 8192
    rw [length_append]
    exact hsm
  · show (encode done).length + (((cut.getD ⟨0, []⟩).data ++ bytes).length - 0) = _
    rw [length_append]
    omega

/-- With nothing kept the walk starts behind the bytes to skip. -/
theorem Standing.starts_skipped (hsm : bytes.length < 8192) (hdata : (cut.getD ⟨0, []⟩).data = [])
    (hle : (cut.getD ⟨0, []⟩).skip ≤ bytes.length) :
    Starts received bytes done todo { init env tcpRecv bytes with
        pos := (cut.getD ⟨0, []⟩).skip } := by
  have hplace := h.place
  rw [hdata, length_nil] at hplace
  refine ⟨⟨rfl, hsm, hle, h.skipped hstrm hdata hle, hgood⟩, rfl, ?_⟩
  show (encode done).length + (bytes.length - (cut.getD ⟨0, []⟩).skip) = _
  omega

/-- How a read picks up the connection's entry: all of it lies inside a frame,
or its walk starts at the next frame. -/
theorem resume_standing (henv : Answers env)
    (hsm : (cut.getD ⟨0, []⟩).data.length + bytes.length < 8192) :
    (∃ c, cut = some c ∧ bytes.length ≤ c.skip ∧ h2ResumeCutFrame env (.init env tcpRecv bytes) cut
          = ({ init env tcpRecv bytes with pos := bytes.length },
            some { c with skip := c.skip - bytes.length }))
      ∨ ∃ g, h2ResumeCutFrame env (.init env tcpRecv bytes) cut = (g, none)
        ∧ Starts received bytes done todo g := by
  have hjoin := @Standing.starts_joined _ env _ _ _ _ _ h hstrm hgood hsm
  have hlen : (init env tcpRecv bytes).bytesLen = bytes.length := rfl
  have htrk : h2TracksCutFrames (.init env tcpRecv bytes) = true := by
    exact decide_eq_true (show bytes.length < 8192 by omega)
  rw [h2ResumeCutFrame.eq_def, if_neg (by simp [init]), if_neg (by simp [henv.lookup])]
  cases cut with
  | none => exact .inr ⟨_, rfl, hjoin rfl⟩
  | some c =>
    have hdata : c.data <+: encode todo := h.data
    simp only [getD_some] at hjoin hsm
    simp only [hlen]
    by_cases hin : bytes.length ≤ c.skip
    · rw [if_pos ⟨hin, htrk⟩]
      exact .inl ⟨c, rfl, hin, rfl⟩
    rw [if_neg (fun hc => hin hc.1)]
    by_cases hz : c.skip = 0
    · rw [if_neg (fun hc => hc.1 hz)]
      refine .inr ⟨_, ?_, hjoin hz⟩
      by_cases hd : c.data = []
      · rw [if_neg (fun hc => hc.2 (by rw [hd]; rfl)), hd]
        rfl
      · rw [if_pos ⟨hz, fun hl => hd (eq_nil_of_length_eq_zero hl)⟩,
          joinCutFrame_eq henv hdata (h.aside hd) (h.joined hstrm hz) hgood (by omega)]
    · have hnil : c.data = [] := h.either.resolve_left hz
      have hle : c.skip ≤ bytes.length := by omega
      have hok : c.skip ≠ 0 ∧ c.skip < bytes.length ∧ (bytes.length - c.skip < kFrameHeaderLen
            ∨ h2FrameHeaderPlausible (init env tcpRecv bytes).buf c.skip = true) := by
        refine ⟨hz, by omega, ?_⟩
        by_cases hcut : bytes.length - c.skip < kFrameHeaderLen
        · exact .inl hcut
        rw [kFrameHeaderLen] at hcut
        exact .inr (plausible_of_initial (h.skipped hstrm hnil hle) hgood
          (show c.skip + 9 ≤ bytes.length by omega))
      rw [if_pos hok]
      exact .inr ⟨_, rfl, h.starts_skipped hstrm hgood (by omega) hnil hle⟩

end

/-! ## Reads -/

/-- The read meets the contract: with the bytes kept before it, it is shorter
than what the scan looks at, the maps and the memory answer, no tail call
fails, and no frame is left unread for want of iterations. -/
def Undisturbed (cut : Option CutFrame) (r : H2Read) : Prop :=
  (cut.getD ⟨0, []⟩).data.length + r.bytes.length < kIovecMaxLen ∧ Answers r.env
    ∧ (obiProtocolHttp2 r.env tcpRecv r.bytes cut).failed = false
    ∧ (obiProtocolHttp2 r.env tcpRecv r.bytes cut).unscanned = false

def AllUndisturbed : Option CutFrame → List H2Read → Prop
  | _, [] => True
  | cut, r :: rest =>
    Undisturbed cut r ∧ AllUndisturbed (obiProtocolHttp2 r.env tcpRecv r.bytes cut).cut rest

/-- A read inside a frame leaves fewer bytes to skip. -/
theorem Standing.inside (h : Standing received done todo (some c)) (hin : bytes.length ≤ c.skip) :
    Standing (received ++ bytes) done todo (some { c with skip := c.skip - bytes.length }) := by
  have hplace := h.place
  simp only [getD_some] at hplace
  refine ⟨?_, ?_, h.data, h.aside⟩
  · simp only [getD_some, length_append]
    omega
  · refine h.either.imp (fun hz => ?_) id
    simp only [getD_some] at hz ⊢
    omega

/-- The entry a scan saved stands for the place it reached. -/
theorem Starts.standing (h : Starts received bytes done todo g)
    (hat : LeftAt g.buf.bytes (g.pos + (encode done').length) rest saved) :
    Standing (received ++ bytes) (done ++ done') rest saved := by
  have hplace := h.place
  have hpos := h.aligned.pos_le
  rw [GrpcFramesCtx.bytesLen] at hplace hpos
  rcases hat with ⟨heq, rfl⟩ | ⟨hlt, rfl⟩ | ⟨hlt, rfl, hahead, haside⟩
  · refine ⟨?_, .inl rfl, nil_prefix, fun hne => absurd rfl hne⟩
    simp only [getD_none, length_nil, encode_append, length_append]
    omega
  · refine ⟨?_, .inr rfl, nil_prefix, fun hne => absurd rfl hne⟩
    simp only [getD_some, length_nil, encode_append, length_append]
    omega
  · refine ⟨?_, .inl rfl, hahead, fun _ => ?_⟩
    · simp only [getD_some, length_drop, encode_append, length_append]
      omega
    obtain ⟨f, rest', hrest, hsets⟩ := haside
    refine ⟨f, rest', hrest, ?_⟩
    rw [getD_some, length_drop]
    exact hsets

/-- Nothing is saved for a scan that starts at the end of its buffer. -/
theorem LeftAt.at_end (h : LeftAt buf buf.length rest saved) : saved = none := by
  rcases h with h | h | h
  · exact h.2
  · exact absurd h.1 (lt_irrefl _)
  · exact absurd h.1 (lt_irrefl _)

/-- The byte of the stream a header was looked for at, when the buffer ends at byte `stop`. -/
def streamOffset (stop : Nat) (e : Examined) : Nat := stop - (e.buf.length - e.pos)

/-- At which bytes of the stream headers are looked for, and which of them are set aside. The
buffer of a read ends where the read does. -/
def lookedAt (received : Nat) : Option CutFrame → List H2Read → List (Nat × Bool)
  | _, [] => []
  | cut, r :: rest =>
    let o := obiProtocolHttp2 r.env tcpRecv r.bytes cut
    let stop := received + r.bytes.length
    o.examined.map (fun e => (streamOffset stop e, e.setAside)) ++ lookedAt stop o.cut rest

/-- The frames of `all` begin at byte `start`. Those of `done` are taken up at their first
bytes, in order, and nothing is looked for elsewhere. -/
structure OnFirstBytes (start : Nat) (all : List RawFrame) (looked : List (Nat × Bool))
    (done : List RawFrame) : Prop where
  taken : (looked.filter fun p => !p.2).map Prod.fst = frameOffsets start done
  only : ∀ p ∈ looked, p.1 ∈ frameOffsets start all

theorem OnFirstBytes.append {start : Nat} {looked looked' : List (Nat × Bool)}
    {pre : List RawFrame} (h : OnFirstBytes start (pre ++ rest) looked pre)
    (h' : OnFirstBytes (start + (encode pre).length) rest looked' done') :
    OnFirstBytes start (pre ++ rest) (looked ++ looked') (pre ++ done') where
  taken := by rw [filter_append, map_append, h.taken, h'.taken, frameOffsets_append]
  only p hp := by
    refine (mem_append.mp hp).elim (h.only p) fun hp => ?_
    rw [frameOffsets_append]
    exact mem_append_right _ (h'.only p hp)

theorem WalkedAt.onFirstBytes {start stop : Nat} (h : WalkedAt buf a all ex done)
    (hplace : start + (buf.length - a) = stop) :
    OnFirstBytes start all (ex.map fun e => (streamOffset stop e, e.setAside)) done := by
  have hoff : ∀ e ∈ ex, streamOffset stop e = start + (e.pos - a) := by
    intro e he
    obtain ⟨hbuf, hle⟩ := h.within e he
    have hge := le_of_mem_frameOffsets (h.onFrames e he)
    rw [streamOffset, hbuf]
    omega
  refine ⟨?_, fun p hp => ?_⟩
  · rw [List.filter_map, List.map_map, ← frameOffsets_shift a, ← h.starts, List.map_map]
    exact map_congr_left fun e he => hoff e (mem_of_mem_filter he)
  · obtain ⟨e, he, rfl⟩ := mem_map.mp hp
    rw [← frameOffsets_shift a]
    exact mem_map.mpr ⟨e.pos, h.onFrames e he, (hoff e he).symm⟩

/-- One read: the frames that begin in it are taken up, but for one that is
set aside, and the entry stands for the place reached. -/
theorem read_standing {r : H2Read} (h : Standing received done todo cut)
    (hstrm : received ++ (r.bytes ++ future) = encode done ++ encode todo)
    (hgood : ∀ f ∈ todo, Scannable f) (hread : Undisturbed cut r) :
    ∃ done' rest, todo = done' ++ rest
      ∧ Walked todo (obiProtocolHttp2 r.env tcpRecv r.bytes cut).examined done'
      ∧ OnFirstBytes (encode done).length todo
          ((obiProtocolHttp2 r.env tcpRecv r.bytes cut).examined.map fun e =>
            (streamOffset (received.length + r.bytes.length) e, e.setAside)) done'
      ∧ Standing (received ++ r.bytes) (done ++ done') rest
          (obiProtocolHttp2 r.env tcpRecv r.bytes cut).cut := by
  obtain ⟨hsm, henv, hfail, hscan⟩ := hread
  rw [kIovecMaxLen] at hsm
  rw [obiProtocolHttp2] at hfail hscan ⊢
  cases hcalls : r.env.tailCalls with
  | zero =>
    rw [hcalls] at hfail
    cases hfail
  | succ left =>
    rw [hcalls] at hfail hscan
    rcases resume_standing h hstrm hgood henv hsm with
      ⟨c, rfl, hin, hres⟩ | ⟨g, hres, hstarts⟩
    · rw [hres] at hfail hscan ⊢
      have ha : Aligned { init r.env tcpRecv r.bytes with pos := r.bytes.length } [] :=
        ⟨rfl, show r.bytes.length < 8192 by omega, le_rfl, by
          show r.bytes.drop r.bytes.length <+: encode []
          rw [drop_length]
          exact nil_prefix, fun _ hf => nomatch hf⟩
      obtain ⟨done', rest, saved, hsplit, hw, hcut, hat⟩ :=
        runScan_scanned henv left _ [] _ ha rfl hfail hscan
      obtain ⟨rfl, rfl⟩ := nil_eq_append_iff.1 hsplit
      have hnone := eq_nil_iff_forall_not_mem.mpr fun e he => not_mem_nil (hw.onFrames e he)
      refine ⟨[], todo, rfl, hw.mono (nil_subset _), ?_, ?_⟩
      · exact ⟨by rw [hnone]; rfl, fun p hp => absurd (hnone ▸ hp) not_mem_nil⟩
      rw [hcut, hat.at_end, append_nil]
      exact h.inside hin
    · rw [hres] at hfail hscan ⊢
      obtain ⟨done', rest, saved, hsplit, hw, hcut, hat⟩ :=
        runScan_scanned henv left g todo none hstarts.aligned hstarts.going hfail hscan
      refine ⟨done', rest, hsplit, hw.toWalked, hw.onFirstBytes hstarts.place, ?_⟩
      rw [hcut, or_none]
      exact hstarts.standing hat

theorem reads_standing {reads : List H2Read} (h : Standing received done todo cut)
    (hstrm : received ++ (reads.flatMap H2Read.bytes ++ future) = encode done ++ encode todo)
    (hgood : ∀ f ∈ todo, Scannable f) (hreads : AllUndisturbed cut reads) :
    ∃ done' rest cut', todo = done' ++ rest
      ∧ Walked todo ((scanReads cut reads).flatMap examined) done'
      ∧ OnFirstBytes (encode done).length todo (lookedAt received.length cut reads) done'
      ∧ Standing (received ++ reads.flatMap H2Read.bytes) (done ++ done') rest cut' := by
  induction reads generalizing received done todo cut with
  | nil =>
    refine ⟨[], todo, cut, rfl, Walked.nil _, ⟨rfl, fun _ h => absurd h not_mem_nil⟩, ?_⟩
    rw [flatMap_nil, append_nil, append_nil]
    exact h
  | cons r reads ih =>
    obtain ⟨hread, hreads⟩ := hreads
    rw [flatMap_cons, append_assoc] at hstrm
    obtain ⟨done1, rest1, hsplit, hw1, hon1, h₁⟩ := read_standing h hstrm hgood hread
    have hgood1 : ∀ f ∈ rest1, Scannable f := fun f hf =>
      hgood f (by rw [hsplit]; exact mem_append_right _ hf)
    have hstrm1 : received ++ r.bytes ++ (reads.flatMap H2Read.bytes ++ future)
        = encode (done ++ done1) ++ encode rest1 := by
      rw [append_assoc, hstrm, hsplit, encode_append, encode_append, append_assoc]
    obtain ⟨done2, rest2, cut', hspl2, hw2, hon2, h2⟩ := ih h₁ hstrm1 hgood1 hreads
    refine ⟨done1 ++ done2, rest2, cut', ?_, ?_, ?_, ?_⟩
    · rw [hsplit, hspl2, append_assoc]
    · refine hw1.append (hw2.mono fun f hf => ?_)
      rw [hsplit]
      exact mem_append_right _ hf
    · rw [encode_append, length_append, length_append] at hon2
      rw [hsplit] at hon1 ⊢
      exact hon1.append hon2
    · rw [flatMap_cons, ← append_assoc, ← append_assoc]
      exact h2

/-- When all of a stream has come in, no frame is left. -/
theorem Standing.nothing_left (h : Standing received done todo cut)
    (hall : received.length = (encode done).length + (encode todo).length) :
    todo = [] := by
  have hplace := h.place
  cases todo with
  | nil => rfl
  | cons f rest =>
    rw [encode_cons, length_append] at hall
    have hsize := f.length_bytes
    by_cases hd : (cut.getD ⟨0, []⟩).data = []
    · rw [hd, length_nil] at hplace
      omega
    obtain ⟨f', rest', heq, haside⟩ := h.aside hd
    cases heq
    have hlt := haside.lt
    rcases h.either with hz | hnil
    · omega
    · exact absurd hnil hd

/-- However a stream of frames is cut into reads, the scan takes up the header
of every frame exactly once, in order and at the frame's first byte, with as
many of the frame's bytes behind it as the buffer has, and all of them for a
HEADERS frame of at most 256 bytes. It looks at nothing but the beginnings of
frames: the bytes of the stream it looks at are their first ones. -/
theorem reads_visit_every_frame {frames : List RawFrame} {reads : List H2Read}
    (hgood : ∀ f ∈ frames, Scannable f)
    (hsplit : reads.flatMap H2Read.bytes = encode frames)
    (hreads : AllUndisturbed none reads) :
    List.Forall₂ SeenAt (((scanReads none reads).flatMap examined).filter
          fun e => !e.setAside) frames
      ∧ (∀ e ∈ (scanReads none reads).flatMap examined,
          e.setAside = true → ∃ f ∈ frames, AsideAt e f)
      ∧ OnFirstBytes 0 frames (lookedAt 0 none reads) frames := by
  have hstart : Standing [] [] frames none := ⟨rfl, .inl rfl, nil_prefix, fun hne => absurd rfl hne⟩
  obtain ⟨done, rest, cut, hfrs, hw, hon, hend⟩ := @reads_standing frames [] [] []
    none reads hstart (by rw [hsplit, append_nil]; rfl) hgood hreads
  have hlen : ([] ++ reads.flatMap H2Read.bytes).length
      = (encode ([] ++ done)).length + (encode rest).length := by
    rw [nil_append, nil_append, hsplit, hfrs, encode_append, length_append]
  have hrest := hend.nothing_left hlen
  rw [hrest, append_nil] at hfrs
  rw [hfrs] at hw hon ⊢
  exact ⟨hw.seen, hw.aside, hon⟩

/-- A SETTINGS and a HEADERS frame. -/
def scanFrames : List RawFrame :=
  [⟨4, 0, zeroId 4, [], empty_lt⟩, ⟨1, 4, streamOne, [0x82, 0x86, 0x84], by decide⟩]

def scanSampleEnv : ScanEnv where
  tailCalls := 33
  beyond := fun _ => 0
  prev := fun _ => none
  info := fun _ => none
  lookup := true
  cutMem := true
  joinedMem := true
  update := true

/-- The two frames in three reads: one ends in the first header, one in the
HEADERS frame. -/
def scanSampleReads : List H2Read :=
  [⟨(encode scanFrames).take 4, scanSampleEnv⟩,
    ⟨((encode scanFrames).drop 4).take 16, scanSampleEnv⟩,
    ⟨(encode scanFrames).drop 20, scanSampleEnv⟩]

theorem reads_visit_every_frame_sample : List.Forall₂ SeenAt
        (((scanReads none scanSampleReads).flatMap examined).filter fun e => !e.setAside) scanFrames
      ∧ (∀ e ∈ (scanReads none scanSampleReads).flatMap examined,
          e.setAside = true → ∃ f ∈ scanFrames, AsideAt e f)
      ∧ OnFirstBytes 0 scanFrames (lookedAt 0 none scanSampleReads) scanFrames := by
  have henv : Answers scanSampleEnv := ⟨rfl, rfl, rfl, rfl⟩
  refine reads_visit_every_frame ?_ ?_ ⟨⟨?_, henv, ?_, ?_⟩,
    ⟨?_, henv, ?_, ?_⟩, ⟨?_, henv, ?_, ?_⟩, trivial⟩
  · intro f hf
    rcases mem_pair.1 hf with rfl | rfl <;>
      exact ⟨by decide, by decide, by decide⟩
  all_goals decide +kernel

end Obi.Refine
