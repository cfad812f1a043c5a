import Obi.Proofs.WriteTransaction
import Obi.Spec.H2Frame

/-!
# An injected message keeps its meaning

The parser is local: at the start of a complete frame, what `parse_h2_frame_at`
answers depends on that frame and on the pulls, and not on what surrounds it
(`frameAt_frame`). So walking a message of complete frames is a recursion
over the frames (`walkFrames_encode`), and an injection that replaces one frame
by the frame with a longer block is seen by the walk as exactly that.

The pulls of the walk are arbitrary: a walk that stops early on the old message
stops at the same frame of the new one.
-/

namespace Obi.Refine
open Lib Ref Spec List RawFrame Nat

/-! ## Walking a message -/

/-- A parsed frame, with the pieces of its payload cut out of the message. -/
def frameView (bytes : List UInt8) (pos : Nat) (f : H2FrameInfo) : FrameView :=
  let start := pos + kH2FrameHeaderLen
  { ftype := f.ftype
    flags := f.flags
    rBit := f.rBit
    streamId := f.streamId
    isHeadersEnd := f.isHeadersEnd
    lead := if f.isHeadersEnd then slice bytes start (f.hpackOffset - start) else []
    block :=
      if f.isHeadersEnd then slice bytes f.hpackOffset f.hpackLen
      else slice bytes start f.payloadLen
    padding :=
      if f.isHeadersEnd then
        slice bytes (f.hpackOffset + f.hpackLen)
          (start + f.payloadLen - (f.hpackOffset + f.hpackLen))
      else [] }

/-- The frames `parse_h2_frame_at` yields from `pos` on, each with its position,
until the message ends or a parse gives up. -/
def walkFrames (ans : Nat → ParseAnswers) (msg : SkMsg) :
    (fuel i pos : Nat) → List (Nat × FrameView)
  | 0, _, _ => []
  | fuel + 1, i, pos =>
    if pos ≥ msg.size then []
    else match parseH2FrameAt (ans i) msg pos msg.size with
    | none => []
    | some f =>
      (pos, frameView msg.bytes pos f) ::
        walkFrames ans msg fuel (i + 1) (u32 (pos + kH2FrameHeaderLen + f.payloadLen))

/-- The whole walk: a frame has at least nine bytes, so the size is fuel
enough. -/
def walkMessage (ans : Nat → ParseAnswers) (msg : SkMsg) : List (Nat × FrameView) :=
  walkFrames ans msg msg.size 0 0

/-! ## The parser on one complete frame -/

/-- The pulls of a parse show what it asks of the frame. -/
def framePulls (ans : ParseAnswers) (f : RawFrame) : Bool :=
  ans.header.shows 9 && (!f.isHeadersEnd || f.flags &&& kH2FlagPadded == 0 || ans.padded.shows 10)

/-- The parser has no objection to the frame. -/
def frameFits (f : RawFrame) : Bool :=
  decide (f.payload.length ≤ kH2MaxFrameLen) &&
    (!f.isHeadersEnd || decide (h2HpackPrefixLen f.flags + f.padLen < f.payload.length))

/-- What the parser says about the frame at `pos`. -/
def frameInfo (f : RawFrame) (pos : Nat) : H2FrameInfo :=
  if f.isHeadersEnd then
    { frameInfoOf f.header with
      hpackOffset := pos + kH2FrameHeaderLen + h2HpackPrefixLen f.flags
      hpackLen := f.blockLen }
  else frameInfoOf f.header

theorem headersEnd_infoOf (f : RawFrame) :
    (frameInfoOf f.header).isHeadersEnd = f.isHeadersEnd := by
  rw [frameInfoOf, f.payloadLen_header]
  rfl

theorem payloadLen_info (f : RawFrame) (pos : Nat) :
    (frameInfo f pos).payloadLen = f.payload.length := by
  unfold frameInfo
  split <;> exact f.payloadLen_header

variable {s : Chain} {env : HopEnv} {n : Nat}

section
variable {msg : SkMsg} {pre post : List UInt8} {f : RawFrame}
  (hmsg : msg.bytes = pre ++ (f.bytes ++ post))
include hmsg

theorem frame_bound : pre.length + 9 + f.payload.length ≤ msg.bytes.length ∧
      msg.bytes.length < 4294967296 := by
  refine ⟨?_, msg.size_lt⟩
  rw [hmsg, length_append, length_append, f.length_bytes]
  omega

/-- Bytes of the frame, read out of the message. -/
theorem slice_frame {i : Nat} (h : i + n ≤ f.bytes.length) :
    slice msg.bytes (pre.length + i) n = slice f.bytes i n := by
  rw [hmsg, slice_append_add, slice_append_of_le h]

theorem slice_payload {i : Nat} (h : i + n ≤ f.payload.length) :
    slice msg.bytes (pre.length + 9 + i) n = slice f.payload i n := by
  rw [add_assoc, slice_frame hmsg (by rw [f.length_bytes]; omega), bytes,
    ← f.length_header, slice_append_add]

theorem slice_header : slice msg.bytes pre.length 9 = f.header := by
  have h := slice_frame hmsg (i := 0) (n := 9) (by rw [f.length_bytes]; omega)
  rw [add_zero] at h
  rw [h, bytes, slice_append_of_le (by have := f.length_header; omega), slice,
    drop_zero, ← f.length_header, take_length]

/-- The byte after the header is the first of the payload. -/
theorem slice_padByte (hpay : f.payload.length ≠ 0) :
    (slice msg.bytes pre.length 10).getD 9 0 = f.payload.getD 0 0 := by
  have h := slice_frame hmsg (i := 0) (n := 10) (by rw [f.length_bytes]; omega)
  rw [add_zero] at h
  rw [h, bytes]
  cases hp : f.payload with
  | nil => rw [hp] at hpay; exact absurd rfl hpay
  | cons b rest =>
    have hcut : slice (f.header ++ b :: rest) 0 10 = f.header ++ [b] := by
      rw [slice, drop_zero, take_append, f.length_header,
        take_of_length_le (by rw [f.length_header]; omega)]
      rfl
    rw [hcut]
    simp

/-- The pad length of a frame with a payload. -/
theorem h2PadLen_frame (hpay : f.payload.length ≠ 0) (ans : PullAnswer) :
    h2PadLen ans msg pre.length msg.size f.flags =
      if f.flags &&& kH2FlagPadded = 0 ∨ ans.shows 10 = true then some f.padLen else none := by
  obtain ⟨hle, hlt⟩ := frame_bound hmsg
  unfold h2PadLen
  by_cases hpad : f.flags &&& kH2FlagPadded = 0
  · rw [if_neg (fun h => h hpad), if_pos (.inl hpad), padLen, if_neg (fun h => h hpad)]
  have hbound : pre.length + 10 ≤ msg.bytes.length := by omega
  have hu : u32 (pre.length + kH2FrameHeaderLen + 1) = pre.length + 10 :=
    u32_of_lt (by simp only [kH2FrameHeaderLen]; omega)
  rw [if_pos hpad, hu, if_neg (by rw [SkMsg.size]; omega)]
  by_cases hshow : ans.shows 10 = true
  · rw [if_pos (.inr hshow), padLen, if_pos hpad, show kH2FrameHeaderLen + 1 = 10 from rfl,
      SkMsg.pullView_shows (by decide) hbound hshow]
    simp only []
    rw [show kH2FrameHeaderLen = 9 from rfl, slice_padByte hmsg hpay]
  rw [if_neg (fun h => h.elim hpad hshow)]
  split
  · next d hd => exact absurd hd (SkMsg.pullView_not_shows (by simpa using hshow) d)
  · rfl

/-- At the start of a complete frame the parser answers for that frame alone. -/
theorem frameAt_frame (ans : ParseAnswers) : parseH2FrameAt ans msg pre.length msg.size =
      if framePulls ans f && frameFits f then some (frameInfo f pre.length) else none := by
  obtain ⟨hle, hlt⟩ := frame_bound hmsg
  have hu : u32 (pre.length + kH2FrameHeaderLen) = pre.length + 9 :=
    u32_of_lt (by simp only [kH2FrameHeaderLen]; omega)
  unfold parseH2FrameAt framePulls frameFits
  rw [hu, if_neg (by rw [SkMsg.size]; omega)]
  by_cases hshow : ans.header.shows 9 = true
  · rw [show kH2FrameHeaderLen = 9 from rfl,
      SkMsg.pullView_shows (by decide) (by omega) hshow, slice_header hmsg, hshow]
    simp only [Bool.true_and]
    have hlen : (frameInfoOf f.header).payloadLen = f.payload.length := f.payloadLen_header
    have hflags : (frameInfoOf f.header).flags = f.flags := rfl
    rw [hflags, headersEnd_infoOf]
    by_cases hmax : f.payload.length ≤ kH2MaxFrameLen
    · rw [if_neg (by omega), decide_eq_true hmax]
      cases hend : f.isHeadersEnd with
      | false => simp [frameInfo, hend]
      | true =>
        have hpay : f.payload.length ≠ 0 := by
          intro h0
          simp [isHeadersEnd, h0] at hend
        have hread : (f.flags &&& kH2FlagPadded == 0 || ans.padded.shows 10) =
            decide (f.flags &&& kH2FlagPadded = 0 ∨ ans.padded.shows 10 = true) := by
          rw [Bool.decide_or, Bool.decide_eq_true]
          rfl
        rw [if_neg (by simp), h2PadLen_frame hmsg hpay, Bool.not_true, Bool.false_or,
          Bool.false_or, hread]
        by_cases hr : f.flags &&& kH2FlagPadded = 0 ∨ ans.padded.shows 10 = true
        · rw [if_pos hr, decide_eq_true hr, Bool.true_and, Bool.true_and]
          simp only []
          by_cases hfit : h2HpackPrefixLen f.flags + f.padLen < f.payload.length
          · have hoff : u32 (pre.length + kH2FrameHeaderLen + h2HpackPrefixLen f.flags) =
                pre.length + kH2FrameHeaderLen + h2HpackPrefixLen f.flags :=
              u32_of_lt (by simp only [kH2FrameHeaderLen]; omega)
            rw [if_neg (by omega), if_pos (decide_eq_true hfit), frameInfo,
              show 9 = kH2FrameHeaderLen from rfl, hoff, blockLen]
            simp [hlen, hflags, headersEnd_infoOf, hend]
          · rw [if_pos (by omega), if_neg (by simp [hfit])]
        · rw [if_neg hr, decide_eq_false hr]
          simp
    · rw [if_pos (by omega), decide_eq_false hmax]
      simp
  · split
    · next d hd => exact absurd hd (SkMsg.pullView_not_shows (by simpa using hshow) d)
    · rw [Bool.eq_false_iff.mpr hshow]
      simp

/-- The pieces of an accepted frame, cut out of the message, are the frame's
own. -/
theorem frameView_frame (hfits : frameFits f = true) :
    frameView msg.bytes pre.length (frameInfo f pre.length) = f.view := by
  have hwh : slice msg.bytes (pre.length + 9) f.payload.length = f.payload := by
    have h := slice_payload hmsg (i := 0) (n := f.payload.length) (by omega)
    rw [h, slice, drop_zero, take_length]
  unfold frameView frameInfo view
  cases hend : f.isHeadersEnd with
  | false =>
    simp only [Bool.false_eq_true, if_false, headersEnd_infoOf, hend]
    have hlen : (frameInfoOf f.header).payloadLen = f.payload.length := f.payloadLen_header
    rw [hlen, show kH2FrameHeaderLen = 9 from rfl, hwh]
    rfl
  | true =>
    have hfit : h2HpackPrefixLen f.flags + f.padLen < f.payload.length := by
      simp only [frameFits, hend, Bool.not_true, Bool.false_or, Bool.and_eq_true,
        decide_eq_true_eq] at hfits
      exact hfits.2
    simp only [if_true, headersEnd_infoOf, hend]
    have hlen : (frameInfoOf f.header).payloadLen = f.payload.length := f.payloadLen_header
    have hblk : f.blockLen = f.payload.length - h2HpackPrefixLen f.flags - f.padLen := rfl
    rw [hlen, show kH2FrameHeaderLen = 9 from rfl, Nat.add_sub_cancel_left]
    have hlead : slice msg.bytes (pre.length + 9) (h2HpackPrefixLen f.flags) =
        f.payload.take (h2HpackPrefixLen f.flags) := by
      have h := slice_payload hmsg (i := 0) (n := h2HpackPrefixLen f.flags) (by omega)
      rw [h, slice, drop_zero]
    have hpad : slice msg.bytes (pre.length + 9 + h2HpackPrefixLen f.flags + f.blockLen)
        (pre.length + 9 + f.payload.length -
          (pre.length + 9 + h2HpackPrefixLen f.flags + f.blockLen)) =
        f.payload.drop (h2HpackPrefixLen f.flags + f.blockLen) := by
      rw [add_assoc (pre.length + 9), slice_payload hmsg (by omega), slice,
        take_of_length_le (by rw [length_drop]; omega)]
    rw [hlead, hpad, slice_payload hmsg (by omega)]
    rfl

end

/-! ## The walk of a message of complete frames -/

/-- The walk as a recursion over the frames. -/
def walkRaw (ans : Nat → ParseAnswers) : (i pos : Nat) → List RawFrame → List (Nat × FrameView)
  | _, _, [] => []
  | i, pos, f :: fs =>
    if framePulls (ans i) f && frameFits f then
      (pos, f.view) :: walkRaw ans (i + 1) (pos + f.bytes.length) fs
    else []

theorem walkFrames_encode {msg : SkMsg} (ans : Nat → ParseAnswers) {pre : List UInt8}
    {fs : List RawFrame} (hmsg : msg.bytes = pre ++ encode fs) (fuel i : Nat)
    (hfuel : fs.length ≤ fuel) :
    walkFrames ans msg fuel i pre.length = walkRaw ans i pre.length fs := by
  induction fs generalizing pre fuel i with
  | nil =>
    have hend : ¬ pre.length < msg.size := by
      rw [SkMsg.size, hmsg, encode_nil, append_nil]
      omega
    cases fuel with
    | zero => rfl
    | succ fuel => rw [walkFrames, if_pos (Nat.le_of_not_lt hend), walkRaw]
  | cons f fs ih =>
    cases fuel with
    | zero => simp at hfuel
    | succ fuel =>
      rw [encode_cons] at hmsg
      obtain ⟨hle, hlt⟩ := frame_bound hmsg
      rw [walkFrames, if_neg (by rw [SkMsg.size]; omega), frameAt_frame hmsg, walkRaw]
      by_cases hok : (framePulls (ans i) f && frameFits f) = true
      · have hfits : frameFits f = true := (Bool.and_eq_true_iff.mp hok).2
        have hnext : u32 (pre.length + kH2FrameHeaderLen +
            (frameInfo f pre.length).payloadLen) = (pre ++ f.bytes).length := by
          rw [payloadLen_info, length_append, f.length_bytes, u32_of_lt]
          · simp only [kH2FrameHeaderLen]; omega
          · simp only [kH2FrameHeaderLen]; omega
        rw [if_pos hok, if_pos hok]
        simp only []
        rw [frameView_frame hmsg hfits, hnext,
          ih (by rw [hmsg, append_assoc]) fuel (i + 1) (by simpa using hfuel), length_append]
      · rw [if_neg hok, if_neg hok]

variable (ans : Nat → ParseAnswers)

theorem walkMessage_encode {msg : SkMsg} {fs : List RawFrame}
    (hmsg : msg.bytes = encode fs) : walkMessage ans msg = walkRaw ans 0 0 fs := by
  have hfuel : fs.length ≤ msg.size := by
    rw [SkMsg.size, hmsg]
    exact length_le_length_encode fs
  exact @walkFrames_encode msg ans [] fs hmsg msg.size 0 hfuel

/-! ## A frame with a longer block -/

/-- The frame with `field` appended to its HPACK block. -/
def extendBlock (f : RawFrame) (field : List UInt8)
    (h : f.payload.length + field.length < 16777216) : RawFrame :=
  { f with
    payload := insertAt f.payload (h2HpackPrefixLen f.flags + f.blockLen) field
    payload_lt := by rw [length_insertAt]; exact h }

section
variable {f : RawFrame} {field : List UInt8}
  {h : f.payload.length + field.length < 16777216} (hend : f.isHeadersEnd = true)
include hend

theorem headersEnd_extend : (extendBlock f field h).isHeadersEnd = true := by
  simp only [isHeadersEnd, Bool.and_eq_true, bne_iff_ne] at hend ⊢
  refine ⟨hend.1, ?_⟩
  rw [extendBlock, length_insertAt]
  omega

theorem framePulls_extend (ans : ParseAnswers) :
    framePulls ans (extendBlock f field h) = framePulls ans f := by
  unfold framePulls
  rw [headersEnd_extend hend, hend]
  rfl

variable (hfits : frameFits f = true)
include hfits

theorem fits_of_headersEnd : h2HpackPrefixLen f.flags + f.padLen < f.payload.length := by
  simp only [frameFits, hend, Bool.not_true, Bool.false_or, Bool.and_eq_true,
    decide_eq_true_eq] at hfits
  exact hfits.2

/-- The pad length is read out of the lead, which comes before the block. -/
theorem padLen_extend : (extendBlock f field h).padLen = f.padLen := by
  have hfit := fits_of_headersEnd hend hfits
  unfold padLen
  rw [show (extendBlock f field h).flags = f.flags from rfl]
  split
  · next hpad =>
    have hpos : 0 < h2HpackPrefixLen f.flags + f.blockLen := by
      rw [h2HpackPrefixLen, if_pos hpad]
      omega
    cases hp : f.payload with
    | nil => rw [hp] at hfit; simp at hfit
    | cons b rest =>
      obtain ⟨k, hk⟩ := exists_eq_succ_of_ne_zero (ne_of_gt hpos)
      simp [extendBlock, insertAt, hp, hk]
  · rfl

theorem blockLen_extend : (extendBlock f field h).blockLen = f.blockLen + field.length := by
  have hfit := fits_of_headersEnd hend hfits
  unfold blockLen
  rw [padLen_extend hend hfits, show (extendBlock f field h).flags = f.flags from rfl,
    extendBlock, length_insertAt]
  omega

theorem frameFits_extend (hmax : f.payload.length + field.length ≤ kH2MaxFrameLen) :
    frameFits (extendBlock f field h) = true := by
  have hfit := fits_of_headersEnd hend hfits
  have hlen : (extendBlock f field h).payload.length = f.payload.length + field.length :=
    length_insertAt _ _ _
  rw [frameFits, headersEnd_extend hend, padLen_extend hend hfits, hlen,
    show (extendBlock f field h).flags = f.flags from rfl, decide_eq_true hmax,
    decide_eq_true (by omega)]
  rfl

theorem view_extend :
    (extendBlock f field h).view = { f.view with block := f.view.block ++ field } := by
  have hfit := fits_of_headersEnd hend hfits
  have hblk : f.blockLen = f.payload.length - h2HpackPrefixLen f.flags - f.padLen := rfl
  have hi : h2HpackPrefixLen f.flags + f.blockLen ≤ f.payload.length := by omega
  have hpayload : (extendBlock f field h).payload =
      insertAt f.payload (h2HpackPrefixLen f.flags + f.blockLen) field := rfl
  unfold view
  rw [headersEnd_extend hend, hend, blockLen_extend hend hfits,
    show (extendBlock f field h).flags = f.flags from rfl, hpayload]
  rw [take_insertAt_of_le (le_add_right _ _) hi, slice_insertAt_ending hi,
    ← add_assoc, drop_insertAt hi]
  rfl

end

/-! ## The walk of the injected message -/

/-- What the injection at `p` does to a walked frame: the target's block grows,
later frames move. -/
def injectedAt (p : Nat) (field : List UInt8) (v : Nat × FrameView) : Nat × FrameView :=
  if v.1 < p then v
  else if v.1 = p then (v.1, { v.2 with block := v.2.block ++ field })
  else (v.1 + field.length, v.2)

theorem walkRaw_after {p : Nat} (field : List UInt8)
    (fs : List RawFrame) (i : Nat) {pos : Nat} (hpos : p < pos) :
    walkRaw ans i (pos + field.length) fs = (walkRaw ans i pos fs).map (injectedAt p field) := by
  induction fs generalizing i pos with
  | nil => rfl
  | cons f fs ih =>
    rw [walkRaw, walkRaw]
    split
    · rw [map_cons, add_right_comm, ih (i + 1) (by omega)]
      simp only [injectedAt]
      rw [if_neg (by omega), if_neg (by omega)]
    · rfl

theorem walkRaw_extend {f : RawFrame} {field : List UInt8}
    {h : f.payload.length + field.length < 16777216} (hfits : frameFits f = true)
    (hend : f.isHeadersEnd = true) (hmax : f.payload.length + field.length ≤ kH2MaxFrameLen)
    (fs gs : List RawFrame) (i pos : Nat) :
    walkRaw ans i pos (fs ++ extendBlock f field h :: gs) = (walkRaw ans i pos (fs ++ f :: gs)).map
        (injectedAt (pos + (encode fs).length) field) := by
  induction fs generalizing i pos with
  | nil =>
    rw [nil_append, nil_append, walkRaw, walkRaw, framePulls_extend hend,
      frameFits_extend hend hfits hmax, hfits]
    split
    · have hlen : (extendBlock f field h).bytes.length = f.bytes.length + field.length := by
        rw [length_bytes, length_bytes, extendBlock, length_insertAt, add_assoc]
      have haft : pos < pos + f.bytes.length := by rw [f.length_bytes]; omega
      rw [hlen, ← add_assoc, view_extend hend hfits, walkRaw_after ans field gs (i + 1) haft]
      simp [injectedAt]
    · rfl
  | cons g fs ih =>
    rw [cons_append, cons_append, walkRaw, walkRaw]
    split
    · rw [map_cons, ih, encode_cons, length_append, ← add_assoc]
      simp only [injectedAt]
      rw [if_pos (by rw [g.length_bytes]; omega)]
    · rfl

/-- The bytes of a commit, frame by frame. -/
theorem encode_extend {f : RawFrame} {field : List UInt8}
    (h : f.payload.length + field.length < 16777216) (fs gs : List RawFrame)
    (hi : h2HpackPrefixLen f.flags + f.blockLen ≤ f.payload.length) :
    insertAt (overwriteAt (encode (fs ++ f :: gs)) (encode fs).length
          (h2FrameLenBytes (f.payload.length + field.length)))
        ((encode fs).length + (9 + (h2HpackPrefixLen f.flags + f.blockLen))) field =
      encode (fs ++ extendBlock f field h :: gs) := by
  have hspl : encode (fs ++ f :: gs) = encode fs ++ (h2FrameLenBytes f.payload.length ++
      (([f.ftype, f.flags] ++ f.stream.val ++ f.payload) ++ encode gs)) := by
    simp [bytes, header]
  have hnew : (extendBlock f field h).bytes = insertAt ((extendBlock f field h).header ++ f.payload)
        (9 + (h2HpackPrefixLen f.flags + f.blockLen)) field := by
    have hins := insertAt_append_add hi (extendBlock f field h).header [] field
    rw [length_header, append_nil, append_nil] at hins
    rw [hins]
    rfl
  have hlen : (extendBlock f field h).payload.length = f.payload.length + field.length :=
    length_insertAt _ _ _
  have hlens : (h2FrameLenBytes (f.payload.length + field.length)).length =
      (h2FrameLenBytes f.payload.length).length := rfl
  rw [hspl, overwriteAt_append hlens, encode_append, encode_cons, hnew, header, hlen,
    show (extendBlock f field h).ftype = f.ftype from rfl,
    show (extendBlock f field h).flags = f.flags from rfl,
    show (extendBlock f field h).stream = f.stream from rfl]
  rw [← insertAt_append_add (by simp [h2FrameLenBytes, f.stream.property]; omega)]
  simp

/-- The hop runs the transaction, and it commits. -/
def WriteCommits (env : HopEnv) (s : Chain) : Prop :=
  (env.tailcallCtxMem = true ∧ s.cfg.rollback = true ∧ env.tpInfoMem = true ∧
    u32 (s.ctx.h2PayloadLen + kH2TpHpackSize) ≤ kH2DefaultMaxFrameSize ∧
    env.expectedMem = true) ∧
  (writeH2Transaction env s).1 = .committed

theorem writeH2Tp_commits (h : WriteCommits env s) :
    (writeH2Tp env s).2.msg = (writeH2Transaction env s).2 ∧
      (writeH2Tp env s).2.ctx.h2ScanPos = u32 (s.ctx.h2FrameOffset + kH2FrameHeaderLen +
        s.ctx.h2PayloadLen + kH2TpHpackSize) := by
  obtain ⟨⟨h1, h2, h3, h4, h5⟩, hcommit⟩ := h
  unfold writeH2Tp
  rw [if_neg (by simp [h1]), if_neg (by simp [h2]), if_neg (by simp [h3]),
    if_neg (by omega), if_neg (by simp [h5])]
  rcases htx : writeH2Transaction env s with ⟨outcome, msg⟩
  rw [htx] at hcommit
  cases hcommit
  exact ⟨rfl, rfl⟩

/-- A committed transaction passed the argument checks. -/
theorem bounds_of_committed {ans : TransactionAnswers} {msg : SkMsg} {fo pl io : Nat}
    {expected : Option (ByteVec kH2TpHpackSize)}
    (h : (h2WriteSocketTransaction ans msg fo pl io expected).1 = .committed) :
    pl + 69 ≤ 16384 ∧ fo + 9 + pl ≤ msg.size ∧ msg.size + 69 < 4294967296 := by
  unfold h2WriteSocketTransaction at h
  simp only [] at h
  split at h
  · cases h
  split at h
  · cases h
  · next href =>
    obtain ⟨h1, h2, -, h3⟩ := refuses_false (by simpa using href)
    exact ⟨h1, h2, h3⟩

/-- What a parse of a complete frame gave, when it is one to inject into. -/
theorem frame_of_parse {msg : SkMsg} {pre post : List UInt8} {f : RawFrame}
    {ans : ParseAnswers} {info : H2FrameInfo} (hmsg : msg.bytes = pre ++ (f.bytes ++ post))
    (hparse : parseH2FrameAt ans msg pre.length msg.size = some info)
    (hend : info.isHeadersEnd = true) :
    frameFits f = true ∧ f.isHeadersEnd = true ∧ info.payloadLen = f.payload.length ∧
      info.hpackOffset = pre.length + 9 + h2HpackPrefixLen f.flags ∧
      info.hpackLen = f.blockLen := by
  rw [frameAt_frame hmsg] at hparse
  split at hparse
  · next hok =>
    cases hparse
    have hf : f.isHeadersEnd = true := by
      unfold frameInfo at hend
      split at hend
      · next h => exact h
      · rw [headersEnd_infoOf] at hend; exact hend
    refine ⟨(Bool.and_eq_true_iff.mp hok).2, hf, payloadLen_info f _, ?_, ?_⟩
    · rw [frameInfo, if_pos hf]
      rfl
    · rw [frameInfo, if_pos hf]
  · cases hparse

/-- The bytes a committed write leaves are the frames with the target's block
extended. -/
theorem writeH2_encode {fs gs : List RawFrame} {f : RawFrame}
    (hmsg : s.msg.bytes = encode (fs ++ f :: gs)) (hfits : frameFits f = true)
    (hend : f.isHeadersEnd = true) (hoffset : s.ctx.h2FrameOffset = (encode fs).length)
    (hpayload : s.ctx.h2PayloadLen = f.payload.length)
    (hinject : s.ctx.h2HpackOffset + s.ctx.h2HpackLen =
      (encode fs).length + (9 + (h2HpackPrefixLen f.flags + f.blockLen)))
    (hcommit : (writeH2Transaction env s).1 = .committed) :
    ∃ h, (writeH2Transaction env s).2.bytes =
      encode (fs ++ extendBlock f (makeH2TpHpack s.tpInfo.tp) h :: gs) := by
  obtain ⟨hmax, hin, hsize⟩ := bounds_of_committed hcommit
  have hfit := fits_of_headersEnd hend hfits
  have hblk : f.blockLen = f.payload.length - h2HpackPrefixLen f.flags - f.padLen := rfl
  have hlen : (makeH2TpHpack s.tpInfo.tp).length = 69 := length_makeH2TpHpack _
  have h : f.payload.length + (makeH2TpHpack s.tpInfo.tp).length < 16777216 := by omega
  have hsound := writeSocket_sound env.transaction s.msg s.ctx.h2FrameOffset
    s.ctx.h2PayloadLen (u32 (s.ctx.h2HpackOffset + s.ctx.h2HpackLen))
    (some (h2WriteExpected s.tpInfo.tp))
  have hu : u32 (s.ctx.h2HpackOffset + s.ctx.h2HpackLen) =
      s.ctx.h2HpackOffset + s.ctx.h2HpackLen := u32_of_lt (by omega)
  rw [TransactionSound, show (h2WriteSocketTransaction _ _ _ _ _ _).1 = _ from hcommit] at hsound
  obtain ⟨field, hfield, hbs⟩ := hsound
  cases hfield
  refine ⟨h, ?_⟩
  rw [← encode_extend h fs gs (by omega), hlen, ← hpayload, ← hmsg]
  refine Eq.trans hbs ?_
  rw [hu, hinject, ← hoffset]
  rfl

/-- Injection keeps the meaning of a message of complete frames: the target's
block grows by the field, every other frame is the same frame, and the scan
resumes where the next original frame now starts. -/
theorem injected_message_keeps_frames (fs gs : List RawFrame) (f : RawFrame) (env : HopEnv)
    (s : Chain) (parseAns : ParseAnswers) (info : H2FrameInfo) (ans : Nat → ParseAnswers)
    (hmsg : s.msg.bytes = encode (fs ++ f :: gs))
    (hparse : parseH2FrameAt parseAns s.msg (encode fs).length s.msg.size = some info)
    (hend : info.isHeadersEnd = true)
    (hoffset : s.ctx.h2FrameOffset = (encode fs).length)
    (hpayload : s.ctx.h2PayloadLen = info.payloadLen)
    (hhpack : s.ctx.h2HpackOffset = info.hpackOffset ∧ s.ctx.h2HpackLen = info.hpackLen)
    (hcommit : WriteCommits env s) :
    walkMessage ans (writeH2Tp env s).2.msg = (walkMessage ans s.msg).map
          (injectedAt (encode fs).length (makeH2TpHpack s.tpInfo.tp)) ∧
      (writeH2Tp env s).2.ctx.h2ScanPos =
        (encode fs).length + kH2FrameHeaderLen + info.payloadLen + kH2TpHpackSize ∧
      (writeH2Tp env s).2.msg.bytes.drop (writeH2Tp env s).2.ctx.h2ScanPos = encode gs := by
  have hspl : s.msg.bytes = encode fs ++ (f.bytes ++ encode gs) := by
    rw [hmsg, encode_append, encode_cons]
  obtain ⟨hfits, hf, hlen, hoff, hblk⟩ := frame_of_parse hspl hparse hend
  obtain ⟨hmax, hin, hsize⟩ := bounds_of_committed hcommit.2
  obtain ⟨hout, hpos⟩ := writeH2Tp_commits hcommit
  obtain ⟨h, hbs⟩ := writeH2_encode hmsg hfits hf hoffset (hpayload.trans hlen)
    (by rw [hhpack.1, hoff]; omega) hcommit.2
  have hfield : (makeH2TpHpack s.tpInfo.tp).length = 69 := length_makeH2TpHpack _
  have hnext : (writeH2Tp env s).2.ctx.h2ScanPos =
      (encode fs).length + kH2FrameHeaderLen + info.payloadLen + kH2TpHpackSize := by
    rw [hpos, hoffset, hpayload, u32_of_lt]
    simp only [kH2FrameHeaderLen, kH2TpHpackSize]
    omega
  refine ⟨?_, hnext, ?_⟩
  · rw [hout, walkMessage_encode ans hbs, walkMessage_encode ans hmsg,
      walkRaw_extend ans hfits hf (by rw [hfield]; simp only [kH2MaxFrameLen]; omega), zero_add]
  have hext : (extendBlock f (makeH2TpHpack s.tpInfo.tp) h).bytes.length =
      9 + info.payloadLen + 69 := by
    rw [length_bytes, extendBlock, length_insertAt, hfield, hlen, add_assoc]
  have hstart : (writeH2Tp env s).2.ctx.h2ScanPos =
      (encode fs ++ (extendBlock f (makeH2TpHpack s.tpInfo.tp) h).bytes).length := by
    rw [hnext, length_append, hext]
    simp only [kH2FrameHeaderLen, kH2TpHpackSize]
    omega
  rw [hstart, hout, hbs, encode_append, encode_cons, ← append_assoc, drop_left]

/-- SETTINGS, a padded HEADERS frame with a priority, DATA. -/
def sampleFrames : List RawFrame × RawFrame × List RawFrame :=
  ([⟨kH2FrameSettings, 0, ⟨[0, 0, 0, 0], rfl⟩, [], empty_lt⟩],
    ⟨kH2FrameHeaders, 0x2c, streamOne, [2, 0, 0, 0, 0, 7, 0x82, 0x84, 0, 0], by decide⟩,
    [⟨kH2FrameData, 1, streamOne, [0x68, 0x69], by decide⟩])

/-- The chain `detect_h2` leaves for them. -/
def sampleChain : Chain :=
  { cfg := ⟨true, true, true⟩
    msg := ⟨encode (sampleFrames.1 ++ sampleFrames.2.1 :: sampleFrames.2.2), none, by decide,
      by simp⟩
    ctx := { TailcallCtx.zero with
      h2FrameOffset := 9, h2PayloadLen := 10, h2HpackOffset := 24, h2HpackLen := 2 }
    tpInfo := .zero
    sk := ⟨some .confirmed, none⟩ }

theorem injected_message_keeps_frames_sample : (writeH2Tp .ok sampleChain).2.msg.bytes.drop
      (writeH2Tp .ok sampleChain).2.ctx.h2ScanPos = encode sampleFrames.2.2 :=
  (injected_message_keeps_frames sampleFrames.1 sampleFrames.2.2 sampleFrames.2.1 .ok sampleChain
    ⟨.full, .full⟩ ⟨1, 10, 24, 2, true, 1, 0x2c, 0⟩ (fun _ => ⟨.full, .full⟩)
    rfl (by decide +kernel) rfl (by decide +kernel) rfl ⟨rfl, rfl⟩
    ⟨⟨rfl, rfl, rfl, by decide +kernel, rfl⟩, by decide +kernel⟩).2.2

end Obi.Refine
