import Obi.Ref.Http2Grpc
import Obi.Spec.H2Frame

/-!
# The HTTP/2 prefilter

On a capture of whole legal frames the walk goes from header to header as the
frames do, but for frames without a payload: the reader takes no header of length
zero, so such a frame hides every HEADERS frame behind it. The offset of the first
field of a header block is the one the kernel computes.
-/

namespace Obi.Refine
open Ref Ref.Http2Grpc Spec List Nat

/-! ## The walk over frames -/

variable {f : RawFrame} {frames : List RawFrame} {data pre : List UInt8} {rounds i n : Nat}

def prefilterHeader (f : RawFrame) : FrameHeader :=
  ⟨f.payload.length, f.ftype, f.flags, h2FrameStreamId f.header⟩

/-- A HEADERS frame with a payload, on a stream. -/
def opensStream (f : RawFrame) : Bool :=
  Http2Grpc.isHeadersFrame (prefilterHeader f) && !f.payload.isEmpty

theorem legal_header (h : f.Legal) :
    f.ftype ≤ kH2FrameContinuation ∧ isPlausibleHTTP2Frame (prefilterHeader f) = true := by
  obtain ⟨-, hmax, hrules⟩ := h
  split at hrules
  case h_11 => exact hrules.elim
  all_goals
    next htype =>
      replace htype := congrArg UInt8.ofNat htype
      rw [UInt8.ofNat_toNat] at htype
      simp [isPlausibleHTTP2Frame, http2FlagsMask, prefilterHeader, htype, hrules, hmax]

theorem readHTTP2Frame_eq (h : f.Legal) {l : Int} (hl : 9 ≤ l) (rest : List UInt8) :
    readHTTP2Frame (f.bytes ++ rest) l =
      if f.payload = [] then none else some (prefilterHeader f) := by
  have hat : ∀ {i}, i < 9 → (f.bytes ++ rest).getD i 0 = f.header.getD i 0 := by
    intro i hi
    simp [RawFrame.bytes, getElem?_append_left, hi]
  have hlen : h2FramePayloadLen (f.bytes ++ rest) = f.payload.length := by
    rw [← f.payloadLen_header, h2FramePayloadLen, h2FramePayloadLen]
    simp only [hat, reduceLT]
  have hbit : f.header.getD 5 0 &&& 0x80 = 0 := h.1
  have hhead : f.header.getD 3 0 = f.ftype ∧ f.header.getD 4 0 = f.flags := ⟨rfl, rfl⟩
  have htype : ¬ f.ftype > kH2FrameContinuation := UInt8.not_lt.mpr (legal_header h).1
  have hsh : ¬ l < frameHeaderLen := not_lt.mpr hl
  simp only [readHTTP2Frame, hlen, h2FrameStreamId, hat, reduceLT, hbit, hhead, htype,
    hsh, prefilterHeader, or_false, if_false, length_eq_zero_iff, ne_eq,
    not_true_eq_false]

/-- A round at a legal frame. -/
theorem likelyRounds_frame {l : Nat} (h : f.Legal)
    (hdrop : data.drop pre.length = f.bytes ++ encode frames)
    (hl : l = pre.length + f.bytes.length + (encode frames).length) :
    likelyRounds data l (rounds + 1) pre.length = if f.payload = [] then false
      else if Http2Grpc.isHeadersFrame (prefilterHeader f) then true
      else if 0 < (encode frames).length then
        likelyRounds data l rounds (pre ++ f.bytes).length
      else false := by
  have hsize := f.length_bytes
  rw [likelyRounds, if_neg (by simp only [frameHeaderLen]; omega), hdrop,
    readHTTP2Frame_eq h (by omega)]
  by_cases hemp : f.payload = []
  · rw [if_pos hemp, if_pos hemp]
  have hinv : Http2Grpc.isInvalidFrame (prefilterHeader f) = false := by
    simp [Http2Grpc.isInvalidFrame, prefilterHeader, hemp]
  have hnext : ((pre.length : Int) < l - ((prefilterHeader f).length + frameHeaderLen : Nat)) ↔
      0 < (encode frames).length := by
    simp only [prefilterHeader, frameHeaderLen]
    omega
  have hpos : pre.length + ((prefilterHeader f).length + frameHeaderLen) =
      (pre ++ f.bytes).length := by
    rw [length_append, hsize, add_comm 9]
    rfl
  simp only [if_neg hemp, (legal_header h).2, hinv, hnext, hpos, Bool.not_true,
    Bool.false_eq_true, if_false]

/-- The walk finds the first HEADERS frame that has a payload unless a frame
before it has none. -/
theorem likelyRounds_iff (hlegal : ∀ f ∈ frames, f.Legal)
    (hopens : ∃ f ∈ frames.take rounds, opensStream f = true)
    (hdata : data = pre ++ encode frames) :
    likelyRounds data data.length rounds pre.length = true ↔
      ∀ f ∈ frames.takeWhile fun f => !opensStream f, f.payload ≠ [] := by
  induction frames generalizing pre rounds with
  | nil => simp at hopens
  | cons f frames ih =>
    cases rounds with
    | zero => simp at hopens
    | succ rounds =>
      obtain ⟨hf, hlegal⟩ := forall_mem_cons.mp hlegal
      rw [encode_cons] at hdata
      have hlen : data.length = pre.length + f.bytes.length + (encode frames).length := by
        rw [hdata, length_append, length_append, add_assoc]
      rw [likelyRounds_frame hf (by rw [hdata, drop_left]) hlen, takeWhile_cons, opensStream]
      by_cases hemp : f.payload = []
      · simp [hemp]
      cases hopen : Http2Grpc.isHeadersFrame (prefilterHeader f) with
      | true => simp [hemp]
      | false =>
        have hrest : ∃ f ∈ frames.take rounds, opensStream f = true := by
          simpa [opensStream, hopen] using hopens
        have hmore : 0 < (encode frames).length := by
          obtain ⟨g, hg, -⟩ := hrest
          have hpos := length_pos_of_mem (mem_of_mem_take hg)
          exact lt_of_lt_of_le hpos (length_le_length_encode frames)
        rw [if_neg hemp, if_neg Bool.false_ne_true, if_pos hmore,
          ih hlegal hrest (by rw [hdata, append_assoc])]
        simp [hemp]

/-- A capture of legal frames with a HEADERS frame among the first eight is taken
for HTTP/2 if and only if no frame before it is without a payload. -/
theorem frames_likely_iff {eventLen : Int} (hlegal : ∀ f ∈ frames, f.Legal)
    (hheaders : ∃ f ∈ frames.take 8, opensStream f = true)
    (hlen : (encode frames).length ≤ eventLen) :
    isLikelyHTTP2 (encode frames) eventLen = true ↔
      ∀ f ∈ frames.takeWhile fun f => !opensStream f, f.payload ≠ [] := by
  rw [isLikelyHTTP2, min_eq_right hlen]
  exact likelyRounds_iff hlegal hheaders (nil_append _).symm

def headersFrame : RawFrame := ⟨1, 4, streamOne, [0x82], by decide⟩

def settingsAck : RawFrame := ⟨4, 1, zeroId 4, [], empty_lt⟩

/-- SETTINGS with one setting. -/
def settingsFrame : RawFrame := ⟨4, 0, zeroId 4, [0, 3, 0, 0, 0, 100], by decide⟩

theorem headersFrame_legal : headersFrame.Legal := ⟨rfl, by decide, rfl, by decide⟩

theorem frames_likely_headers : isLikelyHTTP2 (encode [settingsFrame, headersFrame]) 25 = true := by
  refine (frames_likely_iff ?_ ⟨headersFrame, by decide⟩ (by decide)).mpr ?_
  · exact forall_mem_cons.mpr
      ⟨⟨rfl, by decide, rfl, rfl, rfl⟩, forall_mem_singleton.mpr headersFrame_legal⟩
  · -- The frame before HEADERS has a payload.
    show ∀ f ∈ [settingsFrame], f.payload ≠ []
    decide

/-- The acknowledgement of a SETTINGS frame hides the HEADERS frame behind it. -/
theorem settings_ack_hides_headers : settingsAck.Legal ∧ headersFrame.Legal ∧
    opensStream headersFrame = true ∧
    isLikelyHTTP2 (encode [settingsAck, headersFrame]) 19 = false :=
  ⟨⟨rfl, by decide, rfl, rfl, rfl⟩, headersFrame_legal, rfl, by decide⟩

/-! ## Header blocks -/

variable {frag junk : List UInt8}

/-- What `h2_hpack_skip_size_updates` does twice. -/
def h2SkipUpdate (w : List UInt8) (avail i : Nat) : Nat :=
  if i < avail ∧ h2HpackIsSizeUpdate (w.getD (i &&& kH2HpackOpenerMask) 0) then
    i + h2HpackSizeUpdateLen w i avail
  else i

theorem drop_getD (hi : i < frag.length) : frag.drop i = frag.getD i 0 :: frag.drop (i + 1) := by
  rw [drop_eq_getElem_cons hi, getD_eq_getElem?_getD, getElem?_eq_getElem hi, Option.getD_some]

/-- The octets at `i` that announce another one. -/
def moreAt (frag : List UInt8) (i : Nat) : Nat := moreOctets (frag.drop i)

theorem moreAt_pos (h : i < frag.length ∧ frag.getD i 0 &&& 0x80 ≠ 0) :
    moreAt frag i = moreAt frag (i + 1) + 1 := by
  rw [moreAt, drop_getD h.1, moreOctets, kHpackIntMore, takeWhile_cons, if_pos (bne_iff_ne.mpr h.2)]
  rfl

theorem moreAt_neg (h : ¬ (i < frag.length ∧ frag.getD i 0 &&& 0x80 ≠ 0)) : moreAt frag i = 0 := by
  by_cases hi : i < frag.length
  · have hmore := not_not.mp fun hne => h ⟨hi, hne⟩
    rw [moreAt, drop_getD hi, moreOctets, kHpackIntMore, takeWhile_cons, hmore]
    rfl
  · simp [moreAt, moreOctets, drop_eq_nil_of_le (Nat.le_of_not_lt hi)]

theorem skipMore_eq (h : frag.length ≤ rounds + i) :
    skipMore frag rounds i = i + moreAt frag i := by
  induction rounds generalizing i with
  | zero =>
    rw [moreAt_neg (by omega)]
    rfl
  | succ rounds ih =>
    rw [skipMore]
    split
    · next hmore =>
      rw [ih (by omega), moreAt_pos hmore]
      omega
    · next hmore => rw [moreAt_neg hmore, add_zero]

section
variable (hlen : frag.length ≤ 16)
include hlen

theorem getD_window (hi : i < frag.length) :
    (frag ++ junk).getD (i &&& kH2HpackOpenerMask) 0 = frag.getD i 0 := by
  have hmask : i &&& kH2HpackOpenerMask = i := by
    rw [kH2HpackOpenerMask, show 15 = 2 ^ 4 - 1 by rfl, and_two_pow_sub_one_eq_mod]
    exact mod_eq_of_lt (by omega)
  rw [hmask, getD_eq_getElem?_getD, getElem?_append_left hi, ← getD_eq_getElem?_getD]

theorem sizeUpdateOctets_eq {octets : Nat} :
    sizeUpdateOctets (frag ++ junk) i frag.length n octets =
      octets + min n (moreAt frag (i + octets)) := by
  induction n generalizing octets with
  | zero => simp [sizeUpdateOctets]
  | succ n ih =>
    have hwindow : (i + octets < frag.length ∧ (frag ++ junk).getD
        ((i + octets) &&& kH2HpackOpenerMask) 0 &&& kHpackIntMore ≠ 0) ↔
        (i + octets < frag.length ∧ frag.getD (i + octets) 0 &&& 0x80 ≠ 0) :=
      and_congr_right fun hi => by rw [getD_window hlen hi, kHpackIntMore]
    rw [sizeUpdateOctets, if_congr hwindow rfl rfl]
    split
    · next hmore =>
      rw [ih, moreAt_pos hmore, ← add_assoc]
      omega
    · next hmore => rw [moreAt_neg hmore, Nat.min_zero, add_zero]

/-- Where the kernel goes from a byte of the fragment. -/
theorem h2SkipUpdate_eq (i : Nat) : h2SkipUpdate (frag ++ junk) frag.length i =
    if i < frag.length ∧ frag.getD i 0 &&& 0xe0 = 0x20 then
      if frag.getD i 0 &&& 0x1f ≠ 0x1f then i + 1 else i + (2 + min 4 (moreAt frag (i + 1)))
    else i := by
  by_cases hi : i < frag.length
  · have hupd : h2HpackIsSizeUpdate (frag.getD i 0) = true ↔ frag.getD i 0 &&& 0xe0 = 0x20 :=
      beq_iff_eq
    simp only [h2SkipUpdate, h2HpackSizeUpdateLen, getD_window hlen hi, hupd,
      sizeUpdateOctets_eq hlen, kHpackIntPrefix5, kHpackIntMaxOctets]
    split
    · split
      · rfl
      · rw [← add_assoc 1]
    · rfl
  · rw [h2SkipUpdate, if_neg fun h => hi h.1, if_neg fun h => hi h.1]

variable (junk) in
/-- Where there is no size update both stay. -/
theorem skipUpdates_stay (h : ¬ (i < frag.length ∧ frag.getD i 0 &&& 0xe0 = 0x20))
    (rounds n : Nat) : skipSizeUpdates frag rounds i =
      (h2SkipUpdate (frag ++ junk) frag.length)^[n] i := by
  have hfix : h2SkipUpdate (frag ++ junk) frag.length i = i := by
    rw [h2SkipUpdate_eq hlen, if_neg h]
  rw [Function.iterate_fixed hfix]
  cases rounds with
  | zero => rfl
  | succ rounds => rw [skipSizeUpdates, if_neg h]

/-- The same field, or both behind the fragment. -/
def SameField (frag : List UInt8) (i j : Nat) : Prop := i = j ∨ frag.length ≤ i ∧ frag.length ≤ j

theorem skipUpdates_agree (hrds : frag.length ≤ rounds + i) (h : OpensWith n (frag.drop i)) :
    SameField frag (skipSizeUpdates frag rounds i)
      ((h2SkipUpdate (frag ++ junk) frag.length)^[n] i) := by
  induction n generalizing rounds i with
  | zero =>
    refine .inl (skipUpdates_stay junk hlen (fun hupd => ?_) rounds 0)
    rw [drop_getD hupd.1] at h
    exact Bool.false_ne_true ((h _ rfl).symm.trans (beq_iff_eq.mpr hupd.2))
  | succ n ih =>
    by_cases hupd : i < frag.length ∧ frag.getD i 0 &&& 0xe0 = 0x20
    · obtain ⟨rounds, rfl⟩ : ∃ r, rounds = r + 1 := ⟨rounds - 1, by omega⟩
      rw [drop_getD hupd.1] at h
      replace h := h (beq_iff_eq.mpr hupd.2)
      rw [kHpackIntPrefix5] at h
      rw [Function.iterate_succ_apply, h2SkipUpdate_eq hlen, if_pos hupd, skipSizeUpdates,
        if_pos hupd]
      by_cases hsh : frag.getD i 0 &&& 0x1f ≠ 0x1f
      · rw [if_pos hsh] at h ⊢
        rw [if_pos hsh]
        exact ih (by omega) h
      rw [if_neg hsh, drop_drop, length_drop, ← moreAt] at h
      rw [if_neg hsh, if_neg hsh, skipMore_eq (by omega)]
      generalize moreAt frag (i + 1) = more at h ⊢
      have hbeh : ∀ {j}, frag.length ≤ j → ¬ (j < frag.length ∧ frag.getD j 0 &&& 0xe0 = 0x20) :=
        fun hj hlt => not_lt.mpr hj hlt.1
      by_cases hlast : frag.length ≤ i + (2 + min 4 more)
      · have hgo : frag.length ≤ i + 1 + more + 1 := by omega
        rw [skipUpdates_stay junk hlen (hbeh hgo) rounds 0,
          ← skipUpdates_stay junk hlen (hbeh hlast) 0 n]
        exact .inr ⟨hgo, hlast⟩
      have hmore : min 4 more = more := by
        have := h.1
        rw [kHpackIntMaxOctets] at this
        omega
      rw [hmore, show i + (2 + more) = i + 1 + more + 1 by omega]
      exact ih (by omega) h.2
    · exact .inl (skipUpdates_stay junk hlen hupd rounds (n + 1))

/-- User space and the kernel find the same first field and take the same blocks
for responses. -/
theorem header_block_agrees (h : OpensWith 2 frag) (junk : List UInt8) :
    let start := h2HpackSkipSizeUpdates (frag ++ junk) frag.length
    hpackFieldStart frag = (if frag.length ≤ start then -1 else (start : Int)) ∧
      (start < frag.length →
        hpackOpensResponse frag = h2HpackOpensResponse (frag.getD start 0)) := by
  intro start
  have hagree : SameField frag (skipSizeUpdates frag frag.length 0) start :=
    skipUpdates_agree (n := 2) hlen (le_refl frag.length) h
  have hstart : hpackFieldStart frag = if frag.length ≤ start then -1 else (start : Int) := by
    rcases hagree with heq | ⟨hgo, hend⟩
    · rw [hpackFieldStart, heq]
    · rw [hpackFieldStart, if_pos hgo, if_pos hend]
  refine ⟨hstart, fun hlt => ?_⟩
  have hbyte : ∀ k : Fin 256, fieldOpensResponse (UInt8.ofNat k) =
      h2HpackOpensResponse (UInt8.ofNat k) := by
    decide +kernel
  replace hbyte := hbyte ⟨(frag.getD start 0).toNat, (frag.getD start 0).toNat_lt⟩
  rw [UInt8.ofNat_toNat] at hbyte
  rw [hpackOpensResponse, hstart, if_neg (not_le.mpr hlt), ← hbyte]
  exact if_neg (by omega)

end

theorem header_block_agrees_update : hpackFieldStart [0x3f, 0xe1, 0x1f, 0x88] = 3 ∧
      hpackOpensResponse [0x3f, 0xe1, 0x1f, 0x88] = true :=
  have hagree := @header_block_agrees [0x3f, 0xe1, 0x1f, 0x88] (by decide)
    (fun _ => ⟨by decide, fun h => absurd h (by decide)⟩) []
  ⟨hagree.1, hagree.2 (by decide)⟩

end Obi.Refine
