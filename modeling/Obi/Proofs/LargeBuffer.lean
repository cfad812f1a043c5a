import Obi.Lib.Chunks
import Obi.Spec.FlatReader

/-!
# Chunking is invisible

The reader of a large buffer is the reader of the flat byte string its chunks
make up. The link is a relation between the two readers: the cursor pair is
placed on a chunk, or behind the last one, and its position in the flat list
is the flat cursor. Every loop of the source moves such a cursor by the number
of bytes it was asked for, whichever chunks lie in between, and no index or
slice expression on the way leaves its slice; the calls then follow from the
two range checks, and a run from its calls.
-/

namespace Obi.Refine
open Ref Lib Spec List LargeBufferReader LargeBuffer Nat

/-- The cursor is in a chunk, or at the end of the buffer. -/
structure Placed (r : LargeBufferReader) : Prop where
  rchunk_le : r.rchunk ≤ r.lb.chunks.length
  roff_le : ∀ chunk, r.lb.chunks[r.rchunk]? = some chunk → r.roff ≤ chunk.length
  roff_end : r.rchunk = r.lb.chunks.length → r.roff = 0

def position (r : LargeBufferReader) : Nat := offsetOf r.lb.chunks r.rchunk r.roff

/-- The bytes from the cursor to the end of the buffer. -/
def ahead (r : LargeBufferReader) : List UInt8 := r.lb.chunks.flatten.drop (position r)

/-- `r'` reads the same buffer as `r`, with the cursor `n` bytes on. -/
structure Moved (r : LargeBufferReader) (n : Nat) (r' : LargeBufferReader) : Prop where
  lb : r'.lb = r.lb
  endOff : r'.endOff = r.endOff
  placed : Placed r'
  position : position r' = position r + n

variable {r r' : LargeBufferReader} {chunk : List UInt8} {n : Nat}

theorem readOffset_eq (h : Placed r) : r.readOffset = some (position r) := by
  rw [readOffset, if_pos h.rchunk_le, position, offsetOf, length_flatten]

theorem Moved.refl (h : Placed r) : Moved r 0 r := ⟨rfl, rfl, h, rfl⟩

theorem Moved.trans {k : Nat} {r'' : LargeBufferReader} (h : Moved r k r')
    (h' : Moved r' n r'') : Moved r (k + n) r'' where
  lb := h'.lb.trans h.lb
  endOff := h'.endOff.trans h.endOff
  placed := h'.placed
  position := by rw [h'.position, h.position, add_assoc]

theorem Moved.ahead (h : Moved r n r') : ahead r' = (ahead r).drop n := by
  rw [Refine.ahead, Refine.ahead, h.position, h.lb, drop_drop]

theorem exists_chunk (h : Placed r) (hn : 0 < (ahead r).length) :
    ∃ chunk, r.lb.chunks[r.rchunk]? = some chunk := by
  rcases lt_or_eq_of_le h.rchunk_le with hlt | heq
  · exact ⟨_, getElem?_eq_getElem hlt⟩
  · simp [ahead, position, heq, offsetOf] at hn

theorem ahead_chunk (h : Placed r) (hc : r.lb.chunks[r.rchunk]? = some chunk) :
    ahead r = chunk.drop r.roff ++ (r.lb.chunks.drop (r.rchunk + 1)).flatten := by
  rw [ahead, position, drop_offsetOf, flatten_drop_of_get? hc,
    drop_append_of_le_length (h.roff_le _ hc)]

theorem take_ahead (h : Placed r) (hc : r.lb.chunks[r.rchunk]? = some chunk)
    (hn : r.roff + n ≤ chunk.length) :
    (ahead r).take n = (chunk.drop r.roff).take n := by
  rw [ahead_chunk h hc]
  exact take_append_of_le_length (by rw [length_drop]; omega)

/-! ## The loops -/

section
variable (hc : r.lb.chunks[r.rchunk]? = some chunk)
include hc

theorem moved_next (hn : r.roff + n = chunk.length) :
    Moved r n { r with rchunk := r.rchunk + 1, roff := 0 } where
  lb := rfl
  endOff := rfl
  placed :=
    { rchunk_le := (List.getElem?_eq_some_iff.1 hc).1
      roff_le := fun _ _ => zero_le _
      roff_end := fun _ => rfl }
  position := by
    simp only [position]
    rw [offsetOf_succ hc, ← hn, offsetOf_add]

theorem moved_within (hn : r.roff + n ≤ chunk.length) :
    Moved r n { r with roff := r.roff + n } where
  lb := rfl
  endOff := rfl
  placed :=
    { rchunk_le := le_of_lt (List.getElem?_eq_some_iff.1 hc).1
      roff_le := by
        intro chunk' hc'
        cases hc.symm.trans hc'
        exact hn
      roff_end := by
        intro heq
        have hlt := (List.getElem?_eq_some_iff.1 hc).1
        exact absurd heq (by simp only []; omega) }
  position := offsetOf_add _ _ _ _

theorem advance_moved (hn : r.roff + n ≤ chunk.length) : Moved r n (r.advance chunk n) := by
  rw [advance]
  split
  · next heq => exact moved_next hc heq
  · exact moved_within hc hn

end

/-- One pass copies what it can of the current chunk, and if that is not
enough it leaves the chunk behind. -/
theorem copyStep_moved (h : Placed r) (hc : r.lb.chunks[r.rchunk]? = some chunk) (need : Nat) :
    ∃ k r', r.copyStep need = some ((ahead r).take k, r') ∧ Moved r k r'
      ∧ k ≤ need ∧ k ≤ (ahead r).length
      ∧ (k = need ∨ r'.rchunk = r.rchunk + 1) := by
  have hoff := h.roff_le _ hc
  refine ⟨min need (chunk.length - r.roff), r.advance chunk (min need (chunk.length - r.roff)), ?_,
    advance_moved hc (by omega), by omega, ?_, ?_⟩
  · rw [take_ahead h hc (by omega)]
    have hlen : ((chunk.drop r.roff).take need).length = min need (chunk.length - r.roff) := by
      rw [length_take, length_drop]
    simp only [copyStep, hc, sliceFrom, if_pos hoff, hlen]
    rw [← length_drop, ← take_eq_take_min]
  · rw [ahead_chunk h hc, length_append, length_drop]
    omega
  · rw [advance]
    split
    · exact .inr rfl
    · exact .inl (by omega)

theorem copyLoop_zero (fuel : Nat) (r : LargeBufferReader) : copyLoop fuel r 0 = some ([], r) := by
  cases fuel <;> simp [copyLoop]

/-- The copy loop moves the cursor by the bytes it was asked for. -/
theorem copyLoop_moved (fuel : Nat) {need : Nat} (h : Placed r) (hneed : need ≤ (ahead r).length)
    (hfuel : r.lb.chunks.length - r.rchunk < fuel) :
    ∃ r', copyLoop fuel r need = some ((ahead r).take need, r') ∧ Moved r need r' := by
  -- a pass that does not finish moves on to the next chunk, which pays for it
  induction fuel generalizing r need with
  | zero => omega
  | succ fuel ih =>
    rcases Nat.eq_zero_or_pos need with rfl | hpos
    · exact ⟨r, copyLoop_zero _ _, Moved.refl h⟩
    obtain ⟨chunk, hc⟩ := exists_chunk h (by omega)
    obtain ⟨k, r1, hstep, hmoved, hk, hlen, hdone⟩ := copyStep_moved h hc need
    have hcopied : ((ahead r).take k).length = k := by
      rw [length_take]
      omega
    have hrest : ∃ r', copyLoop fuel r1 (need - k)
        = some ((ahead r1).take (need - k), r') ∧ Moved r1 (need - k) r' := by
      rcases hdone with rfl | hnext
      · rw [Nat.sub_self]
        exact ⟨r1, copyLoop_zero _ _, Moved.refl hmoved.placed⟩
      have hlt := (List.getElem?_eq_some_iff.1 hc).1
      refine ih hmoved.placed ?_ ?_
      · rw [hmoved.ahead, length_drop]
        omega
      · rw [hmoved.lb]
        omega
    obtain ⟨r', hloop, hmoved'⟩ := hrest
    refine ⟨r', ?_, ?_⟩
    · rw [copyLoop, if_neg (by omega), hstep]
      simp only [hcopied, hloop]
      rw [hmoved.ahead, ← take_add, show k + (need - k) = need by omega]
    · have := hmoved.trans hmoved'
      rwa [show k + (need - k) = need by omega] at this

theorem copyN_moved (h : Placed r) (hn : n ≤ (ahead r).length) :
    ∃ r', r.copyN n = some ((ahead r).take n, r') ∧ Moved r n r' :=
  copyLoop_moved _ h hn (by omega)

/-- The loop of `Read` stops at the end of the buffer too, which it does not
reach while it still has bytes to copy. -/
theorem readLoop_eq_copyLoop {fuel need : Nat} (h : Placed r) (hneed : need ≤ (ahead r).length) :
    readLoop fuel r need = copyLoop fuel r need := by
  have hcond : ∀ {r : LargeBufferReader} {need : Nat}, Placed r → need ≤ (ahead r).length →
      ((need = 0 ∨ r.lb.chunks.length ≤ r.rchunk) ↔ need = 0) := by
    intro r need h hneed
    refine ⟨fun hor => ?_, .inl⟩
    rcases hor with hz | hle
    · exact hz
    refine Nat.eq_zero_of_not_pos fun hpos => ?_
    obtain ⟨chunk, hc⟩ := exists_chunk h (by omega)
    exact absurd (List.getElem?_eq_some_iff.1 hc).1 (by omega)
  induction fuel generalizing r need with
  | zero => simp [readLoop, copyLoop, hcond h hneed]
  | succ fuel ih =>
    simp only [readLoop, copyLoop, hcond h hneed]
    split
    · rfl
    · next hne =>
      obtain ⟨chunk, hc⟩ := exists_chunk h (by omega)
      obtain ⟨k, r1, hstep, hmoved, hk, hlen, -⟩ := copyStep_moved h hc need
      have hcopied : ((ahead r).take k).length = k := by
        rw [length_take]
        omega
      rw [hstep]
      simp only [hcopied]
      rw [ih hmoved.placed (by rw [hmoved.ahead, length_drop]; omega)]

theorem skipLoop_zero (fuel : Nat) (r : LargeBufferReader) : skipLoop fuel r 0 = some r := by
  cases fuel <;> simp [skipLoop]

theorem skipLoop_moved (fuel : Nat) (h : Placed r) (hn : n ≤ (ahead r).length)
    (hfuel : r.lb.chunks.length - r.rchunk < fuel) :
    ∃ r', skipLoop fuel r n = some r' ∧ Moved r n r' := by
  induction fuel generalizing r n with
  | zero => omega
  | succ fuel ih =>
    rcases Nat.eq_zero_or_pos n with rfl | hpos
    · exact ⟨r, skipLoop_zero _ _, Moved.refl h⟩
    obtain ⟨chunk, hc⟩ := exists_chunk h (by omega)
    have hoff := h.roff_le _ hc
    have hlt := (List.getElem?_eq_some_iff.1 hc).1
    rw [skipLoop, if_neg (by omega)]
    simp only [hc]
    split
    · exact ⟨_, rfl, moved_within hc (by omega)⟩
    have hmoved : Moved r (chunk.length - r.roff) { r with rchunk := r.rchunk + 1, roff := 0 } :=
      moved_next hc (by omega)
    have hrest : ((n : Int) - (chunk.length - r.roff)).toNat
        = n - (chunk.length - r.roff) := by omega
    rw [hrest]
    obtain ⟨r', hloop, hmoved'⟩ := ih (n := n - (chunk.length - r.roff)) hmoved.placed
      (by rw [hmoved.ahead, length_drop]; omega) (by simp only []; omega)
    have hall := hmoved.trans hmoved'
    rw [show chunk.length - r.roff + (n - (chunk.length - r.roff)) = n by omega] at hall
    exact ⟨r', hloop, hall⟩

/-! ## The two readers -/

/-- The chunked reader and the flat one stand at the same byte. -/
structure Views (r : LargeBufferReader) (f : FlatReader) : Prop where
  placed : Placed r
  data : f.data = r.lb.chunks.flatten
  pos : f.pos = position r
  limit : f.limit = r.endOff

variable {f : FlatReader}

section
variable (v : Views r f)
include v

theorem Views.ahead : ahead r = f.data.drop f.pos := by rw [v.data, v.pos, Refine.ahead]

theorem Views.remaining_le : f.remaining ≤ (Refine.ahead r).length := by
  have hlim := f.limit_le
  rw [v.ahead, length_drop]
  simp only [FlatReader.remaining, FlatReader.bound]
  omega

theorem Views.unread : f.unread = (Refine.ahead r).take f.remaining := by
  rw [v.ahead, FlatReader.unread]

theorem Views.take_unread (hn : n ≤ f.remaining) : f.unread.take n = (Refine.ahead r).take n := by
  rw [v.unread, take_take, min_eq_left hn]

theorem Views.readOffset : r.readOffset = some f.pos := by rw [readOffset_eq v.placed, v.pos]

theorem Views.remaining : r.remaining = some (f.remaining : Int) := by
  have hpos := f.pos_le
  have hend : r.effectiveEnd = f.limit.getD f.data.length := by
    rw [LargeBufferReader.effectiveEnd, r.lb.total_eq, v.data, v.limit]
  simp only [LargeBufferReader.remaining, v.readOffset, FlatReader.remaining, FlatReader.bound]
  congr 1
  omega

end

theorem unread_forward (h : n ≤ f.remaining) : (f.forward n h).unread = f.unread.drop n := by
  have hbound : f.bound - (f.pos + n) = f.remaining - n := by
    rw [FlatReader.remaining]
    omega
  have hremaining : (f.forward n h).remaining = f.remaining - n := hbound
  rw [FlatReader.unread, FlatReader.unread, hremaining, drop_take, drop_drop]
  rfl

theorem Views.forward (v : Views r f) (m : Moved r n r')
    (hn : n ≤ f.remaining) : Views r' (f.forward n hn) where
  placed := m.placed
  data := by rw [m.lb]; exact v.data
  pos := by
    rw [m.position, ← v.pos]
    rfl
  limit := by rw [m.endOff]; exact v.limit

/-! ## The calls -/

/-- Bytes that lie in the current chunk are sliced out of it. -/
theorem fastPath_some (h : Placed r) (hf : r.fastPath n = some chunk) :
    sliceOf chunk r.roff (r.roff + n) = some ((ahead r).take n)
      ∧ Moved r n (r.advance chunk n) := by
  simp only [fastPath] at hf
  split at hf
  · cases hf
  · next c hc =>
    split at hf
    · next hle =>
      cases hf
      rw [take_ahead h hc hle, sliceOf, if_pos ⟨by omega, hle⟩, Nat.add_sub_cancel_left]
      exact ⟨rfl, advance_moved hc hle⟩
    · cases hf

section
variable (v : Views r f)
include v

theorem readN_ok {n : Int} (hn : 0 ≤ n ∧ n ≤ f.remaining) :
    ∃ r', r.readN n = some (.ok (f.unread.take n.toNat), r')
      ∧ Views r' (f.forward n.toNat (f.toNat_le hn)) := by
  have hle := f.toNat_le hn
  have hahead := v.remaining_le
  rw [readN, v.take_unread hle]
  by_cases hz : n = 0
  · subst hz
    exact ⟨r, rfl, v.forward (Moved.refl v.placed) hle⟩
  rw [if_neg hz, v.remaining]
  simp only []
  rw [if_neg (by omega)]
  cases hf : r.fastPath n.toNat with
  | some chunk =>
    obtain ⟨hs, hm⟩ := fastPath_some v.placed hf
    simp only [hs]
    exact ⟨_, rfl, v.forward hm hle⟩
  | none =>
    obtain ⟨r', hcopy, hm⟩ := copyN_moved v.placed (le_trans hle hahead)
    simp only [hcopy]
    exact ⟨_, rfl, v.forward hm hle⟩

theorem readN_error {n : Int} (hn : ¬ (0 ≤ n ∧ n ≤ f.remaining)) :
    r.readN n = some (.error (.requested .readN n f.remaining), r) := by
  rw [readN, if_neg (by omega), v.remaining]
  simp only []
  rw [if_pos (by omega)]

theorem peek_ok {n : Int} (hn : 0 ≤ n ∧ n ≤ f.remaining) :
    r.peek n = some (.ok (f.unread.take n.toNat), r) := by
  have hle : n.toNat ≤ f.remaining := by omega
  have hahead := v.remaining_le
  rw [peek, v.take_unread hle]
  by_cases hz : n = 0
  · subst hz
    rfl
  rw [if_neg hz, v.remaining]
  simp only []
  rw [if_neg (by omega)]
  cases hf : r.fastPath n.toNat with
  | some chunk => simp [(fastPath_some v.placed hf).1]
  | none =>
    obtain ⟨r', hcopy, hm⟩ := copyN_moved v.placed (le_trans hle hahead)
    simp [hcopy, hm.lb, hm.endOff]

theorem peek_error {n : Int} (hn : ¬ (0 ≤ n ∧ n ≤ f.remaining)) :
    r.peek n = some (.error (.requested .peek n f.remaining), r) := by
  rw [peek, if_neg (by omega), v.remaining]
  simp only []
  rw [if_pos (by omega)]

theorem skip_ok {n : Int} (hn : 0 ≤ n ∧ n ≤ f.remaining) : ∃ r', r.skip n = some (.ok (), r')
      ∧ Views r' (f.forward n.toNat (f.toNat_le hn)) := by
  have hle := f.toNat_le hn
  obtain ⟨r', hloop, hm⟩ := skipLoop_moved (r.lb.chunks.length + 1) v.placed
    (le_trans hle v.remaining_le) (by omega)
  refine ⟨r', ?_, v.forward hm hle⟩
  rw [skip, v.remaining]
  simp only []
  rw [if_neg (by omega), hloop]

theorem skip_error {n : Int} (hn : ¬ (0 ≤ n ∧ n ≤ f.remaining)) :
    r.skip n = some (.error (.requested .skip n f.remaining), r) := by
  rw [skip, v.remaining]
  simp only []
  rw [if_pos (by omega)]

theorem read_ok (len : Nat) (hrem : f.remaining ≠ 0) :
    ∃ r', r.read len = some (.ok (f.unread.take len), r')
      ∧ Views r' (f.forward (min len f.remaining) (min_le_right _ _)) := by
  have hle : min len f.remaining ≤ (ahead r).length := le_trans (min_le_right _ _) v.remaining_le
  obtain ⟨r', hloop, hm⟩ := copyLoop_moved (r.lb.chunks.length + 1) v.placed hle (by omega)
  refine ⟨r', ?_, v.forward hm _⟩
  rw [LargeBufferReader.read, v.remaining, v.unread, take_take]
  simp only [Int.toNat_natCast]
  rw [if_neg (by omega), if_neg (by omega), readLoop_eq_copyLoop v.placed hle, hloop]

theorem bytes_ok : r.bytes = some (.ok f.unread, r) := by
  have hlen := f.length_unread
  rw [bytes, v.remaining]
  simp only []
  by_cases hz : f.remaining = 0
  · rw [if_pos (by omega), eq_nil_of_length_eq_zero (hlen.trans hz)]
  · rw [if_neg (by omega), peek_ok v (by omega)]
    rw [take_of_length_le (by omega)]

theorem readScalar_ok (k : Scalar) (hk : 0 ≤ (k.width : Int) ∧ (k.width : Int) ≤ f.remaining) :
    ∃ r', r.readScalar k = some (.ok (k.decode (f.unread.take (k.width : Int).toNat)), r')
      ∧ Views r' (f.forward (k.width : Int).toNat (by omega)) := by
  obtain ⟨r', hread, hv⟩ := readN_ok v hk
  refine ⟨r', ?_, hv⟩
  have hlen := f.length_unread
  rw [readScalar, hread]
  simp only []
  rw [if_neg (by rw [length_take]; omega)]

end

/-! ## Searching -/

theorem findChunkFrom_some {absOff : Nat} {cs : List (List UInt8)}
    {i pos : Nat} (hpos : pos ≤ absOff)
    (hlt : absOff < pos + cs.flatten.length) :
    ∃ j o chunk, findChunkFrom absOff i pos cs = some (i + j, o)
      ∧ cs[j]? = some chunk ∧ o < chunk.length
      ∧ pos + offsetOf cs j o = absOff := by
  induction cs generalizing i pos with
  | nil =>
    simp only [flatten_nil, length_nil] at hlt
    omega
  | cons c rest ih =>
    rw [flatten_cons, length_append] at hlt
    rw [findChunkFrom]
    split
    · refine ⟨0, absOff - pos, c, rfl, rfl, by omega, ?_⟩
      rw [offsetOf_zero]
      omega
    obtain ⟨j, o, chunk, hfind, hj, ho, heq⟩ := @ih (i + 1) (pos + c.length) (by omega) (by omega)
    refine ⟨j + 1, o, chunk, ?_, hj, ho, ?_⟩
    · rw [hfind]
      congr 2
      omega
    · rw [← heq]
      simp only [offsetOf, take_succ_cons, flatten_cons, length_append]
      omega

variable (lb : LargeBuffer)

theorem findChunk_in {absOff : Nat} (h : absOff < lb.total) :
    ∃ j o chunk, lb.findChunk absOff = some (j, o) ∧ lb.chunks[j]? = some chunk ∧
      o < chunk.length ∧ offsetOf lb.chunks j o = absOff := by
  obtain ⟨j, o, chunk, hfind, hj, ho, heq⟩ := @findChunkFrom_some absOff lb.chunks 0 0
    (zero_le _) (by rw [← lb.total_eq]; omega)
  rw [zero_add] at hfind heq
  refine ⟨j, o, chunk, ?_, hj, ho, heq⟩
  rw [findChunk, if_neg (by omega), Int.toNat_natCast, hfind]

/-- The result of a search that found the byte at `k`, or did not. -/
def searchResult (abs : Nat) : Option Nat → Int
  | none => -1
  | some k => ((abs + k : Nat) : Int)

theorem indexByteFrom_eq (c : UInt8)
    {rest : List (List UInt8)} {off abs : Nat} (hoff : off ≤ chunk.length) :
    indexByteFrom c (chunk :: rest) off abs = some (searchResult abs
          (((chunk :: rest).flatten.drop off).findIdx? (· == c))) := by
  induction rest generalizing chunk off abs with
  | nil =>
    rw [indexByteFrom, sliceFrom, if_pos hoff, flatten_cons, flatten_nil, append_nil]
    simp only []
    cases (chunk.drop off).findIdx? (· == c) <;> rfl
  | cons next rest ih =>
    rw [indexByteFrom, sliceFrom, if_pos hoff, flatten_cons,
      drop_append_of_le_length hoff, findIdx?_append]
    simp only []
    cases hc : (chunk.drop off).findIdx? (· == c) with
    | some idx => rfl
    | none =>
      rw [ih (zero_le _), drop_zero]
      cases ((next :: rest).flatten.findIdx? (· == c)) with
      | none => rfl
      | some k =>
        simp only [searchResult, Option.map_some]
        congr 2
        omega

theorem indexByteAt_eq (absOff : Nat) (c : UInt8) : lb.indexByteAt absOff c =
    some (searchResult absOff ((lb.chunks.flatten.drop absOff).findIdx? (· == c))) := by
  have htotal := lb.total_eq
  rw [indexByteAt]
  by_cases hin : absOff < lb.total
  · obtain ⟨j, o, chunk, hfind, hj, ho, rfl⟩ := findChunk_in lb hin
    obtain ⟨hlt, hget⟩ := List.getElem?_eq_some_iff.1 hj
    simp only [hfind, Int.toNat_natCast]
    rw [if_neg (by omega), drop_offsetOf, drop_eq_getElem_cons hlt, hget,
      indexByteFrom_eq c (le_of_lt ho)]
  · rw [if_pos (by omega), drop_eq_nil_of_le (by omega)]
    rfl

section
variable (v : Views r f)
include v

theorem indexByte_eq (c : UInt8) : r.indexByte c = some (searchResult 0 (f.find c)) := by
  have hat := indexByteAt_eq r.lb (position r) c
  rw [← ahead, ← v.pos] at hat
  rw [indexByte, v.readOffset]
  simp only [hat]
  rw [FlatReader.find, v.unread, findIdx?_take]
  cases hk : (ahead r).findIdx? (· == c) with
  | none => rfl
  | some k =>
    have hklt := (findIdx?_eq_some_iff_getElem.1 hk).1
    have hval : searchResult f.pos (some k) = f.pos + k := by simp [searchResult]
    generalize searchResult f.pos (some k) = absIdx at hval
    simp only [Option.bind_some, Option.guard]
    rw [if_neg (by omega), ← v.limit]
    cases hl : f.limit with
    | none =>
      have hrem : f.remaining = (ahead r).length := by
        rw [v.ahead, length_drop, FlatReader.remaining, FlatReader.bound, hl, Option.getD_none]
      rw [if_pos (by simp only [decide_eq_true_eq]; omega)]
      simp only [searchResult]
      congr 1
      omega
    | some e =>
      have hrem : f.remaining = e - f.pos := by
        rw [FlatReader.remaining, FlatReader.bound, hl, Option.getD_some]
      simp only []
      by_cases hin : k < f.remaining
      · rw [if_neg (by omega), if_pos (by simpa using hin)]
        simp only [searchResult]
        congr 1
        omega
      · rw [if_pos (by omega), if_neg (by simpa using hin)]
        rfl

theorem readCStr_some {i : Nat} (hf : f.find 0 = some i) :
    ∃ r', r.readCStr = some (.ok (f.unread.take i), r')
      ∧ Views r' (f.forward (i + 1) (FlatReader.find_lt hf)) := by
  have hi := FlatReader.find_lt hf
  obtain ⟨r1, hread, v1⟩ := readN_ok v (n := i) (by omega)
  have hrem : (f.forward i (by omega)).remaining = f.remaining - i := by
    simp only [FlatReader.remaining, FlatReader.forward, FlatReader.bound]
    omega
  obtain ⟨r2, hskip, v2⟩ := skip_ok v1 (n := 1) (by simp only [Int.toNat_natCast]; omega)
  refine ⟨r2, ?_, v2⟩
  rw [readCStr, indexByte_eq v, hf]
  simp only [searchResult, zero_add]
  rw [hread]
  simp [hskip]

/-! ## Runs -/

theorem reset_views : Views r.reset f.rewind where
  placed := ⟨zero_le _, fun _ _ => zero_le _, fun _ => rfl⟩
  data := v.data
  pos := by
    rfl
  limit := v.limit

/-- A cursor at the end of the buffer is at the start of the chunk that comes
next. -/
theorem appendChunk_views (more : List UInt8) :
    Views { r with lb := r.lb.appendChunk more } (f.append more) where
  placed :=
    { rchunk_le := by
        have hle := v.placed.rchunk_le
        simp only [appendChunk, length_append]
        omega
      roff_le := by
        intro chunk hc
        simp only [appendChunk] at hc
        rcases lt_or_eq_of_le v.placed.rchunk_le with hlt | heq
        · rw [getElem?_append_left hlt] at hc
          exact v.placed.roff_le _ hc
        · rw [v.placed.roff_end heq]
          exact zero_le _
      roff_end := by
        intro heq
        have hle := v.placed.rchunk_le
        simp only [appendChunk, length_append, length_singleton] at heq
        omega }
  data := by
    simp [FlatReader.append, appendChunk, v.data]
  pos := by
    simp only [position, appendChunk, offsetOf, take_append_of_le_length v.placed.rchunk_le]
    exact v.pos
  limit := v.limit

/-- One call: both readers answer the same, and stand at the same byte
again. -/
theorem call_views (op : ReaderOp) : ∃ r', r.call op = some ((f.result op).1, r')
      ∧ Views r' (f.result op).2 := by
  cases op with
  | readN n =>
    by_cases hn : 0 ≤ n ∧ n ≤ f.remaining
    · obtain ⟨r', hr, v'⟩ := readN_ok v hn
      simp only [LargeBufferReader.call, hr, FlatReader.result, FlatReader.takeN_ok _ hn]
      exact ⟨r', rfl, v'⟩
    simp only [LargeBufferReader.call, readN_error v hn,
      FlatReader.result, FlatReader.takeN_error _ hn]
    exact ⟨r, rfl, v⟩
  | peek n =>
    by_cases hn : 0 ≤ n ∧ n ≤ f.remaining
    · simp only [LargeBufferReader.call, peek_ok v hn, FlatReader.result, FlatReader.takeN_ok _ hn]
      exact ⟨r, rfl, v⟩
    simp only [LargeBufferReader.call, peek_error v hn,
      FlatReader.result, FlatReader.takeN_error _ hn]
    exact ⟨r, rfl, v⟩
  | skip n =>
    by_cases hn : 0 ≤ n ∧ n ≤ f.remaining
    · obtain ⟨r', hr, v'⟩ := skip_ok v hn
      simp only [LargeBufferReader.call, hr, FlatReader.result, FlatReader.takeN_ok _ hn]
      exact ⟨r', rfl, v'⟩
    simp only [LargeBufferReader.call, skip_error v hn,
      FlatReader.result, FlatReader.takeN_error _ hn]
    exact ⟨r, rfl, v⟩
  | read len =>
    by_cases hz : f.remaining = 0
    · have hr : r.read len = some (.error .eof, r) := by
        rw [LargeBufferReader.read, v.remaining, hz]
        rfl
      simp only [LargeBufferReader.call, hr, FlatReader.result]
      rw [if_pos hz]
      exact ⟨r, rfl, v⟩
    obtain ⟨r', hr, v'⟩ := read_ok v len hz
    simp only [LargeBufferReader.call, hr, FlatReader.result]
    rw [if_neg hz]
    exact ⟨r', rfl, v'⟩
  | readCStr =>
    simp only [LargeBufferReader.call, FlatReader.result]
    split
    · next hf =>
      rw [readCStr, indexByte_eq v, hf]
      exact ⟨r, rfl, v⟩
    · next i hf =>
      obtain ⟨r', hr, v'⟩ := readCStr_some v hf
      rw [hr]
      exact ⟨r', rfl, v'⟩
  | indexByte c =>
    simp only [LargeBufferReader.call, indexByte_eq v, FlatReader.result]
    cases hf : f.find c with
    | none => exact ⟨r, rfl, v⟩
    | some i => exact ⟨r, by simp [searchResult], v⟩
  | bytes =>
    simp only [LargeBufferReader.call, bytes_ok v]
    exact ⟨r, rfl, v⟩
  | reset => exact ⟨_, rfl, reset_views v⟩
  | readScalar k =>
    by_cases hk : 0 ≤ (k.width : Int) ∧ (k.width : Int) ≤ f.remaining
    · obtain ⟨r', hr, v'⟩ := readScalar_ok v k hk
      simp only [LargeBufferReader.call, hr, FlatReader.result, FlatReader.takeN_ok _ hk]
      exact ⟨r', rfl, v'⟩
    simp only [LargeBufferReader.call, readScalar,
      readN_error v hk, FlatReader.result, FlatReader.takeN_error _ hk]
    exact ⟨r, rfl, v⟩
  | appendChunk more => exact ⟨_, rfl, appendChunk_views v more⟩

end

theorem run_views (v : Views r f) (ops : List ReaderOp) : r.run ops = some (f.run ops) := by
  induction ops generalizing r f with
  | nil => rfl
  | cons op ops ih =>
    obtain ⟨r', hcall, v'⟩ := call_views v op
    simp [run, v.readOffset, hcall, v'.readOffset, v'.remaining, ih v', FlatReader.run]

theorem flat_run_error (f : FlatReader) (ops : List ReaderOp) :
    ∀ c ∈ f.run ops, ∀ e, c.result = .error e → c.offset = c.offsetBefore := by
  induction ops generalizing f with
  | nil => exact fun c hc => nomatch hc
  | cons op ops ih =>
    intro c hc e he
    rcases mem_cons.1 hc with rfl | hc
    · exact congrArg FlatReader.pos (FlatReader.result_error he)
    · exact ih _ c hc e he

/-! ## Buffers -/

variable (chunks : List (List UInt8))

/-- The buffer after its chunks were appended one by one. -/
def bufferOf : LargeBuffer := chunks.foldl appendChunk newLargeBuffer

theorem chunks_bufferOf : (bufferOf chunks).chunks = chunks := by
  have hfold : ∀ lb : LargeBuffer, (chunks.foldl appendChunk lb).chunks = lb.chunks ++ chunks := by
    induction chunks with
    | nil => intro lb; simp
    | cons c cs ih =>
      intro lb
      rw [foldl_cons, ih]
      simp [appendChunk]
  exact hfold newLargeBuffer

theorem total_bufferOf : (bufferOf chunks).total = chunks.flatten.length := by
  rw [(bufferOf chunks).total_eq, chunks_bufferOf]

theorem u8At_zero {chunks : List (List UInt8)} {b : UInt8} (h : chunks.flatten.head? = some b) :
    u8At (bufferOf chunks) 0 = some b := by
  have htotal : 0 < (bufferOf chunks).total := by
    obtain ⟨tail, htail⟩ := head?_eq_some_iff.mp h
    rw [total_bufferOf, htail]
    exact zero_lt_succ _
  obtain ⟨j, o, chunk, hfind, hj, ho, heq⟩ := findChunk_in _ htotal
  have hdrop := drop_offsetOf (bufferOf chunks).chunks j o
  rw [heq, flatten_drop_of_get? hj, drop_append_of_le_length (le_of_lt ho),
    chunks_bufferOf, drop_zero] at hdrop
  rw [hdrop, head?_append_of_ne_nil _ (by simpa using ho), head?_drop] at h
  have hbyte : u8At (bufferOf chunks) (0 : Nat) = chunk[o]? := by
    simp only [u8At, hfind, hj, Option.bind_some]
  exact hbyte.trans h

theorem newReader_views :
    ∃ f, FlatReader.openReader lb.chunks.flatten .newReader = .ok f ∧ Views lb.newReader f :=
  ⟨_, rfl, ⟨zero_le _, fun _ _ => zero_le _, fun _ => rfl⟩, rfl, (offsetOf_zero _ _).symm, rfl⟩

theorem Placed.withEnd (h : Placed r) (e : Option Nat) : Placed { r with endOff := e } :=
  ⟨h.rchunk_le, h.roff_le, h.roff_end⟩

/-- A limited reader skips to its offset before its bound is set. -/
theorem openReader_views (how : ReaderSource) :
    match FlatReader.openReader lb.chunks.flatten how with
    | .error e => lb.openReader how = some (.error e)
    | .ok f => ∃ r, lb.openReader how = some (.ok r) ∧ Views r f := by
  cases how with
  | newReader =>
    obtain ⟨f, hf, v⟩ := newReader_views lb
    rw [hf]
    exact ⟨_, rfl, v⟩
  | newLimitedReader offset endOff =>
    simp only [FlatReader.openReader, openReader, newLimitedReader, lb.total_eq]
    by_cases ho : offset < 0 ∨ lb.chunks.flatten.length < offset
    · simp only [if_pos ho]
    by_cases he : endOff < offset ∨ lb.chunks.flatten.length < endOff
    · simp only [if_neg ho, dif_pos he, if_pos he]
    simp only [if_neg ho, dif_neg he, if_neg he]
    obtain ⟨f0, hf0, v0⟩ := newReader_views lb
    cases hf0
    split
    · obtain ⟨r, hskip, v⟩ := skip_ok v0 (n := offset) ⟨by omega, by
          simp only [FlatReader.remaining, FlatReader.bound, Option.getD_none]
          omega⟩
      rw [hskip]
      refine ⟨_, rfl, v.placed.withEnd _, v.data, ?_, rfl⟩
      have hpos := v.pos
      simp only [FlatReader.forward, zero_add] at hpos
      exact hpos
    · refine ⟨_, rfl, v0.placed.withEnd _, v0.data, ?_, rfl⟩
      exact (show offset.toNat = 0 by omega).trans v0.pos

/-- However a byte string is cut into chunks, and whatever is read, searched,
skipped, rewound and appended in between, a reader of the chunks answers as
the reader of the byte string does, with the same offsets and the same number
of bytes left; it never indexes outside a chunk, and a call that fails leaves
the cursor where it was. -/
theorem chunked_reader_is_flat (chunks : List (List UInt8))
    (how : ReaderSource) (ops : List ReaderOp) :
    match FlatReader.openReader chunks.flatten how with
    | .error e => (bufferOf chunks).openReader how = some (.error e)
    | .ok f =>
      ∃ r, (bufferOf chunks).openReader how = some (.ok r) ∧ r.readOffset = some f.pos
        ∧ r.remaining = some (f.remaining : Int)
        ∧ r.run ops = some (f.run ops)
        ∧ ∀ c ∈ f.run ops, ∀ e, c.result = .error e → c.offset = c.offsetBefore := by
  have h := openReader_views (bufferOf chunks) how
  rw [chunks_bufferOf] at h
  cases hf : FlatReader.openReader chunks.flatten how with
  | error e =>
    rw [hf] at h
    exact h
  | ok f =>
    rw [hf] at h
    obtain ⟨r, hr, v⟩ := h
    exact ⟨r, hr, v.readOffset, v.remaining, run_views v ops, flat_run_error f ops⟩

end Obi.Refine
