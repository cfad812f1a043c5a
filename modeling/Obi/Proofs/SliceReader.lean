import Obi.Proofs.LargeBuffer
import Obi.Spec.Tape

/-!
# The reader and its scratch slice are a tape

The chunks of a buffer show in what a parser gets in one way: bytes that cross
the end of a chunk are copied to the scratch slice. Where that happens depends
on the position alone, since every loop of the reader leaves a chunk with the
last byte of it.
-/

namespace Obi.Refine
open Ref Lib Spec List Tape LargeBufferReader
variable {r r' : LargeBufferReader} {chunk : List UInt8} {n : Nat} {f : FlatReader} {w : List UInt8}
  {off e : Nat} {t' : Tape}

/-! ## Where the cursor stands -/

/-- The cursor has left every chunk it has read to the end. -/
def CursorSettled (r : LargeBufferReader) : Prop := Settled r.lb.chunks r.rchunk r.roff

theorem advance_settled (hc : r.lb.chunks[r.rchunk]? = some chunk) (hn : r.roff + n ≤ chunk.length)
    (hpos : 0 < n) : CursorSettled (r.advance chunk n) := by
  rw [advance]
  split
  · refine ⟨fun _ => .inr ⟨chunk, ?_, ?_⟩, fun h => absurd rfl h⟩
    · exact hc
    · rintro rfl
      exact absurd hn (by rw [length_nil]; omega)
  · next hne =>
    refine ⟨fun h => ?_, fun _ => ⟨chunk, hc, ?_⟩⟩
    · exact absurd h (show r.roff + n ≠ 0 by omega)
    · exact lt_of_le_of_ne hn hne

theorem copyLoop_settled (fuel : Nat) {need : Nat} (hpos : 0 < need)
    (h : copyLoop fuel r need = some (w, r')) : CursorSettled r' := by
  induction fuel generalizing r need w with
  | zero =>
    rw [copyLoop, if_neg (by omega)] at h
    cases h
  | succ fuel ih =>
    rw [copyLoop, if_neg (by omega), copyStep] at h
    split at h
    · cases h
    · next copied r1 hstep =>
      split at hstep
      · cases hstep
      · next chunk hc =>
        rw [sliceFrom] at hstep
        split at hstep
        · cases hstep
        · next src hsrc =>
          split at hsrc
          · next hoff =>
            cases hsrc
            cases hstep
            split at h
            · cases h
            · next rest r2 hloop =>
              cases h
              have hlen : ((chunk.drop r.roff).take need).length =
                  min need (chunk.length - r.roff) := by
                rw [length_take, length_drop]
              rw [hlen] at hloop
              by_cases hdone : need ≤ chunk.length - r.roff
              · rw [min_eq_left hdone, Nat.sub_self, copyLoop_zero] at hloop
                cases hloop
                exact advance_settled hc (by omega) hpos
              · exact ih (by omega) hloop
          · cases hsrc

theorem skipLoop_settled (fuel : Nat) (hpos : 0 < n)
    (h : skipLoop fuel r n = some r') (hplaced : Placed r) : CursorSettled r' := by
  induction fuel generalizing r n with
  | zero =>
    rw [skipLoop, if_neg (by omega)] at h
    cases h
  | succ fuel ih =>
    rw [skipLoop, if_neg (by omega)] at h
    split at h
    · cases h
    · next chunk hc =>
      have hoff := hplaced.roff_le _ hc
      simp only [] at h
      split at h
      · next hin =>
        cases h
        exact ⟨fun h => absurd h (show r.roff + n ≠ 0 by omega),
          fun _ => ⟨chunk, hc, show r.roff + n < chunk.length by omega⟩⟩
      · next hout =>
        by_cases hend : n = chunk.length - r.roff
        · have hzero : (n - ((chunk.length : Int) - r.roff)).toNat = 0 := by omega
          rw [hzero, skipLoop_zero] at h
          cases h
          refine ⟨fun _ => .inr ⟨chunk, ?_, ?_⟩, fun h => absurd rfl h⟩
          · exact hc
          · rintro rfl
            rw [length_nil] at hend
            omega
        · exact ih (show 0 < _ by omega) h
            (moved_next hc (by omega) (n := chunk.length - r.roff)).placed

/-- The bytes are sliced out of the chunk unless they cross its end. -/
theorem fastPath_eq_none_iff (hplaced : Placed r) (hset : CursorSettled r)
    (hn : 0 < n) (hahead : n ≤ (ahead r).length) :
    r.fastPath n = none ↔ crosses r.lb.chunks (position r) n = true := by
  obtain ⟨chunk, hc⟩ := exists_chunk hplaced (by omega)
  rw [position, crosses_offsetOf hc hset, decide_eq_true_eq, fastPath, hc]
  simp only []
  split
  · next hin => exact iff_of_false (by simp) (by omega)
  · next hout => exact iff_of_true rfl (by omega)

/-! ## The calls -/

/-- The reader stands where the tape does, with the same memory. -/
structure OnTape (chunks : List (List UInt8)) (r : SliceReader) (t : Tape) : Prop where
  chunks : r.reader.lb.chunks = chunks
  memory : r.memory = t.memory
  settled : CursorSettled r.reader
  views : ∃ f, Views r.reader f ∧ f.pos = t.pos ∧ f.unread = t.rest

variable {chunks : List (List UInt8)} {s : SliceReader} {t : Tape}

section
variable (h : OnTape chunks s t)
include h

theorem OnTape.remaining : s.reader.remaining = some (t.rest.length : Int) := by
  obtain ⟨f, v, -, hrest⟩ := h.views
  rw [v.remaining, ← hrest, f.length_unread]

theorem OnTape.within (hn : n ≤ t.rest.length) :
    ∃ f, Views s.reader f ∧ f.pos = t.pos ∧ f.unread = t.rest ∧ n ≤ f.remaining := by
  obtain ⟨f, v, hpos, hrest⟩ := h.views
  exact ⟨f, v, hpos, hrest, by rw [← f.length_unread, hrest]; exact hn⟩

theorem OnTape.forward (hn : n ≤ t.rest.length)
    (hm : Moved s.reader n r') (hset : CursorSettled r') (memory : Scratch UInt8) :
    OnTape chunks ⟨r', memory⟩ { t.forward n with memory := memory } := by
  obtain ⟨f, v, hpos, hrest, hle⟩ := h.within hn
  refine ⟨by rw [← h.chunks, ← hm.lb], rfl, hset, f.forward n hle, v.forward hm hle, ?_, ?_⟩
  · show f.pos + n = t.pos + n
    rw [hpos]
  · rw [unread_forward, hrest]
    rfl

/-- What the two paths of `ReadN` and `Peek` slice or copy, and where they end. -/
theorem OnTape.paths (hn : n ≤ t.rest.length) (hpos : 0 < n) : match s.reader.fastPath n with
    | some chunk => crosses chunks t.pos n = false ∧
        sliceOf chunk s.reader.roff (s.reader.roff + n) = some (t.rest.take n) ∧
        Moved s.reader n (s.reader.advance chunk n) ∧ CursorSettled (s.reader.advance chunk n)
    | none => crosses chunks t.pos n = true ∧ ∃ r',
        s.reader.copyN n = some (t.rest.take n, r') ∧ Moved s.reader n r' ∧ CursorSettled r' := by
  obtain ⟨f, v, hp, hrest, hle⟩ := h.within hn
  have hahead := le_trans hle v.remaining_le
  have hcr := fastPath_eq_none_iff v.placed h.settled hpos hahead
  rw [← v.pos, hp, h.chunks] at hcr
  rw [← hrest, v.take_unread hle]
  cases hfast : s.reader.fastPath n with
  | some chunk =>
    obtain ⟨hslice, hm⟩ := fastPath_some v.placed hfast
    rw [hfast] at hcr
    refine ⟨Bool.eq_false_iff.mpr fun h => Option.some_ne_none _ (hcr.mpr h), hslice, hm, ?_⟩
    rw [fastPath] at hfast
    split at hfast
    · cases hfast
    · next c hc =>
      split at hfast
      · next hin =>
        cases hfast
        exact advance_settled hc hin hpos
      · cases hfast
  | none =>
    obtain ⟨r', hcopy, hm⟩ := copyN_moved v.placed hahead
    exact ⟨hcr.mp hfast, r', hcopy, hm, copyLoop_settled _ hpos hcopy⟩

theorem readN_peek_onTape (n : Int) :
    (∃ s', s.readN n = some (((Tape.answer (crosses chunks) (.readN n) t).1), s') ∧
      OnTape chunks s' (Tape.answer (crosses chunks) (.readN n) t).2) ∧
    ∃ s', s.peek n = some (((Tape.answer (crosses chunks) (.peek n) t).1), s') ∧
      OnTape chunks s' (Tape.answer (crosses chunks) (.peek n) t).2 := by
  simp only [SliceReader.readN, SliceReader.peek, Tape.answer]
  by_cases hz : n = 0
  · simp only [if_pos hz]
    exact ⟨⟨s, rfl, h⟩, s, rfl, h⟩
  simp only [if_neg hz, h.remaining]
  by_cases hrange : n < 0 ∨ t.rest.length < n
  · simp only [if_pos hrange]
    exact ⟨⟨s, rfl, h⟩, s, rfl, h⟩
  simp only [if_neg hrange]
  have hn : n.toNat ≤ t.rest.length := by omega
  have hpaths := h.paths hn (by omega)
  cases hfast : s.reader.fastPath n.toNat with
  | some chunk =>
    rw [hfast] at hpaths
    obtain ⟨hin, hslice, hm, hset⟩ := hpaths
    simp only [hslice, Tape.slice, copied, hin]
    refine ⟨⟨_, rfl, ?_⟩, _, rfl, h⟩
    have hnext := h.forward hn hm hset s.memory
    rw [h.memory] at hnext ⊢
    exact hnext
  | none =>
    rw [hfast] at hpaths
    obtain ⟨hout, r', hcopy, hm, hset⟩ := hpaths
    have hlen : (t.rest.take n.toNat).length = n.toNat := by rw [length_take, min_eq_left hn]
    simp only [hcopy, Tape.slice, copied, hout, hlen, h.memory]
    refine ⟨⟨_, rfl, h.forward hn hm hset _⟩, _, rfl, ?_⟩
    rw [hm.lb, hm.endOff]
    exact ⟨h.chunks, rfl, h.settled, h.views⟩

theorem skip_onTape (n : Int) :
    ∃ s', s.skip n = some (((Tape.answer (crosses chunks) (.skip n) t).1), s') ∧
      OnTape chunks s' (Tape.answer (crosses chunks) (.skip n) t).2 := by
  obtain ⟨f, v, hp, hrest⟩ := h.views
  have hrem : f.remaining = t.rest.length := by rw [← f.length_unread, hrest]
  rw [SliceReader.skip, Tape.answer]
  by_cases hrange : n < 0 ∨ t.rest.length < n
  · rw [if_pos hrange, skip_error v (by omega), hrem]
    exact ⟨s, rfl, h⟩
  rw [if_neg hrange]
  have hn : n.toNat ≤ f.remaining := by omega
  obtain ⟨r', hloop, hm⟩ := skipLoop_moved (s.reader.lb.chunks.length + 1) v.placed
    (le_trans hn v.remaining_le) (by omega)
  have hskip : s.reader.skip n = some (.ok (), r') := by
    rw [skip, v.remaining]
    simp only []
    rw [if_neg (by omega), hloop]
  have hset : CursorSettled r' := by
    rcases Nat.eq_zero_or_pos n.toNat with hz | hpos
    · rw [hz] at hloop
      cases hloop
      exact h.settled
    · exact skipLoop_settled _ hpos hloop v.placed
  rw [hskip]
  refine ⟨_, rfl, ?_⟩
  have hnext := h.forward (hrem ▸ hn) hm hset s.memory
  rw [h.memory] at hnext ⊢
  exact hnext

end

theorem find_eq (hrest : f.unread = t.rest) (c : UInt8) : searchResult 0 (f.find c) = t.find c := by
  rw [FlatReader.find, hrest, find]
  cases t.rest.findIdx? (· == c) with
  | none => rfl
  | some i => rw [searchResult, zero_add]

/-- Every call is answered as on the tape. -/
theorem answer_onTape (call : SliceCall) (s : SliceReader) (t : Tape) (h : OnTape chunks s t) :
    ∃ s', SliceReader.answer call s = some ((Tape.answer (crosses chunks) call t).1, s') ∧
      OnTape chunks s' (Tape.answer (crosses chunks) call t).2 := by
  cases call with
  | remaining => exact ⟨s, by rw [SliceReader.answer, h.remaining]; rfl, h⟩
  | indexByte c =>
    obtain ⟨f, v, -, hrest⟩ := h.views
    exact ⟨s, by rw [SliceReader.answer, indexByte_eq v, find_eq hrest]; rfl, h⟩
  | readN n => exact (readN_peek_onTape h n).1
  | peek n => exact (readN_peek_onTape h n).2
  | skip n => exact skip_onTape h n
  | load slice => exact ⟨s, by rw [SliceReader.answer, h.memory]; rfl, h⟩

/-! ## Programs -/

/-- A new reader of a buffer stands at the start of the tape. -/
theorem newReader_onTape (chunks : List (List UInt8)) :
    OnTape chunks ⟨(bufferOf chunks).newReader, Scratch.none⟩
      ⟨0, chunks.flatten, Scratch.none⟩ := by
  obtain ⟨f, hf, v⟩ := newReader_views (bufferOf chunks)
  cases hf
  refine ⟨chunks_bufferOf chunks, rfl, ⟨fun _ => .inl rfl, fun h => absurd rfl h⟩, _, v, rfl, ?_⟩
  simp [FlatReader.unread, FlatReader.remaining, FlatReader.bound, chunks_bufferOf]

/-- A parser on a new reader of a chunked buffer does what it does on the
tape. -/
theorem onReader_eq_onTape {α : Type} (p : SliceParser α) (chunks : List (List UInt8)) :
    p.onReader (bufferOf chunks).newReader =
      some (onTape (crosses chunks) p ⟨0, chunks.flatten, Scratch.none⟩).1 := by
  obtain ⟨s', hrun, -⟩ := Script.run_eq_eval answer_onTape p (newReader_onTape chunks)
  rw [SliceParser.onReader, hrun]
  rfl

/-- A limited reader stands behind what it skips, in front of what is not cut off. -/
theorem newLimited_onTape (chunks : List (List UInt8)) (hpos : 0 < off)
    (hoff : off ≤ e) (he : e ≤ chunks.flatten.length) :
    ∃ r, (bufferOf chunks).newLimitedReader off e = some (.ok r) ∧
      OnTape chunks ⟨r, Scratch.none⟩ ⟨off, (chunks.flatten.take e).drop off, Scratch.none⟩ := by
  have htotal := total_bufferOf chunks
  obtain ⟨s, hskip, hs⟩ := skip_onTape (newReader_onTape chunks) off
  have hrange : ¬ ((off : Int) < 0 ∨ (chunks.flatten.length : Int) < off) := by omega
  have hans : Tape.answer (crosses chunks) (.skip off) ⟨0, chunks.flatten, Scratch.none⟩ =
      (.ok (), (mk 0 chunks.flatten Scratch.none).forward off) := by
    rw [Tape.answer, if_neg hrange, Int.toNat_natCast]
  rw [hans] at hskip hs
  rw [SliceReader.skip] at hskip
  cases hread : (bufferOf chunks).newReader.skip off with
  | none =>
    rw [hread] at hskip
    cases hskip
  | some out =>
    obtain ⟨res, r⟩ := out
    rw [hread] at hskip
    cases hskip
    obtain ⟨f, v, hp, -⟩ := hs.views
    have hdata : f.data = chunks.flatten := by rw [v.data, hs.chunks]
    have hat : f.pos = off := hp.trans (zero_add off)
    refine ⟨{ r with endOff := some e }, ?_, hs.chunks, rfl, hs.settled, ?_⟩
    · rw [LargeBuffer.newLimitedReader, htotal, if_neg hrange, if_neg (by omega),
        if_pos (by omega), hread]
      simp
    have hlimit : (some e).getD f.data.length ≤ f.data.length := by
      rw [hdata]
      exact he
    have hbound : f.pos ≤ (some e).getD f.data.length := by
      rw [hat]
      exact hoff
    refine ⟨⟨f.data, f.pos, some e, hbound, hlimit⟩, ⟨v.placed.withEnd _, v.data, v.pos, rfl⟩,
      hat, ?_⟩
    change (f.data.drop f.pos).take (e - f.pos) = _
    rw [hdata, hat, ← drop_take]

/-- A parser on a limited reader of a chunked buffer does what it does on the
tape. -/
theorem onLimited_eq_onTape {α : Type} (p : SliceParser α) (chunks : List (List UInt8))
    (hpos : 0 < off) (hoff : off ≤ e) (he : e ≤ chunks.flatten.length) :
    ∃ r, (bufferOf chunks).newLimitedReader off e = some (.ok r) ∧
      p.onReader r = some (onTape (crosses chunks) p
        ⟨off, (chunks.flatten.take e).drop off, Scratch.none⟩).1 := by
  obtain ⟨r, hr, h⟩ := newLimited_onTape chunks hpos hoff he
  obtain ⟨s', hrun, -⟩ := Script.run_eq_eval answer_onTape p h
  refine ⟨r, hr, ?_⟩
  rw [SliceParser.onReader, hrun]
  rfl

/-! ## Reading on a tape -/

section
variable {α β : Type} {cr : Nat → Nat → Bool} {k : Nat}

@[simp] theorem onTape_bind (p : SliceParser α) (g : α → SliceParser β) (t : Tape) :
    onTape cr (p >>= g) t = onTape cr (g (onTape cr p t).1) (onTape cr p t).2 :=
  Script.eval_bind p g t

theorem onTape_then {p : SliceParser α} {a : α} (h : onTape cr p t = (a, t'))
    (g : α → SliceParser β) : onTape cr (p >>= g) t = onTape cr (g a) t' := by
  rw [onTape_bind, h]

@[simp] theorem onTape_pure (a : α) (t : Tape) : onTape cr (pure a) t = (a, t) := rfl

@[simp] theorem onTape_remaining (t : Tape) :
    onTape cr SliceParser.remaining t = ((t.rest.length : Int), t) := rfl

@[simp] theorem onTape_indexByte (c : UInt8) (t : Tape) :
    onTape cr (SliceParser.indexByte c) t = (t.find c, t) := rfl

@[simp] theorem onTape_load (s : Slice UInt8) (t : Tape) :
    onTape cr (SliceParser.load s) t = (t.memory.load s, t) := rfl

theorem onTape_readN (hpos : 0 < n) (hn : n ≤ t.rest.length) :
    onTape cr (SliceParser.readN n) t = (.ok (t.slice cr n), (t.copied cr n).forward n) := by
  change Tape.answer cr (.readN n) t = _
  rw [Tape.answer, if_neg (by omega), if_neg (by omega), Int.toNat_natCast]

theorem onTape_peek (hpos : 0 < n) (hn : n ≤ t.rest.length) :
    onTape cr (SliceParser.peek n) t = (.ok (t.slice cr n), t.copied cr n) := by
  change Tape.answer cr (.peek n) t = _
  rw [Tape.answer, if_neg (by omega), if_neg (by omega), Int.toNat_natCast]

theorem onTape_skip (hn : n ≤ t.rest.length) :
    onTape cr (SliceParser.skip n) t = (.ok (), t.forward n) := by
  change Tape.answer cr (.skip n) t = _
  rw [Tape.answer, if_neg (by omega), Int.toNat_natCast]

/-- A byte that stands behind bytes without it. -/
theorem find_append {c : UInt8} {rest : List UInt8} (hw : c ∉ w) (hrest : t.rest = w ++ c :: rest) :
    t.find c = (w.length : Int) := by
  have hfind : t.rest.findIdx? (· == c) = some w.length := by
    rw [hrest, findIdx?_append, findIdx?_cons]
    have hnone : w.findIdx? (· == c) = none := by
      rw [findIdx?_eq_none_iff]
      intro x hx
      rw [beq_eq_false_iff_ne]
      rintro rfl
      exact hw hx
    rw [hnone]
    simp
  rw [find, hfind]

/-! ### What a slice shows -/

variable (cr) in
theorem slice_has (t : Tape) (n : Nat) : (t.copied cr n).memory.Has (t.slice cr n) := by
  rw [Tape.slice, copied]
  split
  · exact Scratch.has_view _ _
  · trivial

theorem slice_atFront (t : Tape) (n : Nat) : Scratch.AtFront (t.slice cr n) := by
  rw [Tape.slice]
  split
  · rfl
  · trivial

variable (cr) in
theorem load_slice_copied (hn : n ≤ t.rest.length) :
    (t.copied cr n).memory.load (t.slice cr n) = t.rest.take n := by
  have hlen : (t.rest.take n).length = n := by rw [length_take, min_eq_left hn]
  rw [Tape.slice, copied]
  split
  · have hload := Scratch.load_view_write t.memory (t.rest.take n)
    rw [hlen] at hload
    exact hload
  · rfl

theorem cap_copied (hn : n ≤ t.rest.length) :
    (t.copied cr n).memory.cap = grown cr t.pos n t.memory.cap := by
  rw [copied, grown]
  split
  · rw [Scratch.cap_write, length_take, min_eq_left hn]
  · rfl

variable (cr) in
/-- A later read is written over the front of a slice if both cross the end of a
chunk and it fits the memory there is, and leaves it alone if not. -/
theorem load_slice_over (hn : n ≤ t.rest.length) (hk : k ≤ t'.rest.length)
    (hmem : t'.memory = (t.copied cr n).memory) :
    (t'.copied cr k).memory.load (t.slice cr n) =
      if cr t.pos n = true ∧ cr t'.pos k = true ∧ k ≤ t'.memory.cap then
        (t'.rest.take k ++ (t.rest.take n).drop k).take n
      else t.rest.take n := by
  have hlen : (t.rest.take n).length = n := by rw [length_take, min_eq_left hn]
  have hlen' : (t'.rest.take k).length = k := by rw [length_take, min_eq_left hk]
  have hload := load_slice_copied cr hn
  rw [← hmem] at hload
  have hhas := slice_has cr t n
  rw [← hmem] at hhas
  rw [copied]
  split
  · next hcross =>
    by_cases hover : cr t.pos n = true ∧ k ≤ t'.memory.cap
    · rw [if_pos ⟨hover.1, hcross, hover.2⟩]
      have hslice : t.slice cr n = t'.memory.view n := by
        rw [Tape.slice, if_pos hover.1, hmem, copied, if_pos hover.1]
      have hcap : (t'.rest.take k).length ≤ t'.memory.cap := by
        rw [hlen']
        exact hover.2
      rw [hslice] at hload ⊢
      rw [Scratch.load_write_view hcap, hload, hlen, hlen']
    · rw [if_neg (fun h => hover ⟨h.1, h.2.2⟩), ← hload]
      refine Scratch.load_write_of_not hhas fun hshare => ?_
      rw [hlen']
      by_cases hfst : cr t.pos n = true
      · exact Nat.lt_of_not_le fun hle => hover ⟨hfst, hle⟩
      · rw [Tape.slice, if_neg hfst] at hshare
        exact absurd hshare id
  · next hcross => rw [if_neg (fun h => hcross h.2.1), hload]

/-- The same for a read of at most as many bytes, which always fits. -/
theorem load_slice_after (hn : n ≤ t.rest.length) (hk : k ≤ t'.rest.length)
    (hkn : k ≤ n) (hmem : t'.memory = (t.copied cr n).memory) :
    (t'.copied cr k).memory.load (t.slice cr n) =
      if cr t.pos n = true ∧ cr t'.pos k = true then t'.rest.take k ++ (t.rest.take n).drop k
      else t.rest.take n := by
  rw [load_slice_over cr hn hk hmem]
  by_cases hboth : cr t.pos n = true ∧ cr t'.pos k = true
  · have hcap : k ≤ t'.memory.cap := by
      rw [hmem, cap_copied hn, grown, if_pos hboth.1]
      omega
    rw [if_pos ⟨hboth.1, hboth.2, hcap⟩, if_pos hboth]
    refine take_of_length_le ?_
    rw [length_append, length_drop, length_take, length_take]
    omega
  · rw [if_neg (fun h => hboth ⟨h.1, h.2.1⟩), if_neg hboth]

variable (cr) in
/-- Behind its first bytes a slice is as it was. -/
theorem drop_load_after {s : Slice UInt8} (hhas : t.memory.Has s) (hfrt : Scratch.AtFront s)
    (hk : k ≤ t.rest.length) :
    ((t.copied cr k).memory.load s).drop k = (t.memory.load s).drop k := by
  rw [copied]
  split
  · have hdrop := Scratch.drop_load_write hhas hfrt (t.rest.take k)
    rw [length_take, min_eq_left hk] at hdrop
    exact hdrop
  · rfl

theorem has_copied {s : Slice UInt8} (hhas : t.memory.Has s) (k : Nat) :
    (t.copied cr k).memory.Has s := by
  rw [copied]
  split
  · exact hhas.write _
  · exact hhas

variable (cr) in
theorem onTape_readScalar (k : Scalar) (hk : k.width ≤ t.rest.length) :
    onTape cr (SliceParser.readScalar k) t =
      (.ok (k.decode (t.rest.take k.width)), (t.copied cr k.width).forward k.width) := by
  have hpos : 0 < k.width := by cases k <;> exact Nat.succ_pos _
  have hload : ((t.copied cr k.width).forward k.width).memory.load (t.slice cr k.width) =
      t.rest.take k.width := load_slice_copied cr hk
  rw [SliceParser.readScalar, onTape_bind, onTape_readN hpos hk]
  rw [onTape_bind, onTape_load, hload]
  rfl

/-! ### Pieces one behind the other -/

variable (cr) in
theorem onTape_readN_any (hn : n ≤ t.rest.length) :
    onTape cr (SliceParser.readN n) t = (.ok (t.readSlice cr n), t.read cr n) := by
  rw [Tape.readSlice, Tape.read]
  rcases Nat.eq_zero_or_pos n with rfl | hpos
  · rfl
  · rw [if_neg (ne_of_gt hpos), if_neg (ne_of_gt hpos), onTape_readN hpos hn]

theorem read_rest (n : Nat) : (t.read cr n).rest = t.rest.drop n := by
  rw [Tape.read]
  split
  · next hzero => rw [hzero, drop_zero]
  · rfl

theorem read_pos (n : Nat) : (t.read cr n).pos = t.pos + n := by
  rw [Tape.read]
  split
  · next hzero => rw [hzero, add_zero]
  · rfl

variable (cr) in
theorem load_readSlice (hn : n ≤ t.rest.length) :
    (t.read cr n).memory.load (t.readSlice cr n) = t.rest.take n := by
  rw [Tape.read, Tape.readSlice]
  split
  · next hzero =>
    rw [hzero]
    rfl
  · exact load_slice_copied cr hn

/-- What a slice shows when more was written to the memory. -/
theorem load_readSlice_writes (hn : n ≤ t.rest.length) (ws : List (List UInt8)) :
    ((t.read cr n).memory.writes ws).load (t.readSlice cr n) = if n ≠ 0 ∧ cr t.pos n = true then
        Scratch.leftBy (t.read cr n).memory.cap ws (t.rest.take n)
      else t.rest.take n := by
  have hload := load_readSlice cr hn
  by_cases hcopied : n ≠ 0 ∧ cr t.pos n = true
  · have hview : t.readSlice cr n = (t.read cr n).memory.view n := by
      rw [Tape.readSlice, Tape.read, if_neg hcopied.1, if_neg hcopied.1, Tape.slice,
        if_pos hcopied.2]
      change _ = (t.copied cr n).memory.view n
      rw [copied, if_pos hcopied.2]
    rw [if_pos hcopied, ← hload, hview, Scratch.load_view_writes]
  have hfixed : t.readSlice cr n = .fixed (t.rest.take n) := by
    rw [Tape.readSlice]
    split
    · next hzero => rw [hzero, take_zero]
    · next hzero => rw [Tape.slice, if_neg (fun hcross => hcopied ⟨hzero, hcross⟩)]
  rw [if_neg hcopied, hfixed]
  rfl

theorem cap_read (hn : n ≤ t.rest.length) : (t.read cr n).memory.cap =
      if n ≠ 0 ∧ cr t.pos n = true then max t.memory.cap n else t.memory.cap := by
  rw [Tape.read]
  split
  · next hzero => rw [if_neg (fun h => h.1 hzero)]
  · next hzero =>
    change (t.copied cr n).memory.cap = _
    rw [cap_copied hn, grown]
    split
    · next hcross => rw [if_pos ⟨hzero, hcross⟩]
    · next hcross => rw [if_neg (fun h => hcross h.2)]

/-- The tape behind these pieces. -/
structure Passed (cr : Nat → Nat → Bool) (t : Tape) (pieces : List (List UInt8)) (t' : Tape) :
    Prop where
  rest : t.rest = pieces.flatten ++ t'.rest
  pos : t'.pos = t.pos + pieces.flatten.length
  memory : t'.memory = t.memory.writes (crossing cr t.pos pieces)

theorem Passed.nil (t : Tape) : Passed cr t [] t := ⟨rfl, rfl, rfl⟩

theorem crossing_append (pos : Nat) (ws ws' : List (List UInt8)) : crossing cr pos (ws ++ ws') =
      crossing cr pos ws ++ crossing cr (pos + ws.flatten.length) ws' := by
  induction ws generalizing pos with
  | nil => rfl
  | cons w ws ih =>
    rw [cons_append, crossing, crossing, ih, append_assoc, flatten_cons, length_append, add_assoc]

theorem Passed.trans {t'' : Tape} {ws ws' : List (List UInt8)} (h : Passed cr t ws t')
    (h' : Passed cr t' ws' t'') : Passed cr t (ws ++ ws') t'' where
  rest := by rw [h.rest, h'.rest, flatten_append, append_assoc]
  pos := by rw [h'.pos, h.pos, flatten_append, length_append, add_assoc]
  memory := by
    rw [h'.memory, h.memory, h.pos, crossing_append]
    exact (foldl_append ..).symm

variable (cr) in
theorem Passed.read (hn : n ≤ t.rest.length) : Passed cr t [t.rest.take n] (t.read cr n) where
  rest := by rw [read_rest, flatten_singleton, take_append_drop]
  pos := by rw [read_pos, flatten_singleton, length_take, min_eq_left hn]
  memory := by
    have hlen : (t.rest.take n).length = n := by rw [length_take, min_eq_left hn]
    have hnil : t.rest.take n = [] ↔ n = 0 := by rw [← length_eq_zero_iff, hlen]
    rw [Tape.read, crossing]
    split
    · next hzero =>
      rw [if_neg (fun h => h.1 (hnil.mpr hzero))]
      rfl
    · next hzero =>
      rw [copied]
      split
      · next hcross =>
        rw [if_pos ⟨fun h => hzero (hnil.mp h), by rw [hlen, hcross]⟩]
        rfl
      · next hcross =>
        rw [if_neg (fun h => hcross (by rw [← h.2, hlen]))]
        rfl

theorem onTape_scalar (k : Scalar) (hk : k.width ≤ t.rest.length) :
    onTape cr (SliceParser.readScalar k) t =
      (.ok (k.decode (t.rest.take k.width)), t.read cr k.width) := by
  have hpos : 0 < k.width := by cases k <;> exact Nat.succ_pos _
  rw [onTape_readScalar cr k hk, Tape.read, if_neg (ne_of_gt hpos)]

variable (cr) in
/-- A scalar that is not there. -/
theorem onTape_scalar_error (k : Scalar) (hk : t.rest.length < k.width) :
    ∃ e, onTape cr (SliceParser.readScalar k) t = (.error e, t) := by
  have hread : onTape cr (SliceParser.readN k.width) t =
      (.error (.requested .readN k.width t.rest.length), t) := by
    change Tape.answer cr (.readN k.width) t = _
    rw [Tape.answer, if_neg (by omega), if_pos (by omega)]
  rw [SliceParser.readScalar, onTape_bind, hread]
  exact ⟨_, rfl⟩

end

/-! ## Absolute offsets -/

/-- The copy loop ends before the chunks do. -/
theorem copyChunks_eq {cs : List (List UInt8)}
    (hoff : ∀ chunk, cs.head? = some chunk → off ≤ chunk.length)
    (hn : off + n ≤ cs.flatten.length) :
    copyChunks cs off n = some ((cs.flatten.drop off).take n) := by
  induction cs generalizing off n with
  | nil =>
    obtain rfl : n = 0 := by simp at hn; omega
    simp [copyChunks]
  | cons chunk rest ih =>
    have hchunk := hoff chunk rfl
    rw [flatten_cons, length_append] at hn
    cases n with
    | zero => simp [copyChunks]
    | succ n =>
      rw [copyChunks, sliceFrom, if_pos hchunk]
      simp only []
      rw [ih (fun _ _ => Nat.zero_le _) (by rw [length_drop]; omega), flatten_cons,
        drop_append_of_le_length hchunk, take_append]
      rfl

/-- What both paths find of a range in the buffer. -/
theorem range_found (lb : LargeBuffer) {absOff : Nat} (hn : 0 < n) (h : absOff + n ≤ lb.total) :
    ∃ j o chunk, lb.findChunk absOff = some (j, o) ∧ lb.chunks[j]? = some chunk ∧
      copyChunks (lb.chunks.drop j) o n = some ((lb.chunks.flatten.drop absOff).take n) ∧
      (o + n ≤ chunk.length →
        sliceOf chunk o (o + n) = some ((lb.chunks.flatten.drop absOff).take n)) := by
  obtain ⟨j, o, chunk, hfind, hj, ho, rfl⟩ := findChunk_in lb (show absOff < lb.total by omega)
  have hlen := congrArg length (drop_offsetOf lb.chunks j o)
  rw [length_drop, length_drop, ← lb.total_eq] at hlen
  rw [drop_offsetOf]
  refine ⟨j, o, chunk, hfind, hj, copyChunks_eq (fun c hc => ?_) (by omega), fun hfits => ?_⟩
  · rw [head?_drop, hj] at hc
    cases hc
    exact ho.le
  · rw [sliceOf, if_pos (by omega), flatten_drop_of_get? hj, drop_append_of_le_length ho.le,
      take_append_of_le_length (by rw [length_drop]; omega), Nat.add_sub_cancel_left]

/-- The bytes of a range, or that it is not in the buffer. -/
def slicedAt (s : List UInt8) (call : String) (absOff n : Int) : Except String (List UInt8) :=
  if 0 ≤ absOff ∧ 0 ≤ n ∧ absOff + n ≤ s.length then .ok ((s.drop absOff.toNat).take n.toNat)
  else .error (rangeText call absOff n s.length)

theorem unsafeViewAt_sliced (lb : LargeBuffer) (memory : Scratch UInt8) (absOff n : Int) :
    ∃ view memory', lb.unsafeViewAt absOff n memory = some (view, memory') ∧
      view.map memory'.load = slicedAt lb.chunks.flatten "UnsafeViewAt" absOff n := by
  have htotal := lb.total_eq
  rw [LargeBuffer.unsafeViewAt, slicedAt]
  by_cases hin : 0 ≤ absOff ∧ 0 ≤ n ∧ absOff + n ≤ lb.chunks.flatten.length
  · obtain ⟨o, rfl⟩ := Int.eq_ofNat_of_zero_le hin.1
    obtain ⟨m, rfl⟩ := Int.eq_ofNat_of_zero_le hin.2.1
    rw [if_neg (by omega)]
    split
    · next hz => exact ⟨_, _, rfl, by simp [hz, Except.map, Scratch.load]⟩
    obtain ⟨j, off, chunk, hfind, hj, hcopy, hslice⟩ :=
      range_found lb (show 0 < m by omega) (show o + m ≤ lb.total by omega)
    simp only [hfind, hj, Int.toNat_natCast]
    split
    · next hfits =>
      rw [hslice hfits]
      exact ⟨_, _, rfl, rfl⟩
    · rw [hcopy]
      exact ⟨_, _, rfl, congrArg _ (memory.load_view_write _)⟩
  · rw [if_neg hin, if_pos (by omega), ← htotal]
    exact ⟨_, _, rfl, rfl⟩

/-- The bytes at an absolute offset, in whatever chunks they lie. -/
theorem viewAt_eq (lb : LargeBuffer) (absOff n : Nat) : viewAt lb absOff n =
    if absOff + n ≤ lb.total then some ((lb.cloneBytes.drop absOff).take n) else none := by
  obtain ⟨view, memory, hview, hbytes⟩ := unsafeViewAt_sliced lb .none absOff n
  simp only [viewAt, hview, Option.bind_some, hbytes, slicedAt, lb.total_eq]
  split <;> split <;> first | rfl | omega

/-- The calls see the bytes of the buffer, whatever chunks they lie in and whatever
earlier calls left in the scratch slice. -/
theorem random_access_is_slicing (lb : LargeBuffer) (memory : Scratch UInt8) (absOff n : Int)
    (k : Nat) (c : UInt8) :
    (∃ view memory', lb.unsafeViewAt absOff n memory = some (view, memory') ∧
      view.map memory'.load = slicedAt lb.chunks.flatten "UnsafeViewAt" absOff n) ∧
    lb.copyAt absOff k = some (slicedAt lb.chunks.flatten "CopyAt" absOff k) ∧
    lb.indexByteAt absOff c = some (if 0 ≤ absOff ∧ absOff < lb.chunks.flatten.length then
      searchResult absOff.toNat ((lb.chunks.flatten.drop absOff.toNat).findIdx? (· == c))
      else -1) := by
  have htotal := lb.total_eq
  refine ⟨unsafeViewAt_sliced lb memory absOff n, ?_, ?_⟩
  · rw [LargeBuffer.copyAt, slicedAt]
    by_cases hin : 0 ≤ absOff ∧ (0 : Int) ≤ k ∧ absOff + k ≤ lb.chunks.flatten.length
    · obtain ⟨o, rfl⟩ := Int.eq_ofNat_of_zero_le hin.1
      rw [if_neg (by omega)]
      split
      · next hz => simp [hz]
      obtain ⟨j, off, chunk, hfind, -, hcopy, -⟩ :=
        range_found lb (show 0 < k by omega) (show o + k ≤ lb.total by omega)
      simp [hfind, hcopy]
    · rw [if_neg hin, if_pos (by omega), ← htotal]
  · split
    · next hin =>
      obtain ⟨o, rfl⟩ := Int.eq_ofNat_of_zero_le hin.1
      exact indexByteAt_eq lb o c
    · rw [LargeBuffer.indexByteAt, if_pos (by omega)]

end Obi.Refine
