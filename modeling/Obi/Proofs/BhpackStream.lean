import Obi.Proofs.BhpackDecoder

/-!
# What the decoder reports of a stream

A block may reach the decoder in any parts: what is not yet a whole
representation is kept for the next part. Over a whole stream, of which blocks
may be missing, every field that is reported is the one the encoder sent at that
place, or reported as not known, if the decoder is told of every gap before it
gets the next block.
-/

namespace Obi.Refine
open Lib Ref.Bhpack Spec.Hpack List Observed Decoder

/-! ## Blocks in parts -/

variable {parts : List (List UInt8)} {later saved : List UInt8}

section
variable {d : Decoder} {e : Encoder} {allowed updates : Nat} {block : List Coded}

/-- What the decoder keeps is a part of the next representation. -/
def Kept (saved : List UInt8) : List Coded → Prop
  | [] => saved = []
  | r :: _ => ProperPart saved r.wire

/-- The decoder within a block: it keeps `saved`, and `later` is still to come. -/
structure InBlock (allowed : Nat) (e : Encoder) (block : List Coded) (saved later : List UInt8)
    (d : Decoder) : Prop where
  beside : ∃ updates, Beside allowed updates e { d with saveBuf := [] } ∧
    Conforms allowed updates e block
  holds : d.saveBuf = saved
  kept : Kept saved block
  wire : saved ++ later = blockWire block

theorem blockWire_cons (r : Coded) (block : List Coded) :
    blockWire (r :: block) = r.wire ++ blockWire block := flatMap_cons

/-- The loop takes the representations that are there. -/
theorem writeLoop_inBlock (h : Beside allowed updates e d)
    (hconf : Conforms allowed updates e block) {buf : List UInt8}
    (hwire : buf ++ later = blockWire block) (rounds : Nat) (hrds : buf.length ≤ rounds) :
    ∃ d' out read rest saved, d.writeLoop rounds buf = (d', out, none) ∧ block = read ++ rest ∧
      List.Forall₂ Honest out (e.fields read) ∧
      InBlock allowed (e.after read) rest saved later d' := by
  induction block generalizing d e updates buf rounds with
  | nil =>
    obtain ⟨rfl, rfl⟩ := append_eq_nil_iff.mp hwire
    refine ⟨d, [], [], [], [], ?_, rfl, .nil, ⟨updates, ?_, hconf⟩, h.saved, rfl, rfl⟩
    · cases rounds with
      | zero | succ rounds => rfl
    · rwa [← h.saved]
  | cons r block ih =>
    obtain ⟨d1, out1, updates1, htakes, hbes, hconf1, hhon⟩ := representation_step h hconf
    rw [blockWire_cons] at hwire
    by_cases hwh : r.wire <+: buf
    · obtain ⟨buf', rfl⟩ := hwh
      have hpos := length_pos_iff.mpr htakes.ne_nil
      rw [length_append] at hrds
      obtain ⟨rounds, rfl⟩ : ∃ k, rounds = k + 1 := ⟨rounds - 1, by omega⟩
      rw [append_assoc] at hwire
      obtain ⟨d', out, read, rest, saved, hloop, rfl, hfs, hblk⟩ :=
        ih hbes hconf1 (append_cancel_left hwire) rounds (by omega)
      refine ⟨d', out1 ++ out, r :: read, rest, saved, ?_, rfl, ?_, hblk⟩
      · rw [htakes.whole, hloop]
      · exact rel_append hhon hfs
    · have hpart : ProperPart buf r.wire := by
        rcases append_eq_append_iff.mp hwire with ⟨t, ht, -⟩ | ⟨t, ht, -⟩
        · refine ⟨⟨t, ht.symm⟩, fun heq => hwh ?_⟩
          rw [heq]
        · exact absurd ⟨t, ht.symm⟩ hwh
      have hwire' : buf ++ later = blockWire (r :: block) := by rw [blockWire_cons, hwire]
      by_cases hnil : buf = []
      · subst hnil
        refine ⟨d, [], [], r :: block, [], ?_, rfl, .nil, ⟨updates, ?_, hconf⟩, h.saved, hpart,
          hwire'⟩
        · cases rounds with
          | zero | succ rounds => rfl
        · rwa [← h.saved]
      · have hpos := length_pos_iff.mpr hnil
        obtain ⟨rounds, rfl⟩ : ∃ k, rounds = k + 1 := ⟨rounds - 1, by omega⟩
        refine ⟨{ d with saveBuf := buf }, [], [], r :: block, buf,
          htakes.part rounds buf hnil hpart, rfl, .nil, ⟨updates, ?_, hconf⟩, rfl, hpart, hwire'⟩
        rwa [← h.saved]

/-- A part of the block is written. -/
theorem write_inBlock {p : List UInt8} (h : InBlock allowed e block saved (p ++ later) d) :
    ∃ d' out read rest saved', d.write p = (d', out, none) ∧ block = read ++ rest ∧
      List.Forall₂ Honest out (e.fields read) ∧
      InBlock allowed (e.after read) rest saved' later d' := by
  obtain ⟨updates, hbes, hconf⟩ := h.beside
  cases p with
  | nil => exact ⟨d, [], [], block, saved, rfl, rfl, .nil, h⟩
  | cons b p =>
    have hwire := h.wire
    rw [← append_assoc] at hwire
    rw [write, h.holds]
    exact writeLoop_inBlock hbes hconf hwire _ (le_rfl)

theorem fields_append (e : Encoder) (read rest : List Coded) :
    e.fields (read ++ rest) = e.fields read ++ (e.after read).fields rest := by
  induction read generalizing e with
  | nil => rfl
  | cons r read ih =>
    rw [cons_append, Encoder.fields, Encoder.fields, ih, append_assoc]
    rfl

theorem decodeParts_inBlock (h : InBlock allowed e block saved parts.flatten d) :
    ∃ d' out, decodeParts d parts = (d', out, none) ∧ List.Forall₂ Honest out (e.fields block) ∧
      InBlock allowed (e.after block) [] [] [] d' := by
  induction parts generalizing d e block saved with
  | nil =>
    -- nothing is left to come, so nothing is kept
    have hdone : block = [] := by
      have hwire := h.wire
      have hkept := h.kept
      cases block with
      | nil => rfl
      | cons r block =>
        rw [flatten_nil, append_nil, blockWire_cons] at hwire
        have hlen := congrArg length hwire
        have hlt := ProperPart.length_lt hkept
        rw [length_append] at hlen
        omega
    subst hdone
    have hnil : saved = [] := h.kept
    subst hnil
    exact ⟨d, [], rfl, .nil, h⟩
  | cons p parts ih =>
    obtain ⟨d1, out1, read, rest, saved', hwrite, rfl, hfs, hblk⟩ := write_inBlock h
    obtain ⟨d', out, hparts, hfs', hblk'⟩ := ih hblk
    refine ⟨d', out1 ++ out, ?_, ?_, ?_⟩
    · rw [decodeParts, hwrite]
      simp [hparts]
    · rw [fields_append]
      exact rel_append hfs hfs'
    · rw [Encoder.after, foldl_append]
      exact hblk'

theorem inBlock_start (h : Beside allowed updates e d) (hconf : Conforms allowed updates e block) :
    InBlock allowed e block [] (blockWire block) d := by
  refine ⟨⟨updates, ?_, hconf⟩, h.saved, ?_, rfl⟩
  · rwa [← h.saved]
  · cases block with
    | nil => rfl
    | cons r block =>
      obtain ⟨d1, out1, updates1, htakes, -⟩ := representation_step h hconf
      refine ⟨?_, htakes.ne_nil.symm⟩
      exact nil_prefix

theorem beside_close (h : InBlock allowed e block [] later d) : Beside allowed 2 e d.close.1 := by
  obtain ⟨updates, hbes, -⟩ := h.beside
  have hclose : d.close.1 =
      { d with firstField := true, tableSizeUpdates := 0, saveBuf := [] } := by
    rw [close, h.holds]
    rfl
  rw [hclose]
  exact ⟨hbes.unlimited, hbes.emits, rfl, hbes.allowed, fun _ => ⟨rfl, le_refl 2⟩, hbes.table⟩

/-- A whole block is decoded, whatever its parts are. -/
theorem decodeBlock_beside (h : Beside allowed 2 e d)
    (hconf : Conforms allowed 2 e block) (hparts : parts.flatten = blockWire block) :
    List.Forall₂ Honest (decodeBlock d parts).2 (e.fields block) ∧
      Beside allowed 2 (e.after block) (decodeBlock d parts).1 := by
  have hstart := inBlock_start h hconf
  rw [← hparts] at hstart
  obtain ⟨d', out, hdec, hfs, hblk⟩ := decodeParts_inBlock hstart
  rw [decodeBlock, hdec]
  exact ⟨hfs, beside_close hblk⟩

end

/-! ## Streams -/

section
variable {o : Observed} {allowed : Nat}

/-- Between two blocks: what the decoder is set to, that it was told of a gap if
that was said, and that it has the encoder's table if there is no gap. -/
structure InStep (allowed : Nat) (o : Observed) : Prop where
  ready : Beside allowed 2 o.encoder o.decoder.markUnreliable
  told : o.marked = true → o.decoder.failedToIndex = true
  table : o.gap = false → o.decoder.failedToIndex = true ∨ Mirrors o.decoder.dynTab o.encoder

theorem inStep_init (maxSize : UInt32) : InStep maxSize.toNat (init maxSize) :=
  ⟨⟨rfl, rfl, rfl, rfl, fun _ => ⟨rfl, Nat.le_refl 2⟩, .inl rfl⟩, fun h => Bool.noConfusion h,
    fun _ => .inr (mirrors_evict ⟨[], 0, maxSize, maxSize⟩ [] ⟨[], [], rfl, rfl⟩ rfl)⟩

theorem InStep.beside (h : InStep allowed o) (htold : o.gap = true → o.marked = true) :
    Beside allowed 2 o.encoder o.decoder := by
  refine ⟨h.ready.unlimited, h.ready.emits, h.ready.saved, h.ready.allowed, h.ready.updates, ?_⟩
  cases hgap : o.gap with
  | false => exact h.table hgap
  | true => exact .inl (h.told (htold hgap))

/-- The settings of a decoder do not depend on the encoder. -/
theorem inStep_step (event : StreamEvent) (h : InStep allowed o)
    (hevent : o.Admits allowed event) : InStep allowed (o.step event) := by
  cases event with
  | seen block parts =>
    obtain ⟨hconf, hparts, htold⟩ := hevent
    have hnext := (decodeBlock_beside (h.beside htold) hconf hparts).2
    refine ⟨?_, fun hmark => Bool.noConfusion hmark, fun _ => hnext.table⟩
    exact ⟨hnext.unlimited, hnext.emits, hnext.saved, hnext.allowed, hnext.updates, .inl rfl⟩
  | missed block =>
    exact ⟨{ h.ready with table := .inl rfl }, h.told, fun hgap => Bool.noConfusion hgap⟩
  | marked => exact ⟨h.ready, fun _ => rfl, fun _ => .inl rfl⟩

end

/-! ## A table that is not trusted -/

section
variable {ents : List HeaderField} {d : Decoder}

/-- The table is not trusted, and all it has is the newest of `ents`. -/
structure Frozen (ents : List HeaderField) (d : Decoder) : Prop where
  failed : d.failedToIndex = true
  table : d.dynTab.ents <:+ ents

theorem evictLoop_suffix (maxSize size : UInt32) (ents : List HeaderField) :
    (evictLoop maxSize size ents).2 <:+ ents := by
  induction ents generalizing size with
  | nil => exact suffix_rfl
  | cons f ents ih =>
    rw [evictLoop]
    split
    · exact (ih _).trans (suffix_cons f ents)
    · exact suffix_rfl

section
variable (h : Frozen ents d)
include h

theorem Frozen.setMaxSize (v : UInt32) : Frozen ents { d with dynTab := d.dynTab.setMaxSize v } :=
  ⟨h.failed, (evictLoop_suffix v d.dynTab.size d.dynTab.ents).trans h.table⟩

theorem frozen_indexed (buf : List UInt8) : Frozen ents (d.parseFieldIndexed buf).1 := by
  rw [parseFieldIndexed]
  split
  · exact h
  split
  · exact ⟨rfl, h.table⟩
  · exact h

theorem frozen_literalValue (it : IndexType)
    (name : List UInt8 ⊕ UndecodedString) (buf : List UInt8) :
    Frozen ents (d.parseLiteralValue it name buf).1 := by
  rw [parseLiteralValue]
  split
  · exact h
  split
  · exact h
  · rw [h.failed, Bool.not_true, Bool.and_false]
    exact h

theorem frozen_literal (n : Nat) (it : IndexType) (buf : List UInt8) :
    Frozen ents (d.parseFieldLiteral n it buf).1 := by
  rw [parseFieldLiteral]
  split
  · exact h
  split
  · split
    · have hnext : Frozen ents { d with failedToIndex := true } := ⟨rfl, h.table⟩
      exact frozen_literalValue hnext it _ _
    · exact frozen_literalValue h it _ _
  split
  · exact h
  · exact frozen_literalValue h it _ _

theorem frozen_sizeUpdate (buf : List UInt8) :
    Frozen ents (d.parseDynamicTableSizeUpdate buf).1 := by
  rw [parseDynamicTableSizeUpdate]
  split
  · exact h
  split
  · exact h
  split
  · exact h
  · exact ⟨h.failed, (h.setMaxSize _).table⟩

theorem frozen_repr (b : UInt8) (buf : List UInt8) :
    Frozen ents (d.parseHeaderFieldRepr b buf).1 := by
  rw [parseHeaderFieldRepr]
  split
  · exact frozen_indexed h buf
  split
  · exact frozen_literal h 6 _ buf
  split
  · exact frozen_literal h 4 _ buf
  split
  · exact frozen_literal h 4 _ buf
  split
  · exact frozen_sizeUpdate h buf
  · exact h

theorem frozen_writeLoop (rounds : Nat) (buf : List UInt8) :
    Frozen ents (d.writeLoop rounds buf).1 := by
  induction rounds generalizing d buf with
  | zero => exact h
  | succ rounds ih =>
    cases buf with
    | nil => exact h
    | cons b buf =>
      have hpars := frozen_repr h b (b :: buf)
      rw [writeLoop]
      split
      · next d1 heq =>
        rw [heq] at hpars
        split
        · exact hpars
        · exact ⟨hpars.failed, hpars.table⟩
      · next d1 e hne heq =>
        rw [heq] at hpars
        exact hpars
      · next d1 rest fields heq =>
        rw [heq] at hpars
        split
        · exact ih hpars rest
        · have hnext : Frozen ents { d1 with firstField := false } := ⟨hpars.failed, hpars.table⟩
          exact ih hnext rest

theorem frozen_close : Frozen ents d.close.1 := by
  rw [close]
  split
  · exact ⟨h.failed, h.table⟩
  · exact ⟨h.failed, h.table⟩

end

theorem frozen_call (call : DecoderCall) (h : Frozen ents d) : Frozen ents (call.on d) := by
  cases call with
  | write p =>
    rw [DecoderCall.on, write]
    split
    · exact h
    · have hnext : Frozen ents { d with saveBuf := [] } := ⟨h.failed, h.table⟩
      exact frozen_writeLoop hnext _ _
  | close => exact frozen_close h
  | markUnreliable => exact ⟨rfl, h.table⟩
  | setEmitEnabled v | setMaxStringLength n => exact ⟨h.failed, h.table⟩
  | setMaxDynamicTableSize v => exact h.setMaxSize v
  | setAllowedMaxDynamicTableSize v => exact ⟨h.failed, h.table⟩

theorem frozen_calls (calls : List DecoderCall) (h : Frozen ents d) :
    Frozen ents (calls.foldl DecoderCall.on d) := by
  induction calls generalizing d with
  | nil => exact h
  | cons call calls ih => exact ih (frozen_call call h)

end

/-- Whatever blocks of a stream are missing, if the decoder is told of every gap
before it gets the next block, each field it reports is the one that was encoded
there, or reported as not known; and a table that is not trusted stays so and
only loses entries, whatever is called. -/
theorem reported_fields_honest (maxSize : UInt32) (events : List StreamEvent)
    (h : Along step (Observed.Admits maxSize.toNat) (init maxSize) events) :
    (∀ before block parts after, events = before ++ .seen block parts :: after → List.Forall₂ Honest
        (decodeBlock (before.foldl step (init maxSize)).decoder parts).2
        ((before.foldl step (init maxSize)).encoder.fields block)) ∧
    ∀ (d : Decoder) (calls : List DecoderCall), d.failedToIndex = true →
      (calls.foldl DecoderCall.on d).failedToIndex = true ∧
        (calls.foldl DecoderCall.on d).dynTab.ents <:+ d.dynTab.ents := by
  constructor
  · rintro before block parts after rfl
    obtain ⟨hbef, ⟨hconf, hparts, htold⟩, -⟩ := along_append.mp h
    have hstep := hbef.inv (fun o event ho hevent => inStep_step event ho hevent)
      (inStep_init maxSize)
    exact (decodeBlock_beside (hstep.beside htold) hconf hparts).1
  · intro d calls hfail
    have hfrozen := frozen_calls calls (⟨hfail, suffix_rfl⟩)
    exact ⟨hfrozen.failed, hfrozen.table⟩

/-- The name is sent as it is, the value `a` Huffman coded; both are indexed. -/
def codedLiteral (name : UInt8) : Coded where
  repr := .literal .indexedTrue (.inr [name]) (bytesOf "a")
  wire := [64, 1, name, 129, 31]
  isWire := by
    refine ⟨[64], [1, name], [129, 31], .short (v := 0) (by decide), .inl ⟨[1], ?_, rfl⟩, .inr ?_,
      rfl⟩
    · exact .short (v := 1) (by decide)
    · exact ⟨[31], [129], ⟨3, by decide, by decide⟩, .short (v := 1) (by decide), rfl⟩

def codedNewest : Coded := ⟨.indexed 62, [190], .short (v := 62) (by decide)⟩

/-- The newest entry is not the one the decoder has. -/
def streamWithGap : List StreamEvent :=
  [.seen [codedLiteral 120] [[64, 1], [120, 129, 31]], .missed [codedLiteral 121], .marked]

theorem reported_fields_honest_gap : Along step (Observed.Admits 4096) (init 4096)
      (streamWithGap ++ [.seen [codedNewest] [[190]]]) ∧
    List.Forall₂ Honest (decodeBlock (streamWithGap.foldl step (init 4096)).decoder [[190]]).2
      [⟨[121], bytesOf "a"⟩] := by
  have hadmits : Along step (Observed.Admits 4096) (init 4096)
      (streamWithGap ++ [.seen [codedNewest] [[190]]]) := by
    exact ⟨⟨⟨rfl, trivial⟩, rfl, fun hgap => Bool.noConfusion hgap⟩, ⟨rfl, trivial⟩, trivial,
      ⟨⟨rfl, trivial⟩, rfl, fun _ => rfl⟩, trivial⟩
  exact ⟨hadmits, (reported_fields_honest 4096 _ hadmits).1 streamWithGap _ _ [] rfl⟩

end Obi.Refine
