import Obi.Lib.Run
import Obi.Proofs.BhpackParse

/-!
# The decoder beside the encoder

As long as no block is lost, the dynamic table of the decoder ends with the
table of the encoder: it may keep older entries, since the sizes it adds up wrap
around, but never evicts one that the encoder has. Every index the encoder uses
then names the same entry on both sides.

Once the table is known to be unreliable, no index of it is resolved and nothing
is added to it. What does not depend on it is still read as it was written.
-/

namespace Obi.Refine
open Lib Ref.Bhpack Spec.Hpack List Decoder UInt8

/-! ## Tables -/

variable {dt : DynamicTable}

section

def toEntry (hf : HeaderField) : Entry := ⟨hf.name, hf.value⟩

/-- The sizes, added up as the decoder does it, and as they are. -/
def sizesOf (ents : List HeaderField) : UInt32 := (ents.map HeaderField.size).sum

def roomOf (entries : List Entry) : Nat := (entries.map Entry.size).sum

theorem sizesOf_cons (f : HeaderField) (ents : List HeaderField) :
    sizesOf (f :: ents) = f.size + sizesOf ents := by
  rw [sizesOf, map_cons, sum_cons, sizesOf]

theorem roomOf_cons (x : Entry) (entries : List Entry) :
    roomOf (x :: entries) = x.size + roomOf entries := by
  rw [roomOf, map_cons, sum_cons, roomOf]

theorem toNat_sizesOf (ents : List HeaderField) :
    (sizesOf ents).toNat = roomOf (ents.map toEntry) % 2 ^ 32 := by
  induction ents with
  | nil => rfl
  | cons f ents ih =>
    rw [sizesOf_cons, UInt32.toNat_add, ih, HeaderField.size, UInt32.toNat_ofNat',
      map_cons, roomOf_cons, Nat.add_mod_mod, Nat.mod_add_mod]
    rfl

theorem keep_spec (room : Nat) (entries : List Entry) :
    keep room entries <+: entries ∧ roomOf (keep room entries) ≤ room := by
  induction entries generalizing room with
  | nil => exact ⟨prefix_refl _, Nat.zero_le _⟩
  | cons x entries ih =>
    rw [keep]
    split
    · next hx =>
      obtain ⟨hpre, hroom⟩ := ih (room - x.size)
      refine ⟨cons_prefix_cons.mpr ⟨rfl, hpre⟩, ?_⟩
      rw [roomOf_cons]
      omega
    · refine ⟨?_, Nat.zero_le _⟩
      exact nil_prefix

/-- Entries that fit are not evicted. -/
theorem evictLoop_keeps {maxSize : UInt32} {kept : List HeaderField}
    (hfit : roomOf (kept.map toEntry) ≤ maxSize.toNat) (older : List HeaderField) :
    ∃ older', (evictLoop maxSize (sizesOf (older ++ kept)) (older ++ kept)).2 = older' ++ kept ∧
      (evictLoop maxSize (sizesOf (older ++ kept)) (older ++ kept)).1 =
        sizesOf (evictLoop maxSize (sizesOf (older ++ kept)) (older ++ kept)).2 := by
  induction older with
  | nil =>
    refine ⟨[], ?_⟩
    rw [nil_append]
    cases kept with
    | nil => exact ⟨rfl, rfl⟩
    | cons f kept =>
      have hstop : ¬ sizesOf (f :: kept) > maxSize := by
        rw [gt_iff_lt, UInt32.lt_iff_toNat_lt, toNat_sizesOf, not_lt]
        exact le_trans (Nat.mod_le _ _) hfit
      rw [evictLoop, if_neg hstop]
      exact ⟨rfl, rfl⟩
  | cons f older ih =>
    rw [cons_append, evictLoop]
    split
    · have hnext : sizesOf (f :: (older ++ kept)) - f.size = sizesOf (older ++ kept) := by
        rw [sizesOf_cons, UInt32.add_comm, UInt32.add_sub_cancel]
      rw [hnext]
      exact ih
    · exact ⟨f :: older, rfl, rfl⟩

/-- The newest entries of the decoder are those of the encoder. -/
structure Mirrors (dt : DynamicTable) (e : Encoder) : Prop where
  entries : ∃ older kept, dt.ents = older ++ kept ∧ kept.map toEntry = e.entries.reverse
  size : dt.size = sizesOf dt.ents
  maxSize : dt.maxSize.toNat = e.maxSize

theorem mirrors_evict (dt : DynamicTable) (entries : List Entry)
    (hents : ∃ older kept, dt.ents = older ++ kept ∧ kept.map toEntry = entries.reverse)
    (hsize : dt.size = sizesOf dt.ents) :
    Mirrors dt.evict ⟨keep dt.maxSize.toNat entries, dt.maxSize.toNat⟩ := by
  obtain ⟨older, kept, hspl, hkept⟩ := hents
  obtain ⟨⟨gone, hgone⟩, hroom⟩ := keep_spec dt.maxSize.toNat entries
  have hreverse : kept.map toEntry = gone.reverse ++ (keep dt.maxSize.toNat entries).reverse := by
    rw [hkept, ← reverse_append, hgone]
  obtain ⟨gone', kept', rfl, -, hkept'⟩ := map_eq_append_iff.mp hreverse
  have hfit : roomOf (kept'.map toEntry) ≤ dt.maxSize.toNat := by
    rw [hkept', roomOf, map_reverse, sum_reverse]
    exact hroom
  rw [← append_assoc] at hspl
  obtain ⟨older', hevict, hsum⟩ := evictLoop_keeps hfit (older ++ gone')
  rw [← hspl, ← hsize] at hevict hsum
  exact ⟨⟨older', kept', hevict, hkept'⟩, hsum, rfl⟩

theorem Mirrors.add {e : Encoder} (h : Mirrors dt e) (f : HeaderField) :
    Mirrors (dt.add f) (e.insert (toEntry f)) := by
  obtain ⟨older, kept, hspl, hkept⟩ := h.entries
  have hents : dt.ents ++ [f] = older ++ (kept ++ [f]) := by rw [hspl, append_assoc]
  have hnew : (kept ++ [f]).map toEntry = (toEntry f :: e.entries).reverse := by
    rw [map_append, hkept, reverse_cons]
    rfl
  have hsum : dt.size + f.size = sizesOf (dt.ents ++ [f]) := by
    rw [h.size, sizesOf, sizesOf, map_append, sum_append]
    simp
  rw [Encoder.insert, ← h.maxSize]
  exact mirrors_evict { dt with ents := dt.ents ++ [f], size := dt.size + f.size }
    (toEntry f :: e.entries) ⟨older, kept ++ [f], hents, hnew⟩ hsum

theorem Mirrors.resize {e : Encoder} (h : Mirrors dt e) (v : UInt32) :
    Mirrors (dt.setMaxSize v) (e.resize v.toNat) :=
  mirrors_evict { dt with maxSize := v } e.entries h.entries h.size

end

/-! ## Entries -/

section
variable {d : Decoder} {e : Encoder} {allowed updates i : Nat} {x : Entry}

/-- The decoder, as long as it can follow the encoder: `updates` more changes of
the size may come. -/
structure Beside (allowed updates : Nat) (e : Encoder) (d : Decoder) : Prop where
  unlimited : d.maxStrLen = 0
  emits : d.emitEnabled = true
  saved : d.saveBuf = []
  allowed : d.dynTab.allowedMaxSize.toNat = allowed
  updates : 0 < updates → d.firstField = true ∧ d.tableSizeUpdates + updates ≤ 2
  table : d.failedToIndex = true ∨ Mirrors d.dynTab e

/-- The field is as it was encoded, or reported as one that is not known. -/
def Honest (hf : HeaderField) (x : Entry) : Prop :=
  (hf.name = x.name ∧ hf.value = x.value) ∨ hf.name = badIndex

theorem atIndex_static (hi : i ≤ staticTable.length) (hx : e.entry i = some x) :
    ∃ hf, d.atIndex i = some hf ∧ toEntry hf = x := by
  by_cases hzero : i = 0
  · rw [Encoder.entry, if_pos hzero] at hx
    cases hx
  rw [Encoder.entry, if_neg hzero, if_pos hi] at hx
  obtain ⟨hf, hget, rfl⟩ := Option.map_eq_some_iff.mp hx
  refine ⟨hf, ?_, rfl⟩
  rw [atIndex, if_neg hzero, if_pos hi, hget]

theorem atIndex_dynamic (hm : Mirrors d.dynTab e) (hi : ¬ i ≤ staticTable.length)
    (hx : e.entry i = some x) : ∃ hf, d.atIndex i = some hf ∧ toEntry hf = x := by
  have hzero : i ≠ 0 := fun h => hi (h ▸ Nat.zero_le _)
  rw [Encoder.entry, if_neg hzero, if_neg hi] at hx
  obtain ⟨older, kept, hspl, hkept⟩ := hm.entries
  obtain ⟨hk, -⟩ := List.getElem?_eq_some_iff.mp hx
  have hlen : kept.length = e.entries.length := by
    have hlength := congrArg length hkept
    rwa [length_map, length_reverse] at hlength
  have htotal : d.dynTab.ents.length = older.length + e.entries.length := by
    rw [hspl, length_append, hlen]
  -- counted from the oldest entry the index lies among the newest ones
  have hindex : d.dynTab.ents.length - (i - staticTable.length) =
      older.length + (e.entries.length - 1 - (i - staticTable.length - 1)) := by omega
  have hget : (d.dynTab.ents[d.dynTab.ents.length - (i - staticTable.length)]?).map toEntry =
      some x := by
    rw [hindex, hspl, getElem?_append_right (Nat.le_add_right _ _), Nat.add_sub_cancel_left,
      ← getElem?_map, hkept, getElem?_reverse (by omega)]
    rw [← hx]
    congr 1
    omega
  obtain ⟨hf, hsome, htoEntry⟩ := Option.map_eq_some_iff.mp hget
  refine ⟨hf, ?_, htoEntry⟩
  have hmax : ¬ i > d.maxTableIndex := by
    rw [maxTableIndex, htotal]
    omega
  rw [atIndex, if_neg hzero, if_neg hi, if_neg hmax, hsome]

/-- An index is resolved to the entry it names, or known not to be. -/
theorem resolve_cases (h : Beside allowed updates e d) (hx : e.entry i = some x) :
    (∃ hf, d.resolve i = some hf ∧ toEntry hf = x) ∨
      (d.resolve i = none ∧ d.failedToIndex = true) := by
  rw [resolve, dynTableUnreliable]
  by_cases hi : i ≤ staticTable.length
  · rw [decide_eq_false (not_lt.mpr hi), Bool.and_false, if_neg Bool.false_ne_true]
    exact .inl (atIndex_static hi hx)
  rw [decide_eq_true (not_le.mp hi), Bool.and_true]
  cases hfail : d.failedToIndex with
  | true => exact .inr ⟨rfl, rfl⟩
  | false =>
    refine .inl (atIndex_dynamic (h.table.resolve_left ?_) hi hx)
    rw [hfail]
    exact Bool.false_ne_true

theorem setFailed_of_failed (h : d.failedToIndex = true) :
    { d with failedToIndex := true } = d := by
  rw [← h]

end

/-! ## Representations -/

variable {value : List UInt8} {k : Nat}
  {d d' : Decoder} {e : Encoder} {allowed updates n flags : Nat} {w : List UInt8}
  {out : List HeaderField} {f : List UInt8 → Decoder × Parsed}

/-- The parser takes the bytes, and asks for more without a trace if it has not
got them all. -/
structure Yields (f : List UInt8 → Decoder × Parsed) (d : Decoder) (w : List UInt8) (d' : Decoder)
    (out : List HeaderField) : Prop where
  whole : ∀ t, f (w ++ t) = (d', .ok (t, out))
  part : ∀ c, ProperPart c w → f c = (d, .error .needMore)

section
variable (h : Beside allowed updates e d)
include h

theorem callEmit_eq (hf : HeaderField) (buf : List UInt8) :
    d.callEmit hf buf = .ok (buf, [hf]) := by
  rw [callEmit, if_neg fun hlimit => hlimit.1 h.unlimited, h.emits, if_pos rfl]

theorem yields_indexed {i : Nat} {x : Entry} (hx : e.entry i = some x) (hw : IsInt 7 128 i w) :
    ∃ hf, Yields d.parseFieldIndexed d w d [hf] ∧ Honest hf x := by
  have hint := parses_varInt ⟨by decide, rfl, by decide⟩ hw
  have hpart : ∀ c, ProperPart c w → d.parseFieldIndexed c = (d, .error .needMore) := by
    intro c hc
    rw [parseFieldIndexed, hint.part c hc]
  rcases resolve_cases h hx with ⟨hf, hsome, rfl⟩ | ⟨hnone, hfail⟩
  · refine ⟨⟨hf.name, hf.value, false⟩, ⟨fun t => ?_, hpart⟩, .inl ⟨rfl, rfl⟩⟩
    rw [parseFieldIndexed, hint.whole]
    simp only [hsome]
    rw [callEmit_eq h]
  refine ⟨⟨badIndex, [], false⟩, ⟨fun t => ?_, hpart⟩, .inr rfl⟩
  rw [parseFieldIndexed, hint.whole]
  simp only [hnone]
  rw [setFailed_of_failed hfail, callEmit_eq h]

/-- The decoder after a literal with this field. -/
def stored (d : Decoder) (it : IndexType) (hf : HeaderField) : Decoder :=
  if it.indexed && !d.failedToIndex then { d with dynTab := d.dynTab.add hf } else d

/-- A name of a literal that is known or can be decoded. -/
def Named (d : Decoder) (name : List UInt8 ⊕ UndecodedString) (bytes : List UInt8) : Prop :=
  match name with
  | .inl known => known = bytes
  | .inr u => d.decodeString u = .ok bytes

theorem yields_literalValue (it : IndexType)
    {name : List UInt8 ⊕ UndecodedString} {bytes : List UInt8} (hname : Named d name bytes)
    (hw : IsString value w) :
    Yields (d.parseLiteralValue it name) d w (stored d it ⟨bytes, value, false⟩)
      [⟨bytes, value, it.sensitive⟩] := by
  obtain ⟨u, hpars, hdecode⟩ := parses_string h.unlimited hw
  have hfield : d.literalField it name u = .ok ⟨bytes, value, false⟩ := by
    rw [literalField.eq_def, h.emits, Bool.true_or, if_pos rfl, hdecode]
    cases name with
    | inl known =>
      obtain rfl : known = bytes := hname
      rfl
    | inr u' =>
      have hdec : d.decodeString u' = .ok bytes := hname
      simp only [hdec]
      rfl
  refine ⟨fun t => ?_, fun c hc => ?_⟩
  · rw [parseLiteralValue, hpars.whole]
    simp [hfield, callEmit_eq h, stored]
  · rw [parseLiteralValue, hpars.part c hc]

end

theorem flagsOf_literal (it : IndexType) : FlagsOf (nameBits it) (literalFlags it) := by
  cases it with
  | indexedTrue | indexedFalse | indexedNever => exact ⟨by decide, rfl, by decide⟩

/-- A literal is parsed: the field it carries is right if the table is. -/
theorem yields_literal (h : Beside allowed updates e d) {it : IndexType}
    {name : Nat ⊕ List UInt8} {x : Entry}
    (hx : e.field (.literal it name value) = some x) (hw : IsWire (.literal it name value) w) :
    ∃ hf : HeaderField, Yields (d.parseFieldLiteral (nameBits it) it) d w (stored d it hf)
        [{ hf with sensitive := it.sensitive }] ∧
      Honest hf x ∧ (d.failedToIndex = false → toEntry hf = x) := by
  cases name with
  | inl i =>
    obtain ⟨a, b, hint, hvalue, rfl⟩ := hw
    have hpars := parses_varInt (flagsOf_literal it) hint
    obtain ⟨y, hy, rfl⟩ := Option.map_eq_some_iff.mp hx
    have hpos : i > 0 := by
      refine pos_of_ne_zero ?_
      rintro rfl
      cases hy
    -- the name the decoder goes on with
    have hyld : ∀ known, (∀ buf, d.parseFieldLiteral (nameBits it) it (a ++ buf) =
        d.parseLiteralValue it (.inl known) buf) →
        Yields (d.parseFieldLiteral (nameBits it) it) d (a ++ b)
          (stored d it ⟨known, value, false⟩) [⟨known, value, it.sensitive⟩] := by
      intro known hkn
      have hrest := yields_literalValue h it (show Named d (.inl known) known from rfl) hvalue
      refine ⟨fun t => ?_, fun c hc => ?_⟩
      · rw [append_assoc, hkn]
        exact hrest.whole t
      rcases hc.append with hpart | ⟨c', rfl, hpart⟩
      · rw [parseFieldLiteral, hpars.part c hpart]
      · rw [hkn]
        exact hrest.part c' hpart
    rcases resolve_cases h hy with ⟨ihf, hsome, rfl⟩ | ⟨hnone, hfail⟩
    · refine ⟨⟨ihf.name, value, false⟩, hyld ihf.name fun buf => ?_, .inl ⟨rfl, rfl⟩, fun _ => rfl⟩
      rw [parseFieldLiteral, hpars.whole]
      simp [if_pos hpos, hsome]
    refine ⟨⟨badIndex, value, false⟩, hyld badIndex fun buf => ?_, .inr rfl, fun hok => ?_⟩
    · rw [parseFieldLiteral, hpars.whole]
      simp only [if_pos hpos, hnone]
      rw [setFailed_of_failed hfail]
    · rw [hfail] at hok
      cases hok
  | inr bytes =>
    obtain ⟨a, b, c, hint, hname, hvalue, rfl⟩ := hw
    have hpars := parses_varInt (flagsOf_literal it) hint
    obtain ⟨u, hu, hdecode⟩ := parses_string h.unlimited hname
    have hrest := yields_literalValue h it (show Named d (.inr u) bytes from hdecode) hvalue
    have hx' : x = ⟨bytes, value⟩ := (Option.some.inj hx).symm
    subst hx'
    -- once the name is read the value decides
    have hread : ∀ t, d.parseFieldLiteral (nameBits it) it (a ++ (b ++ t)) =
        d.parseLiteralValue it (.inr u) t := by
      intro t
      rw [parseFieldLiteral, hpars.whole]
      simp [hu.whole]
    refine ⟨⟨bytes, value, false⟩, ⟨fun t => ?_, fun part hpart => ?_⟩, .inl ⟨rfl, rfl⟩,
      fun _ => rfl⟩
    · rw [append_assoc, append_assoc, hread]
      exact hrest.whole t
    rcases hpart.append with hint' | ⟨c', rfl, hpart'⟩
    · rw [parseFieldLiteral, hpars.part part hint']
    rcases hpart'.append with hname' | ⟨c'', rfl, hvalue'⟩
    · rw [parseFieldLiteral, hpars.whole]
      simp [hu.part c' hname']
    · rw [hread]
      exact hrest.part c'' hvalue'

theorem yields_sizeUpdate (h : Beside allowed updates e d) (hupd : 0 < updates) {v : Nat}
    (hv : v ≤ allowed) (hw : IsInt 5 32 v w) :
    Yields d.parseDynamicTableSizeUpdate d w { d with
          dynTab := d.dynTab.setMaxSize (UInt32.ofNat v)
          tableSizeUpdates := d.tableSizeUpdates + 1 } [] := by
  have hint := parses_varInt ⟨by decide, rfl, by decide⟩ hw
  obtain ⟨hfst, hcnt⟩ := h.updates hupd
  have hallow : ¬ (!d.firstField || decide (d.tableSizeUpdates ≥ 2)) = true := by
    rw [hfst, decide_eq_false (by omega)]
    exact Bool.false_ne_true
  have hfits : ¬ v > d.dynTab.allowedMaxSize.toNat := by
    rw [h.allowed]
    omega
  refine ⟨fun t => ?_, fun c hc => ?_⟩
  · rw [parseDynamicTableSizeUpdate, if_neg hallow, hint.whole]
    simp [if_neg hfits]
  · rw [parseDynamicTableSizeUpdate, if_neg hallow, hint.part c hc]

/-! ### Rounds of `Write` -/

/-- A round of the loop takes the bytes, or keeps them for later. -/
structure Takes (d : Decoder) (w : List UInt8) (d' : Decoder) (out : List HeaderField) : Prop where
  ne_nil : w ≠ []
  whole : ∀ rounds t, d.writeLoop (rounds + 1) (w ++ t) =
    ((d'.writeLoop rounds t).1, out ++ (d'.writeLoop rounds t).2.1, (d'.writeLoop rounds t).2.2)
  part : ∀ rounds c, c ≠ [] → ProperPart c w →
    d.writeLoop (rounds + 1) c = ({ d with saveBuf := c }, [], none)

/-- The decoder after a round, by its first byte. -/
def afterRound (b : UInt8) (d : Decoder) : Decoder :=
  if b &&& 224 = 32 then d else { d with firstField := false }

theorem takes_of_yields (hmax : d.maxStrLen = 0) (hint : ∃ k w', k < 2 ^ n ∧
      w = ofNat (flags + k) :: w')
    (hdisp : ∀ k < 2 ^ n, ∀ buf, d.parseHeaderFieldRepr (ofNat (flags + k)) buf = f buf)
    (h : Yields f d w d' out) :
    ∃ k < 2 ^ n, Takes d w (afterRound (ofNat (flags + k)) d') out := by
  obtain ⟨k, w', hk, rfl⟩ := hint
  refine ⟨k, hk, cons_ne_nil _ _, fun rounds t => ?_, fun rounds c hne hc => ?_⟩
  · have hwh := h.whole t
    rw [cons_append] at hwh ⊢
    rw [writeLoop, hdisp k hk, hwh]
    rfl
  · have hpart := h.part c hc
    rcases hc.head with rfl | ⟨c', rfl, -⟩
    · exact absurd rfl hne
    rw [writeLoop, hdisp k hk, hpart]
    simp only []
    rw [if_neg fun hlimit => hlimit.1 hmax]

theorem dispatch_indexed (hk : k < 2 ^ 7) (buf : List UInt8) :
    d.parseHeaderFieldRepr (ofNat (128 + k)) buf = d.parseFieldIndexed buf := by
  have h : ∀ k : Fin 128, ofNat (128 + k) &&& 128 ≠ 0 := by decide +kernel
  rw [parseHeaderFieldRepr, if_pos (h ⟨k, hk⟩)]

theorem dispatch_literal (it : IndexType) (hk : k < 2 ^ nameBits it) (buf : List UInt8) :
    d.parseHeaderFieldRepr (ofNat (literalFlags it + k)) buf =
      d.parseFieldLiteral (nameBits it) it buf := by
  cases it with
  | indexedTrue =>
    have h : ∀ k : Fin 64, ofNat (64 + k) &&& 128 = 0 ∧
        ofNat (64 + k) &&& 192 = 64 := by decide +kernel
    obtain ⟨h₁, h2⟩ := h ⟨k, hk⟩
    rw [parseHeaderFieldRepr, literalFlags, if_neg (not_not.mpr h₁), if_pos h2]
    rfl
  | indexedFalse =>
    have h : ∀ k : Fin 16, ofNat (0 + k) &&& 128 = 0 ∧
        ¬ ofNat (0 + k) &&& 192 = 64 ∧ ofNat (0 + k) &&& 240 = 0 := by decide +kernel
    obtain ⟨h₁, h2, h3⟩ := h ⟨k, hk⟩
    rw [parseHeaderFieldRepr, literalFlags, if_neg (not_not.mpr h₁), if_neg h2, if_pos h3]
    rfl
  | indexedNever =>
    have h : ∀ k : Fin 16, ofNat (16 + k) &&& 128 = 0 ∧
        ¬ ofNat (16 + k) &&& 192 = 64 ∧ ¬ ofNat (16 + k) &&& 240 = 0 ∧
        ofNat (16 + k) &&& 240 = 16 := by decide +kernel
    obtain ⟨h₁, h2, h3, h4⟩ := h ⟨k, hk⟩
    rw [parseHeaderFieldRepr, literalFlags, if_neg (not_not.mpr h₁), if_neg h2, if_neg h3,
      if_pos h4]
    rfl

theorem dispatch_sizeUpdate (hk : k < 2 ^ 5) (buf : List UInt8) :
    d.parseHeaderFieldRepr (ofNat (32 + k)) buf = d.parseDynamicTableSizeUpdate buf ∧
      ofNat (32 + k) &&& 224 = 32 := by
  have h : ∀ k : Fin 32, ofNat (32 + k) &&& 128 = 0 ∧ ¬ ofNat (32 + k) &&& 192 = 64 ∧
      ¬ ofNat (32 + k) &&& 240 = 0 ∧ ¬ ofNat (32 + k) &&& 240 = 16 ∧
      ofNat (32 + k) &&& 224 = 32 := by decide +kernel
  obtain ⟨h₁, h2, h3, h4, h5⟩ := h ⟨k, hk⟩
  refine ⟨?_, h5⟩
  rw [parseHeaderFieldRepr, if_neg (not_not.mpr h₁), if_neg h2, if_neg h3, if_neg h4, if_pos h5]

/-- Behind a field no change of the size may come. -/
theorem Beside.field (h : Beside allowed updates e d) (b : UInt8) {e' : Encoder}
    (hallow : dt.allowedMaxSize = d.dynTab.allowedMaxSize)
    (htab : d.failedToIndex = true ∨ Mirrors dt e') :
    Beside allowed 0 e' (afterRound b { d with dynTab := dt }) := by
  have hbes : Beside allowed 0 e' { d with dynTab := dt } :=
    ⟨h.unlimited, h.emits, h.saved, hallow ▸ h.allowed, fun hzero => absurd hzero (by decide), htab⟩
  rw [afterRound]
  split
  · exact hbes
  · exact ⟨hbes.unlimited, hbes.emits, hbes.saved, hbes.allowed,
      fun hzero => absurd hzero (by decide), hbes.table⟩

/-- One representation of a block that conforms. -/
theorem representation_step (h : Beside allowed updates e d) {r : Coded} {block : List Coded}
    (hconf : Conforms allowed updates e (r :: block)) :
    ∃ d' out updates', Takes d r.wire d' out ∧ Beside allowed updates' (e.next r.repr) d' ∧
      Conforms allowed updates' (e.next r.repr) block ∧
      List.Forall₂ Honest out (e.field r.repr).toList := by
  obtain ⟨repr, w, hw⟩ := r
  cases repr with
  | indexed i =>
    obtain ⟨hsome, hrest⟩ := hconf
    obtain ⟨x, hx⟩ := Option.isSome_iff_exists.mp hsome
    obtain ⟨hf, hyld, hhon⟩ := yields_indexed h hx hw
    obtain ⟨k, -, htakes⟩ := takes_of_yields h.unlimited (isInt_head hw)
      (fun k hk buf => dispatch_indexed hk buf) hyld
    refine ⟨_, [hf], 0, htakes, h.field _ rfl h.table, hrest, ?_⟩
    rw [hx]
    exact .cons hhon .nil
  | literal it name value =>
    obtain ⟨hsome, hrest⟩ := hconf
    obtain ⟨x, hx⟩ := Option.isSome_iff_exists.mp hsome
    obtain ⟨hf, hyld, hhon, hright⟩ := yields_literal h hx hw
    have hhead : ∃ k w', k < 2 ^ nameBits it ∧ w = ofNat (literalFlags it + k) :: w' := by
      cases name with
      | inl i =>
        obtain ⟨a, b, hint, -, rfl⟩ := hw
        obtain ⟨k, a', hk, rfl⟩ := isInt_head hint
        exact ⟨k, a' ++ b, hk, rfl⟩
      | inr bytes =>
        obtain ⟨a, b, c, hint, -, -, rfl⟩ := hw
        obtain ⟨k, a', hk, rfl⟩ := isInt_head hint
        exact ⟨k, a' ++ (b ++ c), hk, rfl⟩
    obtain ⟨k, -, htakes⟩ := takes_of_yields h.unlimited hhead
      (fun k hk buf => dispatch_literal it hk buf) hyld
    refine ⟨_, _, 0, htakes, ?_, hrest, ?_⟩
    · by_cases hfail : d.failedToIndex = true
      · simp only [stored, hfail, Bool.not_true, Bool.and_false, Bool.false_eq_true, if_false]
        exact h.field _ rfl (.inl hfail)
      rw [Bool.not_eq_true] at hfail
      have hmirs : Mirrors d.dynTab e := by
        refine h.table.resolve_left ?_
        rw [hfail]
        exact Bool.false_ne_true
      have hadd := hmirs.add hf
      rw [hright hfail] at hadd
      cases it with
      | indexedTrue =>
        rw [stored, if_pos (by rw [hfail]; rfl)]
        refine h.field _ rfl (.inr ?_)
        rw [Encoder.next, hx]
        exact hadd
      | indexedFalse | indexedNever => exact h.field _ rfl (.inr hmirs)
    · rw [hx]
      exact .cons hhon .nil
  | sizeUpdate v =>
    obtain ⟨hupd, hv, hrest⟩ := hconf
    obtain ⟨k, hk, htakes⟩ := takes_of_yields h.unlimited (isInt_head hw)
      (fun k hk buf => (dispatch_sizeUpdate hk buf).1) (yields_sizeUpdate h hupd hv hw)
    rw [afterRound, if_pos (dispatch_sizeUpdate (d := d) hk []).2] at htakes
    refine ⟨_, [], updates - 1, htakes, ?_, hrest, .nil⟩
    have hlt : v < 2 ^ 32 := by
      have hallow := d.dynTab.allowedMaxSize.toNat_lt
      rw [h.allowed] at hallow
      exact lt_of_le_of_lt hv hallow
    refine ⟨h.unlimited, h.emits, h.saved, h.allowed, fun hmore => ?_, h.table.imp_right ?_⟩
    · obtain ⟨hfst, hcnt⟩ := h.updates hupd
      refine ⟨hfst, ?_⟩
      change d.tableSizeUpdates + 1 + (updates - 1) ≤ 2
      omega
    · intro hmirs
      have hresize := hmirs.resize (UInt32.ofNat v)
      rwa [UInt32.toNat_ofNat', Nat.mod_eq_of_lt hlt] at hresize

end Obi.Refine
