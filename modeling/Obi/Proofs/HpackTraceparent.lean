import Obi.Lib.Splice
import Obi.Ref.HpackTraceparent

/-!
# What the injector writes, the tracer reads back

Two facts about `parse_hpack_traceparent`. It never reads past the block: the
scan stops where the smallest field no longer fits, and each of the larger
shapes checks its own length before it looks at its bytes. And it inverts
`make_h2_tp_hpack`: the first field in the block that has the name is the one
whose value it decodes.
-/

namespace Obi.Refine
open Lib Ref List Block Option

/-! ## No load faults -/

variable {b : Block} {i : Nat} {shape : TpShape} {tp : TpInfo} {bytes : List UInt8}

theorem load_of_lt (h : i < b.dataLen) : b.load i = some (b.data i) := if_pos h

theorem loadRange_of_le {n : Nat} (h : i + n ≤ b.dataLen) :
    b.loadRange i n = some ((List.range n).map fun j => b.data (i + j)) :=
  if_pos h

/-- What a value that lies inside the block parses to. -/
theorem tryTpValue_of_le {val : Nat} (tp : TpInfo) (h : val + kHpackValueLenTp ≤ b.dataLen) :
    tryParseTpValue b val tp =
      if b.data (val + 2) ≠ 0x2d ∨ b.data (val + 35) ≠ 0x2d ∨ b.data (val + 52) ≠ 0x2d then
        some (false, tp)
      else
        some (true, { tp with
          traceId := decodeHex 16 ((List.range 32).map fun j => b.data (val + 3 + j))
          parentId := decodeHex 8 ((List.range 16).map fun j => b.data (val + 36 + j))
          flags := (decodeHex 1 ((List.range 2).map fun j =>
            b.data (val + 53 + j))).val.getD 0 0 }) := by
  simp only [kHpackValueLenTp] at h
  unfold tryParseTpValue
  simp only [kTpValDash1, kTpValDash2, kTpValDash3, kTpValTraceIdStart, kTpValSpanIdStart,
    kTpValFlagsStart]
  rw [load_of_lt (by omega), load_of_lt (by omega), load_of_lt (by omega),
    loadRange_of_le (by omega), loadRange_of_le (by omega), loadRange_of_le (by omega)]
  rfl

/-- The two shapes are laid out one after the other: form and length byte, name,
value length byte, value. -/
structure TpShape.LaidOut (shape : TpShape) : Prop where
  valOffset : shape.valOffset = kHpackTpNameOffset + shape.nameLen + 1
  size : shape.size = shape.valOffset + kHpackValueLenTp

theorem plainShape_laidOut : TpShape.LaidOut plainShape := ⟨rfl, rfl⟩

theorem huffmanShape_laidOut : TpShape.LaidOut huffmanShape := ⟨rfl, rfl⟩

theorem parseShape_isSome
    (hs : TpShape.LaidOut shape) : (parseShape b tp shape i).isSome = true := by
  have hval := hs.valOffset
  have hsize := hs.size
  simp only [kHpackTpNameOffset] at hval
  unfold parseShape
  split
  · rfl
  rw [loadRange_of_le (by simp only [kHpackTpNameOffset]; omega),
    load_of_lt (by simp only [kHpackTpNameOffset]; omega)]
  simp only [bind_eq_bind, bind_some]
  split
  · rfl
  split
  · split
    · rfl
    · next hfit =>
      rw [tryTpValue_of_le tp (by omega)]
      split <;> rfl
  · split <;> rfl

/-- A shape whose name matches and whose plain value fits is decoded. -/
theorem parseShape_value (hs : TpShape.LaidOut shape) (hfit : i + shape.size ≤ b.dataLen)
    (hname : ((List.range shape.nameLen).map fun j => b.data (i + kHpackTpNameOffset + j)) =
      shape.name) (hvlb : b.data (i + kHpackTpNameOffset + shape.nameLen) = 55) :
    parseShape b tp shape i =
      (tryParseTpValue b (i + shape.valOffset) tp).map fun r => some ⟨r.1, r.2, ⟨0, 0⟩⟩ := by
  have hval := hs.valOffset
  have hsize := hs.size
  simp only [kHpackTpNameOffset] at hval
  unfold parseShape
  rw [if_neg (by omega), loadRange_of_le (by simp only [kHpackTpNameOffset]; omega),
    load_of_lt (by simp only [kHpackTpNameOffset]; omega), hname, hvlb]
  simp only [bind_eq_bind, bind_some]
  rw [if_neg (by simp), if_pos trivial, if_neg (by omega)]
  cases tryParseTpValue b (i + shape.valOffset) tp <;> rfl

theorem hpackAt_isSome
    (h : i + kH2TpHpackHuffMin ≤ b.dataLen) : (parseHpackAt b tp i).isSome = true := by
  simp only [kH2TpHpackHuffMin] at h
  unfold parseHpackAt
  rw [load_of_lt (by omega), load_of_lt (by omega)]
  simp only [bind_eq_bind, bind_some]
  split
  · rfl
  split
  · exact parseShape_isSome plainShape_laidOut
  split
  · exact parseShape_isSome huffmanShape_laidOut
  · rfl

theorem hpackFrom_isSome (h : kH2TpHpackHuffMin ≤ b.dataLen)
    (left i : Nat) : (parseHpackFrom b tp left i).isSome = true := by
  induction left generalizing i with
  | zero => rfl
  | succ left ih =>
    rw [parseHpackFrom]
    split
    · rfl
    · next hi =>
      have hat : (parseHpackAt b tp i).isSome = true := hpackAt_isSome (by omega)
      split
      · next hnone => rw [hnone] at hat; cases hat
      · rfl
      · exact ih (i + 1)

/-! ## The field, byte by byte -/

theorem map_getD_range {n : Nat} (h : i + n ≤ bytes.length) :
    ((List.range n).map fun j => bytes.getD (i + j) 0) = slice bytes i n := by
  apply ext_getElem
  · rw [length_map, length_range, length_slice]
    omega
  · intro j h1 h2
    have hj : i + j < bytes.length := by
      rw [length_slice] at h2
      omega
    simp [slice, hj]

/-- What a byte of the field is inside the block. -/
theorem getD_field {pre post : List UInt8} {k : Nat} (hk : k < kH2TpHpackSize) :
    (pre ++ (makeH2TpHpack tp ++ post)).getD (pre.length + k) 0 = (makeH2TpHpack tp).getD k 0 := by
  have hlen : k < (makeH2TpHpack tp).length := by rw [length_makeH2TpHpack]; exact hk
  simp [getElem?_append_right, getElem?_append_left hlen]

theorem slice_field {pre post : List UInt8} {k n : Nat} (hk : k + n ≤ kH2TpHpackSize) :
    slice (pre ++ (makeH2TpHpack tp ++ post)) (pre.length + k) n =
      slice (makeH2TpHpack tp) k n := by
  rw [slice_append_add, slice_append_of_le (by rw [length_makeH2TpHpack]; exact hk)]

/-- Where the ids and the flags stand in the field. -/
theorem makeTpHpack_parts (tp : TpInfo) :
    makeH2TpHpack tp = ([kHpackLiteralNoIndex, 0x0b] ++ kHpackTpName ++ [0x37, 0x30, 0x30, 0x2d]) ++
      (encodeHex tp.traceId.val ++ ([0x2d] ++ (encodeHex tp.spanId.val ++
        ([0x2d, 0x30, 0x30 + (tp.flags &&& kFlagSampled)] ++ [])))) := by
  simp [makeH2TpHpack, tpValue]

theorem slice_traceId (tp : TpInfo) : slice (makeH2TpHpack tp) 17 32 = encodeHex tp.traceId.val :=
  slice_of_split (makeTpHpack_parts tp) rfl (by rw [length_encodeHex, tp.traceId.property])

theorem slice_dash2 (tp : TpInfo) : slice (makeH2TpHpack tp) 49 1 = [0x2d] := by
  have hparts := makeTpHpack_parts tp
  rw [← append_assoc _ (encodeHex _)] at hparts
  exact slice_of_split hparts (by simp [kHpackTpName, tp.traceId.property]) rfl

theorem slice_spanId (tp : TpInfo) : slice (makeH2TpHpack tp) 50 16 = encodeHex tp.spanId.val := by
  have hparts := makeTpHpack_parts tp
  rw [← append_assoc _ (encodeHex _), ← append_assoc _ [_]] at hparts
  refine slice_of_split hparts ?_ (by rw [length_encodeHex, tp.spanId.property])
  simp [kHpackTpName, tp.traceId.property]

theorem slice_flags (tp : TpInfo) :
    slice (makeH2TpHpack tp) 66 3 = [0x2d, 0x30, 0x30 + (tp.flags &&& kFlagSampled)] := by
  have hparts := makeTpHpack_parts tp
  rw [← append_assoc _ (encodeHex _), ← append_assoc _ [_],
    ← append_assoc _ (encodeHex _)] at hparts
  refine slice_of_split hparts ?_ rfl
  simp [kHpackTpName, tp.traceId.property, tp.spanId.property]

theorem getD_of_slice {cut : List UInt8} {n k : Nat} (h : slice bytes i n = cut)
    (hk : k < n) : bytes.getD (i + k) 0 = cut.getD k 0 := by
  rw [← h]
  simp [slice, hk]

/-- The flags digit decodes to the sampled bit. -/
theorem decode_flags (flags : UInt8) :
    (decodeHex 1 [0x30, 0x30 + (flags &&& kFlagSampled)]).val.getD 0 0 =
      flags &&& kFlagSampled := by
  have key : ∀ n : Fin 256,
      (decodeHex 1 [0x30, 0x30 + (UInt8.ofNat n.val &&& kFlagSampled)]).val.getD 0 0 =
        UInt8.ofNat n.val &&& kFlagSampled := by decide +kernel
  have h := key ⟨flags.toNat, flags.toNat_lt⟩
  simpa using h

/-! ## Reading the field back -/

/-- A literal form byte at `i`, and behind it one of the two names with its
length byte. -/
def CarriesName (bytes : List UInt8) (i : Nat) : Prop :=
  h2HpackIsLiteral (bytes.getD i 0) = true ∧
    ((bytes.getD (i + 1) 0 = 11 ∧ slice bytes (i + 2) 11 = kHpackTpName) ∨
      (bytes.getD (i + 1) 0 = 0x88 ∧ slice bytes (i + 2) 8 = kHpackTpHuffman))

instance (bytes : List UInt8) (i : Nat) : Decidable (CarriesName bytes i) :=
  inferInstanceAs (Decidable (_ ∧ _))

theorem parseShape_skip
    (hs : TpShape.LaidOut shape) (hname : slice bytes (i + 2) shape.nameLen ≠ shape.name) :
    parseShape (ofList bytes) tp shape i = some none := by
  have hval := hs.valOffset
  simp only [kHpackTpNameOffset] at hval
  unfold parseShape
  by_cases h : i + shape.valOffset > (ofList bytes).dataLen
  · rw [if_pos h]; rfl
  have hle : i + 2 + shape.nameLen ≤ bytes.length := by
    have : (ofList bytes).dataLen = bytes.length := rfl
    omega
  rw [if_neg h, loadRange_of_le hle]
  simp only [bind_eq_bind, bind_some]
  rw [if_pos]
  · rfl
  rw [show (fun j => (ofList bytes).data (i + kHpackTpNameOffset + j)) =
    fun j => bytes.getD (i + 2 + j) 0 from rfl, map_getD_range hle]
  exact hname

theorem hpackAt_skip
    (h : i + kH2TpHpackHuffMin ≤ bytes.length) (hname : ¬ CarriesName bytes i) :
    parseHpackAt (ofList bytes) tp i = some none := by
  simp only [kH2TpHpackHuffMin] at h
  have hlen : (ofList bytes).dataLen = bytes.length := rfl
  unfold parseHpackAt
  rw [load_of_lt (by omega), load_of_lt (by omega)]
  simp only [bind_eq_bind, bind_some]
  split
  · rfl
  · next hlit =>
    have hlit : h2HpackIsLiteral (bytes.getD i 0) = true := not_not.mp hlit
    split
    · next hb => exact parseShape_skip plainShape_laidOut fun hn => hname ⟨hlit, .inl ⟨hb, hn⟩⟩
    split
    · next hb => exact parseShape_skip huffmanShape_laidOut fun hn => hname ⟨hlit, .inr ⟨hb, hn⟩⟩
    · rfl

/-- What the reader makes of the context a field spells. -/
def readBack (t tp : TpInfo) : TpInfo :=
  { tp with traceId := t.traceId, parentId := t.spanId, flags := t.flags &&& kFlagSampled }

section
variable {pre post : List UInt8} {t : TpInfo}

theorem length_block : (ofList (pre ++ (makeH2TpHpack t ++ post))).dataLen =
      pre.length + (69 + post.length) := by
  show (pre ++ (makeH2TpHpack t ++ post)).length = _
  rw [length_append, length_append, length_makeH2TpHpack]
  rfl

theorem data_field {k : Nat} (hk : k < kH2TpHpackSize) :
    (ofList (pre ++ (makeH2TpHpack t ++ post))).data (pre.length + k) =
      (makeH2TpHpack t).getD k 0 :=
  getD_field hk

theorem range_field {k n : Nat} (hk : k + n ≤ kH2TpHpackSize) : ((List.range n).map fun j =>
      (ofList (pre ++ (makeH2TpHpack t ++ post))).data (pre.length + (k + j))) =
      slice (makeH2TpHpack t) k n := by
  simp only [kH2TpHpackSize] at hk
  rw [← slice_field hk]
  simp only [← add_assoc pre.length]
  refine map_getD_range ?_
  rw [length_append, length_append, length_makeH2TpHpack]
  simp only [kH2TpHpackSize]
  omega

/-- The value of the field, read where the scan finds it. -/
theorem tryTpValue_field (tp : TpInfo) :
    tryParseTpValue (ofList (pre ++ (makeH2TpHpack t ++ post))) (pre.length + 14) tp =
      some (true, readBack t tp) := by
  have hdash2 : (makeH2TpHpack t).getD 49 0 = 0x2d :=
    getD_of_slice (k := 0) (slice_dash2 t) (by decide)
  have hdash3 : (makeH2TpHpack t).getD 66 0 = 0x2d :=
    getD_of_slice (k := 0) (slice_flags t) (by decide)
  have hflags : slice (makeH2TpHpack t) 67 2 = [0x30, 0x30 + (t.flags &&& kFlagSampled)] := by
    have h := congrArg (drop 1) (slice_flags t)
    rw [slice, drop_take, drop_drop] at h
    exact h
  rw [tryTpValue_of_le tp (by rw [length_block]; simp only [kHpackValueLenTp]; omega)]
  simp only [add_assoc pre.length]
  rw [data_field (by decide), data_field (by decide), data_field (by decide),
    range_field (by decide), range_field (by decide), range_field (by decide), hdash2,
    hdash3, slice_traceId, slice_spanId, hflags, decode_flags]
  have htrace := decodeHex_encodeHex t.traceId []
  have hspan := decodeHex_encodeHex t.spanId []
  rw [append_nil] at htrace hspan
  rw [htrace, hspan]
  rfl

theorem hpackAt_field (tp : TpInfo) :
    parseHpackAt (ofList (pre ++ (makeH2TpHpack t ++ post))) tp pre.length =
      some (some ⟨true, readBack t tp, ⟨0, 0⟩⟩) := by
  have hform := @data_field pre post t 0 (by decide)
  rw [add_zero] at hform
  have hname : slice (makeH2TpHpack t) 2 11 = kHpackTpName := rfl
  have hvlb : (makeH2TpHpack t).getD 13 0 = 55 := rfl
  unfold parseHpackAt
  rw [load_of_lt (by rw [length_block]; omega), load_of_lt (by rw [length_block]; omega), hform,
    data_field (by decide)]
  have hrange := @range_field pre post t 2 11 (by decide)
  have hfit : pre.length + plainShape.size ≤
      (ofList (pre ++ (makeH2TpHpack t ++ post))).dataLen := by
    rw [length_block, show plainShape.size = 69 from rfl]
    omega
  rw [parseShape_value plainShape_laidOut hfit (hrange.trans hname)
    (by rw [add_assoc]; exact (data_field (by decide)).trans hvlb),
    show pre.length + plainShape.valOffset = pre.length + 14 from rfl, tryTpValue_field]
  rfl

/-- The scan passes over everything before the field and stops at it. -/
theorem hpackFrom_field (tp : TpInfo)
    (hno : ∀ i < pre.length, ¬ CarriesName (pre ++ (makeH2TpHpack t ++ post)) i)
    (left i : Nat) (hi : i ≤ pre.length) (hleft : pre.length < i + left) :
    parseHpackFrom (ofList (pre ++ (makeH2TpHpack t ++ post))) tp left i =
      some ⟨true, readBack t tp, ⟨0, 0⟩⟩ := by
  induction left generalizing i with
  | zero => omega
  | succ left ih =>
    rw [parseHpackFrom, if_neg (by rw [length_block]; simp only [kH2TpHpackHuffMin]; omega)]
    rcases eq_or_lt_of_le hi with rfl | hlt
    · rw [hpackAt_field]
    rw [hpackAt_skip _ (hno i hlt)]
    · exact ih (i + 1) hlt (by omega)
    rw [length_append, length_append, length_makeH2TpHpack]
    simp only [kH2TpHpackHuffMin, kH2TpHpackSize]
    omega

end

/-- What `make_h2_tp_hpack` writes, `parse_hpack_traceparent` reads back, wherever
in the block it stands as long as no name comes before it; and no parse, of any
memory and any length, reads past the length it was given. -/
theorem hpack_traceparent_roundtrip :
    (∀ (t tp : TpInfo) (pre post : List UInt8), pre.length < kHpackTpMaxScan →
      (∀ i < pre.length, ¬ CarriesName (pre ++ (makeH2TpHpack t ++ post)) i) →
      ∃ r, parseHpackTraceparent (ofList (pre ++ (makeH2TpHpack t ++ post))) tp = some r ∧
        r.ret = true ∧ r.tp.traceId = t.traceId ∧ r.tp.parentId = t.spanId ∧
        r.tp.flags = t.flags &&& kFlagSampled) ∧
    ∀ (b : Block) (tp : TpInfo), parseHpackTraceparent b tp ≠ none := by
  refine ⟨fun t tp pre post hpre hno => ?_, fun b tp hnone => ?_⟩
  · refine ⟨⟨true, readBack t tp, ⟨0, 0⟩⟩, ?_, rfl, rfl, rfl, rfl⟩
    unfold parseHpackTraceparent
    rw [if_pos (by rw [length_block]; simp only [kH2TpHpackHuffMin]; omega)]
    exact hpackFrom_field tp hno _ 0 (Nat.zero_le _) (by omega)
  · unfold parseHpackTraceparent at hnone
    split at hnone
    · next h => exact isSome_iff_ne_none.mp (hpackFrom_isSome h _ _) hnone
    · cases hnone

theorem hpack_traceparent_roundtrip_sample : ∃ r, parseHpackTraceparent
        (ofList ([0x82, 0x86] ++ (makeH2TpHpack sampleTp ++ [0x84]))) TpInfo.zero = some r ∧
      r.ret = true ∧ r.tp.traceId = sampleTp.traceId ∧ r.tp.parentId = sampleTp.spanId ∧
      r.tp.flags = sampleTp.flags &&& kFlagSampled :=
  hpack_traceparent_roundtrip.1 sampleTp TpInfo.zero [0x82, 0x86] [0x84] (by decide)
    (by decide +kernel)

end Obi.Refine
