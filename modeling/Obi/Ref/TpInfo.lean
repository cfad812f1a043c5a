import Obi.Ref.H2Defs

/-!
# Trace context and its two spellings on the wire

`tp_info_t`, the hex codec of `common/trace_util.h`, and the two builders of
`tpinjector.c`: the HTTP/1 header line and the HPACK field. Both spell the
same 55-byte value, `00-<trace_id>-<span_id>-0<flags & 1>`.
-/

namespace Obi.Ref

/-- An array of exactly `n` bytes. -/
abbrev ByteVec (n : Nat) := { l : List UInt8 // l.length = n }

/-- `tp_info_t`, padding left out. -/
structure TpInfo where
  traceId : ByteVec 16
  (spanId parentId : ByteVec 8)
  ts : Nat
  flags : UInt8
deriving DecidableEq

def zeroId (n : Nat) : ByteVec n := ⟨List.replicate n 0, by simp⟩

def TpInfo.zero : TpInfo := ⟨zeroId 16, zeroId 8, zeroId 8, 0, 0⟩

@[simp] def kFlagSampled : UInt8 := 1

/-- The table `hex`: a nibble's lowercase digit. -/
def hex (n : UInt8) : UInt8 := if n < 10 then 0x30 + n else 0x57 + n

/-- The table `reverse_hex`: a digit's nibble, `0xff` for anything else. -/
def reverseHex (b : UInt8) : UInt8 :=
  if 0x30 ≤ b ∧ b ≤ 0x39 then b - 0x30
  else if 0x41 ≤ b ∧ b ≤ 0x46 then b - 0x37
  else if 0x61 ≤ b ∧ b ≤ 0x66 then b - 0x57
  else 0xff

def encodeHex (src : List UInt8) : List UInt8 :=
  src.flatMap fun (p : UInt8) => [hex (p >>> 4), hex (p &&& 0x0f)]

/-- One round of `decode_hex`: two digits, one byte. -/
def unhex (p q : UInt8) : UInt8 := ((reverseHex p &&& 0x0f) <<< 4) ||| (reverseHex q &&& 0x0f)

/-- `decode_hex` into an array of `n` bytes, from `2 * n` digits. -/
def decodeHex (n : Nat) (src : List UInt8) : ByteVec n :=
  ⟨(List.range n).map fun j => unhex (src.getD (2 * j) 0) (src.getD (2 * j + 1) 0), by simp⟩

variable (tp : TpInfo)

/-- The traceparent value both builders write. -/
def tpValue : List UInt8 :=
  [0x30, 0x30, 0x2d] ++ encodeHex tp.traceId.val ++ [0x2d] ++
    encodeHex tp.spanId.val ++ [0x2d] ++ [0x30, 0x30 + (tp.flags &&& kFlagSampled)]

/-- The HPACK field `make_h2_tp_hpack` writes: a literal without indexing,
the plain name, the plain value. -/
def makeH2TpHpack : List UInt8 :=
  [kHpackLiteralNoIndex, 0x0b] ++ kHpackTpName ++ [0x37] ++ tpValue tp

/-- `Traceparent: `. -/
def tpHeaderName : List UInt8 :=
  [0x54, 0x72, 0x61, 0x63, 0x65, 0x70, 0x61, 0x72, 0x65, 0x6e, 0x74, 0x3a, 0x20]

@[simp] def tpSize : Nat := 70

/-- The header line `make_tp_string_skb` writes. -/
def makeTpString : List UInt8 := tpHeaderName ++ tpValue tp ++ [0x0d, 0x0a]

/-- A sampled context to try definitions on. -/
def sampleTp : TpInfo :=
  ⟨⟨List.replicate 16 1, rfl⟩, ⟨List.replicate 8 2, rfl⟩, ⟨List.replicate 8 0, rfl⟩, 0, 1⟩

/-! ## Sizes and the hex round trip -/

@[simp] theorem length_encodeHex (src : List UInt8) : (encodeHex src).length = 2 * src.length := by
  induction src with
  | nil => rfl
  | cons p rest ih =>
    simp only [encodeHex, List.flatMap_cons, List.length_append,
      List.length_cons, List.length_nil] at ih ⊢
    omega

@[simp] theorem length_tpValue : (tpValue tp).length = kHpackValueLenTp := by
  simp [tpValue, tp.traceId.property, tp.spanId.property]

@[simp] theorem length_makeH2TpHpack : (makeH2TpHpack tp).length = kH2TpHpackSize := by
  simp [makeH2TpHpack, kHpackTpName]

@[simp] theorem length_makeTpString : (makeTpString tp).length = tpSize := by
  simp [makeTpString, tpHeaderName]

/-- A byte's two digits decode to the byte. -/
theorem unhex_hex (p : UInt8) : unhex (hex (p >>> 4)) (hex (p &&& 0x0f)) = p := by
  have key : ∀ n : Fin 256,
      unhex (hex (UInt8.ofNat n.val >>> 4)) (hex (UInt8.ofNat n.val &&& 0x0f)) =
        UInt8.ofNat n.val := by decide +kernel
  have hp := key ⟨p.toNat, p.toNat_lt⟩
  simpa using hp

theorem getD_encodeHex (src rest : List UInt8) {j : Nat} (hj : j < src.length) :
    (encodeHex src ++ rest).getD (2 * j) 0 = hex (src.getD j 0 >>> 4) ∧
      (encodeHex src ++ rest).getD (2 * j + 1) 0 = hex (src.getD j 0 &&& 0x0f) := by
  induction src generalizing j with
  | nil => simp at hj
  | cons p ps ih =>
    cases j with
    | zero => simp [encodeHex]
    | succ k =>
      have hk : k < ps.length := by simpa using hj
      obtain ⟨h0, h1⟩ := ih hk
      simpa using ⟨h0, h1⟩

/-- Decoding reads back what the encoder wrote, whatever follows it. -/
theorem decodeHex_encodeHex {n : Nat} (src : ByteVec n) (rest : List UInt8) :
    decodeHex n (encodeHex src.val ++ rest) = src := by
  apply Subtype.ext
  apply List.ext_getElem
  · simp [decodeHex, src.property]
  · intro j h1 h2
    obtain ⟨hhi, hlo⟩ := getD_encodeHex src.val rest h2
    simp only [decodeHex, List.getElem_map, List.getElem_range, hhi, hlo, unhex_hex]
    simp [h2]

end Obi.Ref
