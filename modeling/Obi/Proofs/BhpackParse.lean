import Obi.Lib.Incremental
import Obi.Lib.Bits
import Obi.Proofs.BhpackHuffman

/-!
# Numbers and strings of header blocks are parsed

What an encoder may write for a number or a string is read back by the decoder,
which asks for more as long as it is given a part of it only.
-/

namespace Obi.Refine
open Lib Ref.Bhpack Spec.Hpack UInt8 List

/-! ## Numbers -/

variable {w : List UInt8} {i m n flags k v : Nat}

section

/-- No payload that is allowed makes the number too large. -/
theorem payload_fits (b : UInt8) (hm : m ≤ 56) (hi : i < 128 + 2 ^ m) :
    ¬ (b &&& 127).toNat > (maxUint64 - i) >>> m ∧
      i + (b.toNat % 128) * 2 ^ m < 128 + 2 ^ (m + 7) := by
  have hpay : b.toNat % 128 ≤ 127 := Nat.le_of_lt_succ (Nat.mod_lt _ (by decide))
  have hmul : b.toNat % 128 * 2 ^ m ≤ 127 * 2 ^ m := Nat.mul_le_mul_right _ hpay
  have hpow : 2 ^ (m + 7) = 128 * 2 ^ m := by rw [Nat.pow_add, mul_comm]
  have hbound : 2 ^ m ≤ 2 ^ 56 := Nat.pow_le_pow_right (by decide) hm
  have hsum : i + b.toNat % 128 * 2 ^ m < 128 + 2 ^ (m + 7) := by omega
  refine ⟨?_, hsum⟩
  rw [low_bits, Nat.shiftRight_eq_div_pow, not_lt, Nat.le_div_iff_mul_le (Nat.two_pow_pos m),
    maxUint64]
  omega

theorem readVarIntLoop_whole {front : List UInt8} {last : UInt8} (hlast : last < 128)
    (hfrt : ∀ b ∈ front, 128 ≤ b) (hm : m + 7 * front.length ≤ 56)
    (hi : i < 128 + 2 ^ m) (t : List UInt8) :
    readVarIntLoop i m (front ++ [last] ++ t) = .ok (i + septets front last * 2 ^ m, t) := by
  induction front generalizing i m with
  | nil =>
    obtain ⟨hfits, -⟩ := payload_fits last (by omega) hi
    have hend : last &&& 128 = 0 := (high_bit_clear last).mpr hlast
    have hsm : last.toNat % 128 = last.toNat := Nat.mod_eq_of_lt hlast
    rw [nil_append, singleton_append, readVarIntLoop]
    simp only [if_neg hfits, if_pos hend]
    rw [low_bits, hsm, Nat.shiftLeft_eq]
    rfl
  | cons b front ih =>
    obtain ⟨hb, hfrt⟩ := forall_mem_cons.mp hfrt
    rw [length_cons] at hm
    obtain ⟨hfits, hnext⟩ := payload_fits b (by omega) hi
    have hgo : ¬ b &&& 128 = 0 := fun h => UInt8.not_lt.mpr hb ((high_bit_clear b).mp h)
    have hroom : ¬ m + 7 ≥ 63 := by omega
    rw [cons_append, cons_append, readVarIntLoop]
    simp only [if_neg hfits, if_neg hgo, if_neg hroom]
    have hseptets : septets (b :: front) last = b.toNat % 128 + 128 * septets front last := rfl
    rw [low_bits, Nat.shiftLeft_eq, ih hfrt (by omega) hnext, hseptets]
    congr 2
    ring

theorem readVarIntLoop_part {c : List UInt8} (hc : ∀ b ∈ c, 128 ≤ b)
    (hm : m + 7 * c.length ≤ 56) (hi : i < 128 + 2 ^ m) :
    readVarIntLoop i m c = .error .needMore := by
  induction c generalizing i m with
  | nil => rw [readVarIntLoop]
  | cons b c ih =>
    obtain ⟨hb, hc⟩ := forall_mem_cons.mp hc
    rw [length_cons] at hm
    obtain ⟨hfits, hnext⟩ := payload_fits b (by omega) hi
    have hgo : ¬ b &&& 128 = 0 := fun h => UInt8.not_lt.mpr hb ((high_bit_clear b).mp h)
    have hroom : ¬ m + 7 ≥ 63 := by omega
    rw [readVarIntLoop]
    simp only [if_neg hfits, if_neg hgo, if_neg hroom]
    rw [low_bits, Nat.shiftLeft_eq]
    exact ih hc (by omega) hnext

/-- The flags are in the bits above those of the number. -/
def FlagsOf (n flags : Nat) : Prop := n < 8 ∧ flags % 2 ^ n = 0 ∧ flags + 2 ^ n ≤ 256

theorem first_byte (h : FlagsOf n flags) (hk : k < 2 ^ n) :
    (ofNat (flags + k)).toNat &&& (1 <<< n - 1) = k := by
  obtain ⟨hn, hflags, hle⟩ := h
  rw [toNat_ofNat', Nat.mod_eq_of_lt (by omega), Nat.shiftLeft_eq, Nat.one_mul,
    Nat.and_two_pow_sub_one_eq_mod, Nat.add_mod, hflags, zero_add, Nat.mod_mod, Nat.mod_eq_of_lt hk]

theorem parses_varInt (hflags : FlagsOf n flags)
    (h : IsInt n flags v w) : Parses .needMore (readVarInt n) w v := by
  have hpos := Nat.two_pow_pos n
  cases h with
  | short hv =>
    have hfst := first_byte hflags (show v < 2 ^ n by omega)
    refine ⟨fun t => ?_, fun c hc => ?_⟩
    · rw [singleton_append, readVarInt]
      simp only [if_pos hflags.1, hfst]
      rw [if_pos (by omega)]
    · rcases hc.head with rfl | ⟨c', rfl, hc'⟩
      · rfl
      · exact absurd (prefix_nil.mp hc'.1) hc'.2
  | @long front last continued ended fits =>
    have hfst := first_byte hflags (show 2 ^ n - 1 < 2 ^ n by omega)
    have hstart : 2 ^ n - 1 < 128 + 2 ^ 0 := by
      have hle : 2 ^ n ≤ 2 ^ 7 := Nat.pow_le_pow_right (by decide) (by
        have := hflags.1
        omega)
      omega
    refine ⟨fun t => ?_, fun c hc => ?_⟩
    · rw [cons_append, readVarInt]
      simp only [if_pos hflags.1, hfst]
      rw [if_neg (by omega), readVarIntLoop_whole ended continued (by omega) hstart, pow_zero,
        Nat.mul_one]
    · rcases hc.head with rfl | ⟨c', rfl, hc'⟩
      · rfl
      have hpre : c' <+: front := by
        rcases prefix_concat_iff.mp hc'.1 with heq | hpre
        · exact absurd heq hc'.2
        · exact hpre
      have hlen := hpre.length_le
      rw [readVarInt]
      simp only [if_pos hflags.1, hfst]
      rw [if_neg (by omega)]
      exact readVarIntLoop_part (fun b hb => continued b (hpre.subset hb)) (by omega) hstart

/-- The first byte of a number has its flags. -/
theorem isInt_head (h : IsInt n flags v w) : ∃ k w', k < 2 ^ n ∧ w = ofNat (flags + k) :: w' := by
  have hpos := Nat.two_pow_pos n
  cases h with
  | short hv => exact ⟨v, [], by omega, rfl⟩
  | long continued ended fits => exact ⟨2 ^ n - 1, _, by omega, rfl⟩

end

/-! ## Strings -/

variable {d : Decoder}

theorem huffman_flag (hk : k < 2 ^ 7) :
    (ofNat (0 + k) &&& 128 != 0) = false ∧ (ofNat (128 + k) &&& 128 != 0) = true := by
  have h : ∀ k : Fin 128, (ofNat (0 + k) &&& 128 != 0) = false ∧
      (ofNat (128 + k) &&& 128 != 0) = true := by decide +kernel
  exact h ⟨k, hk⟩

theorem readString_cons (hmax : d.maxStrLen = 0) (first : UInt8) (p : List UInt8) :
    d.readString (first :: p) = match readVarInt 7 (first :: p) with
      | .error e => .error e
      | .ok (strLen, p) =>
        if p.length < strLen then .error .needMore
        else .ok (⟨first &&& 128 != 0, p.take strLen⟩, p.drop strLen) := by
  rw [Decoder.readString]
  rcases readVarInt 7 (first :: p) with e | ⟨strLen, rest⟩
  · rfl
  · change (if d.maxStrLen ≠ 0 ∧ strLen > d.maxStrLen % 2 ^ 64 then _ else _) = _
    rw [if_neg fun h => h.1 hmax]

theorem parses_readString (hmax : d.maxStrLen = 0) (hflags : FlagsOf 7 flags)
    {isHuff : Bool} (hhuff : ∀ k < 2 ^ 7, (ofNat (flags + k) &&& 128 != 0) = isHuff)
    {len v : List UInt8} (hlen : IsInt 7 flags v.length len) :
    Parses .needMore d.readString (len ++ v) ⟨isHuff, v⟩ := by
  have hint := parses_varInt hflags hlen
  obtain ⟨k, len', hk, hcons⟩ := isInt_head hlen
  have hread : ∀ p, d.readString (len ++ p) = if p.length < v.length then .error .needMore
      else .ok (⟨isHuff, p.take v.length⟩, p.drop v.length) := by
    intro p
    have hwh := hint.whole p
    rw [hcons, cons_append] at hwh ⊢
    rw [readString_cons hmax, hwh, hhuff k hk]
  refine ⟨fun t => ?_, fun c hc => ?_⟩
  · rw [append_assoc, hread, if_neg (by rw [length_append]; omega), take_left, drop_left]
  rcases hc.append with hpart | ⟨c', rfl, hpart⟩
  · have hmore := hint.part c hpart
    cases c with
    | nil => rfl
    | cons first p => rw [readString_cons hmax, hmore]
  · rw [hread, if_pos hpart.length_lt]

/-- A string is read, and decoded to what it stands for. -/
theorem parses_string (hmax : d.maxStrLen = 0) {s : List UInt8} (h : IsString s w) :
    ∃ u, Parses .needMore d.readString w u ∧ d.decodeString u = .ok s := by
  rcases h with ⟨len, hlen, rfl⟩ | ⟨v, len, hcoded, hlen, rfl⟩
  · refine ⟨⟨false, s⟩, parses_readString hmax ⟨by decide, rfl, by decide⟩ (fun k hk => ?_) hlen,
      rfl⟩
    exact (huffman_flag hk).1
  refine ⟨⟨true, v⟩, parses_readString hmax ⟨by decide, rfl, by decide⟩ (fun k hk => ?_) hlen, ?_⟩
  · exact (huffman_flag hk).2
  · rw [Decoder.decodeString, hmax]
    exact huffmanDecode_eq hcoded

end Obi.Refine
