import Mathlib.Data.Nat.Bitwise
import Mathlib.Data.UInt
import Mathlib.Tactic.Ring

/-!
# Numbers as bits

The bits of a number, the highest first, as they go over the wire. A byte is eight
of them, and a buffer of bits that is shifted into from the right keeps the
bits it has as the front of the new ones. A byte of which seven bits are used says with
the highest one whether another byte follows.
-/

namespace Obi.Lib

/-- The lowest `k` bits of a number, the highest of them first. -/
def toBits : Nat → Nat → List Bool
  | 0, _ => []
  | k + 1, n => n.testBit k :: toBits k n

def byteBits (b : UInt8) : List Bool := toBits 8 b.toNat

@[simp] theorem length_toBits (k n : Nat) : (toBits k n).length = k := by
  induction k with
  | zero => rfl
  | succ k ih => rw [toBits, List.length_cons, ih]

@[simp] theorem length_byteBits (b : UInt8) : (byteBits b).length = 8 := length_toBits 8 b.toNat

theorem toBits_add (a b n : Nat) : toBits (a + b) n = toBits a (n >>> b) ++ toBits b n := by
  induction a with
  | zero => rw [zero_add, toBits, List.nil_append]
  | succ a ih =>
    rw [Nat.succ_add, toBits, ih, toBits, Nat.testBit_shiftRight, add_comm b a, List.cons_append]

variable {r k : Nat}

theorem drop_toBits (h : r ≤ k) (n : Nat) : (toBits k n).drop r = toBits (k - r) n := by
  rw [show k = r + (k - r) by omega, toBits_add, List.drop_left' (length_toBits _ _),
    show r + (k - r) - r = k - r by omega]

theorem toBits_inj {m n : Nat} : toBits k m = toBits k n ↔ m % 2 ^ k = n % 2 ^ k := by
  induction k with
  | zero => simp [toBits, Nat.mod_one]
  | succ k ih =>
    rw [toBits, toBits, List.cons.injEq, ih]
    constructor
    · rintro ⟨hbit, hlow⟩
      refine Nat.eq_of_testBit_eq fun i => ?_
      rw [Nat.testBit_mod_two_pow, Nat.testBit_mod_two_pow]
      rcases lt_trichotomy i k with hi | rfl | hi
      · have hlowBit := congrArg (Nat.testBit · i) hlow
        simp only [Nat.testBit_mod_two_pow, hi, decide_true, Bool.true_and] at hlowBit
        rw [hlowBit]
      · rw [hbit]
      · rw [decide_eq_false (by omega), Bool.false_and, Bool.false_and]
    · intro h
      have hbits : ∀ i, i < k + 1 → m.testBit i = n.testBit i := by
        intro i hi
        have hbit := congrArg (Nat.testBit · i) h
        simpa only [Nat.testBit_mod_two_pow, hi, decide_true, Bool.true_and] using hbit
      refine ⟨hbits k (Nat.lt_succ_self k), Nat.eq_of_testBit_eq fun i => ?_⟩
      rw [Nat.testBit_mod_two_pow, Nat.testBit_mod_two_pow]
      by_cases hi : i < k
      · rw [hbits i (Nat.lt_succ_of_lt hi)]
      · rw [decide_eq_false hi, Bool.false_and, Bool.false_and]

theorem toBits_mod {w : Nat} (h : k ≤ w) (n : Nat) : toBits k (n % 2 ^ w) = toBits k n :=
  toBits_inj.mpr (Nat.mod_mod_of_dvd n (Nat.pow_dvd_pow 2 h))

/-- Bits that are shifted in follow the ones that are there. -/
theorem toBits_shift (a : Nat) {b y : Nat} (x : Nat) (hy : y < 2 ^ b) :
    toBits (a + b) (x <<< b ||| y) = toBits a x ++ toBits b y := by
  rw [toBits_add]
  congr 1
  · rw [Nat.shiftRight_or_distrib, Nat.shiftLeft_shiftRight, Nat.shiftRight_eq_div_pow,
      Nat.div_eq_of_lt hy, Nat.or_zero]
  · rw [toBits_inj, ← Nat.shiftLeft_add_eq_or_of_lt hy, Nat.shiftLeft_eq, add_comm,
      Nat.add_mul_mod_self_right]

theorem toBits_zero (k : Nat) : toBits k 0 = List.replicate k false := by
  induction k with
  | zero => rfl
  | succ k ih => rw [toBits, ih, Nat.zero_testBit, List.replicate_succ]

theorem toBits_ones (k : Nat) : toBits k (2 ^ k - 1) = List.replicate k true := by
  have h : ∀ j ≤ k, toBits j (2 ^ k - 1) = List.replicate j true := by
    intro j hj
    induction j with
    | zero => rfl
    | succ j ih =>
      rw [toBits, ih (Nat.le_of_succ_le hj), Nat.testBit_two_pow_sub_one,
        decide_eq_true (Nat.lt_of_succ_le hj), List.replicate_succ]
  exact h k (le_refl k)

theorem byteBits_ofNat (n : Nat) : byteBits (UInt8.ofNat n) = toBits 8 n := by
  exact toBits_mod (le_refl 8) n

theorem byteBits_inj {a b : UInt8} : byteBits a = byteBits b ↔ a = b := by
  rw [byteBits, byteBits, toBits_inj, Nat.mod_eq_of_lt a.toNat_lt, Nat.mod_eq_of_lt b.toNat_lt,
    UInt8.toNat_inj]

/-- The bytes that begin with some bits are a range. -/
theorem toBits_prefix_byte (hr : r ≤ 8) (c : Nat) (b : UInt8) :
    toBits r c <+: byteBits b ↔ b.toNat / 2 ^ (8 - r) = c % 2 ^ r := by
  have hlt : b.toNat / 2 ^ (8 - r) < 2 ^ r := by
    rw [Nat.div_lt_iff_lt_mul (Nat.two_pow_pos _), ← pow_add, show r + (8 - r) = 8 by omega]
    exact b.toNat_lt
  have hspl : byteBits b = toBits r (b.toNat >>> (8 - r)) ++ toBits (8 - r) b.toNat := by
    rw [← toBits_add, show r + (8 - r) = 8 by omega]
    rfl
  have htake : (byteBits b).take r = toBits r (b.toNat >>> (8 - r)) := by
    rw [hspl, List.take_left' (length_toBits _ _)]
  rw [List.prefix_iff_eq_take, length_toBits, htake, toBits_inj, Nat.shiftRight_eq_div_pow,
    Nat.mod_eq_of_lt hlt, eq_comm]

/-! ## Bytes of seven bits -/

theorem high_bit_clear (b : UInt8) : b &&& 128 = 0 ↔ b < 128 := by
  have hall : ∀ i : Fin 256, UInt8.ofNat i &&& 128 = 0 ↔ UInt8.ofNat i < 128 := by decide +kernel
  have hb := hall ⟨b.toNat, b.toNat_lt⟩
  rwa [UInt8.ofNat_toNat] at hb

theorem low_bits (b : UInt8) : (b &&& 127).toNat = b.toNat % 128 := by
  exact Nat.and_two_pow_sub_one_eq_mod b.toNat 7

end Obi.Lib
