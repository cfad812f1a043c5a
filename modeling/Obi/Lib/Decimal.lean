import Mathlib.Data.UInt

/-!
# Decimal numbers in text

A number as its decimal digits, in ASCII, and the value of a string of digits:
the string may begin with zeros.
-/

namespace Obi.Lib

def IsDigit (c : UInt8) : Prop := 48 ≤ c ∧ c ≤ 57

instance (c : UInt8) : Decidable (IsDigit c) := inferInstanceAs (Decidable (_ ∧ _))

variable (n : Nat)

/-- The value of digits that follow a number `n`. -/
def digitsFrom (w : List UInt8) : Nat := w.foldl (fun n c => n * 10 + (c.toNat - 48)) n

/-- The digits of a number. -/
def decimal : List UInt8 := (Nat.toDigits 10 n).map fun c => UInt8.ofNat c.toNat

theorem digitsFrom_cons (c : UInt8) (w : List UInt8) :
    digitsFrom n (c :: w) = digitsFrom (n * 10 + (c.toNat - 48)) w := by
  rw [digitsFrom, List.foldl_cons, digitsFrom]

theorem le_digitsFrom (w : List UInt8) : n ≤ digitsFrom n w := by
  induction w generalizing n with
  | nil => exact le_refl n
  | cons c w ih =>
    rw [digitsFrom_cons]
    have hnext := ih (n * 10 + (c.toNat - 48))
    omega

theorem digit_toNat {c : Char} (h : c.isDigit = true) :
    (UInt8.ofNat c.toNat).toNat = c.toNat ∧ 48 ≤ c.toNat ∧ c.toNat ≤ 57 := by
  have hc : 48 ≤ c.toNat ∧ c.toNat ≤ 57 := Char.isDigit_iff_toNat.mp h
  refine ⟨?_, hc⟩
  rw [UInt8.toNat_ofNat']
  omega

theorem decimal_isDigit {n : Nat} : ∀ c ∈ decimal n, IsDigit c := by
  intro c hc
  obtain ⟨d, hd, rfl⟩ := List.mem_map.mp hc
  have hdigit := digit_toNat (Nat.isDigit_of_mem_toDigits (by decide) (by decide) hd)
  constructor
  · rw [UInt8.le_iff_toNat_le, hdigit.1]
    exact hdigit.2.1
  · rw [UInt8.le_iff_toNat_le, hdigit.1]
    exact hdigit.2.2

theorem decimal_ne_nil : decimal n ≠ [] := by
  rw [decimal, Ne, List.map_eq_nil_iff]
  exact Nat.toDigits_ne_nil

theorem digitsFrom_map {w : List Char} (h : ∀ c ∈ w, c.isDigit = true) (n : Nat) :
    digitsFrom n (w.map fun c => UInt8.ofNat c.toNat) = Nat.ofDigitChars 10 w n := by
  induction w generalizing n with
  | nil => rfl
  | cons c w ih =>
    obtain ⟨hc, hw⟩ := List.forall_mem_cons.mp h
    rw [List.map_cons, digitsFrom_cons, ih hw, (digit_toNat hc).1, mul_comm]
    rfl

theorem digitsFrom_decimal : digitsFrom 0 (decimal n) = n := by
  have hdigs : ∀ c ∈ Nat.toDigits 10 n, c.isDigit = true := fun c hc =>
    Nat.isDigit_of_mem_toDigits (by decide) (by decide) hc
  rw [decimal, digitsFrom_map hdigs]
  exact Nat.ofDigitChars_toDigits (by decide) (by decide)

example : decimal 1024 = [49, 48, 50, 52] := by decide

end Obi.Lib
