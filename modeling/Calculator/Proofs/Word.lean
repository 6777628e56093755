import Calculator.Ewe.Machine
import Mathlib.Algebra.Group.Int.Defs
import Mathlib.Algebra.Group.Nat.Defs

/-!
# Words that hold small numbers

A stack pointer is a word, and the places it points to are natural numbers. As
long as a number is less than `2 ^ 63` it is its own word: sums, differences and
addresses of such words are those of the numbers.
-/

namespace Calculator

/-- A word is found for exactly the numbers in range, and it has that value. -/
theorem Numeral.word?_eq_some {n : Int} {v : Int64} : word? n = some v ↔ v.toInt = n := by
  rw [word?, Int64.toInt_minValue, Int64.toInt_maxValue]
  constructor
  · intro h
    split at h
    · next range =>
      obtain rfl := Option.some.inj h
      exact Int64.toInt_ofInt_of_le range.1 (by omega)
    · contradiction
  · rintro rfl
    have low := v.le_toInt
    have high := v.toInt_lt
    rw [if_pos ⟨low, by omega⟩, Int64.ofInt_toInt]

theorem narrow_eq_ok {n : Int} {v : Int64} : narrow n = .ok v ↔ v.toInt = n := by
  rw [← Numeral.word?_eq_some, narrow]
  split <;> simp_all

theorem narrow_eq_overflow {n : Int} (h : ¬(-2 ^ 63 ≤ n ∧ n < 2 ^ 63)) :
    narrow n = .error .overflow := by
  rw [narrow, Numeral.word?, Int64.toInt_minValue, Int64.toInt_maxValue, if_neg (by omega)]

/-- Negation is subtraction from zero, faults included. -/
theorem negated_eq_apply_sub (v : Int64) : negated v = Op.sub.apply 0 v := by
  rw [negated, Op.apply, Int64.toInt_zero, Int.zero_sub]

namespace Op

theorem apply_add_ofNat {a b : Nat} (h : a + b < 2 ^ 63) :
    add.apply (.ofNat a) (.ofNat b) = .ok (.ofNat (a + b)) := by
  rw [apply, narrow_eq_ok, Int64.toInt_ofNat_of_lt h, Int64.toInt_ofNat_of_lt (by omega),
    Int64.toInt_ofNat_of_lt (by omega), Int.natCast_add]

theorem apply_sub_ofNat {a b : Nat} (h : a + b < 2 ^ 63) :
    sub.apply (.ofNat (a + b)) (.ofNat b) = .ok (.ofNat a) := by
  rw [apply, narrow_eq_ok, Int64.toInt_ofNat_of_lt h, Int64.toInt_ofNat_of_lt (by omega),
    Int64.toInt_ofNat_of_lt (by omega)]
  omega

/-- A sum that has a word is small itself. -/
theorem lt_of_apply_add_eq_ok {a b : Nat} {v : Int64} (ha : a < 2 ^ 63) (hb : b < 2 ^ 63)
    (h : add.apply (.ofNat a) (.ofNat b) = .ok v) : a + b < 2 ^ 63 := by
  rw [apply, narrow_eq_ok, Int64.toInt_ofNat_of_lt ha, Int64.toInt_ofNat_of_lt hb] at h
  have := v.toInt_lt
  omega

end Op

namespace Ewe

theorem toInt_saturate {n : Int} (low : -2 ^ 63 ≤ n) (high : n < 2 ^ 63) :
    (saturate n).toInt = n := by
  rw [saturate, Int64.toInt_minValue, Int64.toInt_maxValue, Int64.toInt_ofInt_of_le] <;> omega

/-- A number that is too large for an address stays too large. -/
theorem le_toInt_saturate {n : Int} (h : capacity ≤ n) : capacity ≤ (saturate n).toInt := by
  rw [capacity] at *
  rw [saturate, Int64.toInt_minValue, Int64.toInt_maxValue, Int64.toInt_ofInt_of_le] <;> omega

end Ewe

end Calculator
