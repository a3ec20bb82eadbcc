import Mathlib.Data.Rat.Cast.Order
import Mathlib.Tactic.FieldSimp
import Mathlib.Tactic.Positivity
import Mathlib.Tactic.Ring
import PackedTable.Load

/-!
The number that a load factor is, as an exact fraction, told by its bits. A valid factor is a
significand of 24 bits over a power of two, and the factors that pass the check are exactly the
numbers above zero and up to one.
-/

namespace PackedTable

namespace LoadFactor

variable {factor : LoadFactor}

theorem exponentField_eq (factor : LoadFactor) :
    factor.exponentField = factor.bits.toNat / 2 ^ 23 % 2 ^ 8 := by
  have mask : (0xFF : UInt32).toNat = 2 ^ 8 - 1 := rfl
  rw [exponentField, UInt32.toNat_and, mask, Nat.and_two_pow_sub_one_eq_mod,
    UInt32.toNat_shiftRight, Nat.shiftRight_eq_div_pow]
  rfl

theorem fraction_eq (factor : LoadFactor) : factor.fraction = factor.bits.toNat % 2 ^ 23 := by
  have mask : (0x7FFFFF : UInt32).toNat = 2 ^ 23 - 1 := rfl
  rw [fraction, UInt32.toNat_and, mask, Nat.and_two_pow_sub_one_eq_mod]

theorem valid_iff : factor.valid = true ↔
    0 < factor.bits.toNat ∧ factor.bits.toNat ≤ 127 * 2 ^ 23 := by
  rw [valid, Bool.and_eq_true, decide_eq_true_eq, decide_eq_true_eq, UInt32.lt_iff_toNat_lt,
    UInt32.le_iff_toNat_le]
  rfl

def value (factor : LoadFactor) : ℚ :=
  if factor.exponentField = 0 then factor.fraction / 2 ^ 23 * 2 ^ (-126 : ℤ)
  else (1 + factor.fraction / 2 ^ 23) * 2 ^ ((factor.exponentField : ℤ) - 127)

theorem value_eq (factor : LoadFactor) :
    factor.value = factor.significand * 2 ^ factor.weight / 2 ^ 150 := by
  rw [value, significand, weight]
  split
  case isTrue small =>
    rw [small]
    norm_num
    ring
  case isFalse large =>
    rw [Nat.max_eq_left (by omega), zpow_sub₀ (by norm_num), zpow_natCast]
    push_cast
    field_simp
    ring

theorem significand_lt (factor : LoadFactor) : factor.significand < 2 ^ 24 := by
  have fraction := factor.fraction_eq
  unfold significand
  split <;> omega

section

variable (valid : factor.valid = true)
include valid

theorem not_special : (factor.notANumber || factor.negative) = false ∧ factor.infinite = false := by
  obtain ⟨-, bound⟩ := valid_iff.1 valid
  have field := factor.exponentField_eq
  have finite : ¬factor.exponentField = 255 := by omega
  have positive : ¬(0x80000000 : UInt32) ≤ factor.bits := by
    rw [UInt32.le_iff_toNat_le]
    change ¬2 ^ 31 ≤ _
    omega
  simp [notANumber, infinite, negative, finite, positive]

theorem weight_le : factor.weight ≤ 127 := by
  obtain ⟨-, bound⟩ := valid_iff.1 valid
  have field := factor.exponentField_eq
  unfold weight
  omega

theorem significand_pos : 0 < factor.significand := by
  obtain ⟨positive, bound⟩ := valid_iff.1 valid
  have field := factor.exponentField_eq
  have fraction := factor.fraction_eq
  unfold significand
  split <;> omega

theorem significand_le : factor.significand ≤ 2 ^ (150 - factor.weight) := by
  obtain ⟨positive, bound⟩ := valid_iff.1 valid
  have field := factor.exponentField_eq
  have fraction := factor.fraction_eq
  have weight := weight_le valid
  by_cases one : factor.weight = 127
  · have top : factor.exponentField = 127 := by
      rw [LoadFactor.weight] at one
      omega
    rw [one, significand, if_neg (by omega)]
    norm_num
    omega
  · have power : 2 ^ 24 ≤ 2 ^ (150 - factor.weight) :=
      Nat.pow_le_pow_right Nat.two_pos (by omega)
    unfold significand
    split <;> omega

theorem value_eq_div : factor.value = factor.significand / (2 ^ (150 - factor.weight) : Nat) := by
  have weight := weight_le valid
  have split : (2 : ℚ) ^ 150 = 2 ^ (150 - factor.weight) * 2 ^ factor.weight := by
    rw [← pow_add, Nat.sub_add_cancel (by omega)]
  rw [value_eq, split, mul_div_mul_right _ _ (by positivity), Nat.cast_pow, Nat.cast_ofNat]

theorem value_pos : 0 < factor.value := by
  have some : (0 : ℚ) < factor.significand := by exact_mod_cast significand_pos valid
  rw [value_eq_div valid]
  positivity

theorem value_le_one : factor.value ≤ 1 := by
  rw [value_eq_div valid, div_le_one (by positivity)]
  exact_mod_cast significand_le valid

end

theorem value_le_one_iff : factor.value ≤ 1 ↔ factor.significand * 2 ^ factor.weight ≤ 2 ^ 150 := by
  rw [value_eq, div_le_one (by positivity)]
  exact_mod_cast Iff.rfl

/-- The valid factors are the numbers above zero and up to one. -/
theorem valid_iff_value : factor.valid = true ↔
    factor.negative = false ∧ 0 < factor.value ∧ factor.value ≤ 1 := by
  have field := factor.exponentField_eq
  have fraction := factor.fraction_eq
  constructor
  · intro valid
    have plain := (not_special valid).1
    rw [Bool.or_eq_false_iff] at plain
    exact ⟨plain.2, value_pos valid, value_le_one valid⟩
  · rintro ⟨positive, some, bound⟩
    have signless : factor.bits.toNat < 2 ^ 31 :=
      Nat.lt_of_not_le (of_decide_eq_false positive)
    refine valid_iff.2 ⟨Nat.pos_of_ne_zero fun zero => ?_, Nat.le_of_not_lt fun above => ?_⟩
    · have nothing : factor.significand = 0 := by
        rw [significand, if_pos (by omega)]
        omega
      rw [value_eq, nothing, Nat.cast_zero, zero_mul, zero_div] at some
      exact lt_irrefl 0 some
    · -- the bits of one are the last that are not too many
      have leading : factor.significand = factor.fraction + 2 ^ 23 := by
        rw [significand, if_neg (by omega)]
      have weight : factor.weight = factor.exponentField := Nat.max_eq_left (by omega)
      rw [value_le_one_iff, leading, weight] at bound
      by_cases one : factor.exponentField = 127
      · rw [one] at bound
        omega
      · have power : 2 ^ 128 ≤ 2 ^ factor.exponentField :=
          Nat.pow_le_pow_right Nat.two_pos (by omega)
        have product := Nat.mul_le_mul (Nat.le_add_left (2 ^ 23) factor.fraction) power
        omega

end LoadFactor

end PackedTable
