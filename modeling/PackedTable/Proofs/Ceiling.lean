import Mathlib.Algebra.Order.Floor.Div
import Mathlib.Data.Int.Log
import Mathlib.Data.Rat.Floor
import PackedTable.Proofs.FactorValue
import PackedTable.Proofs.Threshold

/-!
How far a threshold is from the exact one, which is the product of the capacity and the load
factor, rounded up. A product has up to 77 bits, and a double keeps 53 of them. With the others all
that lies above a whole number may be lost, and then nothing is left that could be rounded up: the
threshold is less by one than it should be. `Load.Shaved` tells the products to which this happens,
in exact arithmetic. It is all in which the two thresholds differ, and it happens to no product that
fits into 53 bits, so to no table of at most `2 ^ 29` slots.
-/

namespace PackedTable

namespace Rounding

variable {precision n divisor : Nat}

/-! ### A rounded number over a divisor -/

/-- Rounding takes off what lies above a multiple of the divisor if that is less than half of the
last bit, or half of it while the bits that are kept are even. -/
theorem nearestEven_eq_floor_iff (divides : lastBit precision n ∣ divisor) :
    nearestEven precision n = n / divisor * divisor ↔
      2 * (n % divisor) < lastBit precision n ∨
        2 * (n % divisor) = lastBit precision n ∧
          n / divisor * divisor / lastBit precision n % 2 = 0 := by
  have positive : 0 < lastBit precision n := Nat.two_pow_pos _
  have split := Nat.div_add_mod' n divisor
  have below : lastBit precision n ∣ n / divisor * divisor := Dvd.dvd.mul_left divides _
  by_cases less : n % divisor < lastBit precision n
  · obtain ⟨count, multiple⟩ := below
    obtain ⟨kept, lost⟩ : n / lastBit precision n = count ∧
        n % lastBit precision n = n % divisor := by
      apply (Nat.div_mod_unique positive).2
      exact ⟨by rw [← multiple, Nat.add_comm, split], less⟩
    have next : count * lastBit precision n < (count + 1) * lastBit precision n :=
      Nat.mul_lt_mul_of_pos_right (Nat.lt_succ_self count) positive
    rw [multiple, Nat.mul_div_cancel_left _ positive]
    simp only [nearestEven, kept, lost]
    rw [Nat.mul_comm (lastBit precision n) count]
    split
    case isTrue down => exact iff_of_true rfl down
    case isFalse up => exact iff_of_false (Nat.ne_of_gt next) up
  · have above : n / divisor * divisor + lastBit precision n ≤ nearestEven precision n :=
      le_nearestEven_of_dvd (Nat.dvd_add below (Nat.dvd_refl _)) (by omega)
    exact iff_of_false (by omega) (by omega)

theorem ceilDiv_le_iff (positive : 0 < divisor) {count : Nat} :
    ceilDiv n divisor ≤ count ↔ n ≤ divisor * count := by
  have same : ceilDiv n divisor = n ⌈/⌉ divisor := (Nat.ceilDiv_eq_add_pred_div n divisor).symm
  rw [same]
  exact ceilDiv_le_iff_le_mul positive

theorem ceilDiv_mul_mul (n : Nat) {factor : Nat} (positive : 0 < divisor) (some : 0 < factor) :
    ceilDiv (n * factor) (divisor * factor) = ceilDiv n divisor := by
  apply eq_of_forall_ge_iff
  intro count
  rw [ceilDiv_le_iff (Nat.mul_pos positive some), ceilDiv_le_iff positive, Nat.mul_right_comm]
  exact Nat.mul_le_mul_right_iff some

theorem ceilDiv_eq_succ (positive : 0 < divisor) {count : Nat} (above : divisor * count < n)
    (below : n ≤ divisor * (count + 1)) : ceilDiv n divisor = count + 1 := by
  apply Nat.le_antisymm
  · exact (ceilDiv_le_iff positive).2 below
  · by_contra fewer
    have reached := (ceilDiv_le_iff positive).1 (Nat.lt_succ_iff.1 (Nat.lt_of_not_le fewer))
    omega

/-- The quotient of a rounded number, rounded up, is the one of the number itself, or less by one if
rounding has taken off all that would have been rounded up. -/
theorem ceilDiv_nearestEven (divides : lastBit precision n ∣ divisor) (positive : 0 < divisor) :
    ceilDiv (nearestEven precision n) divisor +
        (if 0 < n % divisor ∧ nearestEven precision n = n / divisor * divisor then 1 else 0) =
      ceilDiv n divisor := by
  have split := Nat.div_add_mod n divisor
  have inside := Nat.mod_lt n positive
  have next : divisor * (n / divisor + 1) = divisor * (n / divisor) + divisor :=
    Nat.mul_succ divisor _
  have lower : divisor * (n / divisor) ≤ nearestEven precision n :=
    le_nearestEven_of_dvd (Dvd.dvd.mul_right divides _) (by omega)
  have upper : nearestEven precision n ≤ divisor * (n / divisor + 1) :=
    nearestEven_le_of_dvd (Dvd.dvd.mul_right divides _) (by omega)
  rw [Nat.mul_comm (n / divisor)]
  by_cases rest : 0 < n % divisor
  · have exact : ceilDiv n divisor = n / divisor + 1 :=
      ceilDiv_eq_succ positive (by omega) (by omega)
    by_cases down : nearestEven precision n = divisor * (n / divisor)
    · rw [if_pos ⟨rest, down⟩, exact, down, Nat.mul_comm, ceilDiv_mul positive]
    · rw [if_neg (fun taken => down taken.2), exact]
      exact ceilDiv_eq_succ positive (Nat.lt_of_le_of_ne lower (Ne.symm down)) upper
  · have whole : lastBit precision n ∣ n :=
      Nat.dvd_trans divides (Nat.dvd_of_mod_eq_zero (by omega))
    rw [if_neg (fun taken => rest taken.1), nearestEven_of_dvd whole, Nat.add_zero]

theorem lastBit_dvd {bits : Nat} (positive : 0 < precision) (short : n < 2 ^ (precision + bits)) :
    lastBit precision n ∣ 2 ^ bits := by
  apply Nat.pow_dvd_pow
  by_cases zero : n = 0
  · rw [zero, Nat.log2_zero]
    omega
  · have length := (Nat.log2_lt zero).2 short
    omega

end Rounding

namespace Load

open Rounding

/-! ### Numbers that a double cannot tell from the whole number below them -/

/-- How far apart the numbers of 53 bits are around a number above zero. -/
def spacing (x : ℚ) : ℚ := 2 ^ (Int.log 2 x - 52)

/-- A number below `2 ^ 53` that lies above a whole one, but so close to it that the nearest number
of 53 bits is the whole one. Half way between two of them, the one whose last bit is zero counts as
the nearest. That is the whole one, unless the last bit itself is a whole one: then it has to be
even. -/
def Shaved (x : ℚ) : Prop :=
  0 < Int.fract x ∧
    (2 * Int.fract x < spacing x ∨
      2 * Int.fract x = spacing x ∧ (spacing x < 1 ∨ Even ⌊x⌋))

instance (x : ℚ) : Decidable (Shaved x) := inferInstanceAs (Decidable (_ ∧ _))

section

variable {n bits : Nat}

theorem log_div_two_pow (positive : 0 < n) (bits : Nat) :
    Int.log 2 ((n : ℚ) / (2 ^ bits : Nat)) = n.log2 - bits := by
  have lower : (2 : ℚ) ^ n.log2 ≤ n := by exact_mod_cast Nat.log2_self_le (by omega)
  have upper : (n : ℚ) < 2 ^ (n.log2 + 1) := by exact_mod_cast Nat.lt_log2_self
  have power : (0 : ℚ) < 2 ^ bits := by positivity
  have quotient : (0 : ℚ) < n / (2 ^ bits : Nat) := by positivity
  apply le_antisymm
  · apply Int.lt_add_one_iff.1
    rw [← Int.lt_zpow_iff_log_lt (by decide) quotient, sub_add_eq_add_sub, Nat.cast_ofNat,
      zpow_sub₀ two_ne_zero, zpow_natCast, ← Nat.cast_succ, zpow_natCast, Nat.cast_pow,
      Nat.cast_ofNat]
    exact div_lt_div_of_pos_right upper power
  · rw [← Int.zpow_le_iff_le_log (by decide) quotient, Nat.cast_ofNat, zpow_sub₀ two_ne_zero,
      zpow_natCast, zpow_natCast, Nat.cast_pow, Nat.cast_ofNat]
    exact div_le_div_of_nonneg_right lower power.le

theorem spacing_div_two_pow (positive : 0 < n) (bits : Nat) :
    spacing ((n : ℚ) / (2 ^ bits : Nat)) = 2 ^ ((n.log2 : ℤ) - 52) / (2 ^ bits : Nat) := by
  rw [spacing, log_div_two_pow positive, sub_right_comm, zpow_sub₀ two_ne_zero, zpow_natCast,
    Nat.cast_pow, Nat.cast_ofNat]

theorem fract_pos_iff : 0 < Int.fract ((n : ℚ) / (2 ^ bits : Nat)) ↔ 0 < n % 2 ^ bits := by
  rw [Int.fract_div_natCast_eq_div_natCast_mod, div_pos_iff_of_pos_right (by positivity),
    Nat.cast_pos]

theorem two_mul_fract : 2 * Int.fract ((n : ℚ) / (2 ^ bits : Nat)) =
    (2 * (n % 2 ^ bits) : Nat) / (2 ^ bits : Nat) := by
  rw [Int.fract_div_natCast_eq_div_natCast_mod, Nat.cast_mul, Nat.cast_ofNat, mul_div_assoc]

theorem not_shaved_of_short (short : n < 2 ^ 53) (bits : Nat) :
    ¬Shaved ((n : ℚ) / (2 ^ bits : Nat)) := by
  rintro ⟨some, close⟩
  have power : (0 : ℚ) < (2 ^ bits : Nat) := by positivity
  have rest := fract_pos_iff.1 some
  have positive : 0 < n := Nat.lt_of_lt_of_le rest (Nat.mod_le _ _)
  have length : n.log2 < 53 := (Nat.log2_lt (by omega)).2 short
  have fine : spacing ((n : ℚ) / (2 ^ bits : Nat)) ≤ (1 : Nat) / (2 ^ bits : Nat) := by
    rw [spacing_div_two_pow positive, Nat.cast_one]
    exact div_le_div_of_nonneg_right (zpow_le_one_of_nonpos₀ one_le_two (by omega)) power.le
  have near : 2 * Int.fract ((n : ℚ) / (2 ^ bits : Nat)) ≤ (1 : Nat) / (2 ^ bits : Nat) := by
    rcases close with less | ⟨tie, -⟩
    · exact less.le.trans fine
    · exact tie.le.trans fine
  rw [two_mul_fract, div_le_div_iff_of_pos_right power, Nat.cast_le] at near
  omega

theorem tie_iff {exponent : Nat} (fine : exponent ≤ bits) :
    ((2 ^ exponent : Nat) / (2 ^ bits : Nat) < (1 : ℚ) ∨
        Even ⌊(n : ℚ) / (2 ^ bits : Nat)⌋) ↔
      n / 2 ^ bits * 2 ^ bits / 2 ^ exponent % 2 = 0 := by
  have power : (0 : ℚ) < (2 ^ bits : Nat) := by positivity
  rcases Nat.eq_or_lt_of_le fine with same | finer
  · have whole : ¬((2 ^ bits : Nat) / (2 ^ bits : Nat) < (1 : ℚ)) := by
      rw [div_self power.ne']
      exact lt_irrefl 1
    rw [same, or_iff_right whole, Rat.floor_natCast_div_natCast, ← Int.natCast_div,
      Int.even_coe_nat, Nat.even_iff, Nat.mul_div_cancel _ (Nat.two_pow_pos bits)]
  · obtain ⟨more, sum⟩ := Nat.exists_eq_add_of_lt finer
    have scaled : n / 2 ^ bits * 2 ^ bits = 2 ^ exponent * (2 * (n / 2 ^ bits * 2 ^ more)) := by
      rw [sum, Nat.add_right_comm, Nat.pow_add, Nat.pow_add]
      ring
    refine iff_of_true (Or.inl ?_) ?_
    · rw [div_lt_one power]
      exact_mod_cast Nat.pow_lt_pow_right (by decide) finer
    · rw [scaled, Nat.mul_div_cancel_left _ (Nat.two_pow_pos exponent), Nat.mul_mod_right]

theorem shaved_iff (short : n < 2 ^ (53 + bits)) :
    Shaved ((n : ℚ) / (2 ^ bits : Nat)) ↔
      0 < n % 2 ^ bits ∧ nearestEven 53 n = n / 2 ^ bits * 2 ^ bits := by
  by_cases kept : n < 2 ^ 53
  · refine iff_of_false (not_shaved_of_short kept bits) ?_
    rintro ⟨rest, same⟩
    rw [nearestEven_of_short kept (by decide)] at same
    have split := Nat.div_add_mod' n (2 ^ bits)
    omega
  · have positive : 0 < n := by omega
    have length : 53 ≤ n.log2 := (Nat.le_log2 (by omega)).2 (by omega)
    obtain ⟨exponent, sum⟩ := Nat.exists_eq_add_of_le (show 52 ≤ n.log2 by omega)
    have unit : lastBit 53 n = 2 ^ exponent := by
      rw [lastBit, sum]
      congr 1
      omega
    have divides := lastBit_dvd (by decide) short
    have power : (0 : ℚ) < (2 ^ bits : Nat) := by positivity
    have apart : spacing ((n : ℚ) / (2 ^ bits : Nat)) =
        (2 ^ exponent : Nat) / (2 ^ bits : Nat) := by
      rw [spacing_div_two_pow positive, sum]
      push_cast
      rw [add_sub_cancel_left, zpow_natCast]
    have fine : exponent ≤ bits := (Nat.pow_dvd_pow_iff_le_right (by decide)).1 (unit ▸ divides)
    rw [nearestEven_eq_floor_iff divides, unit, Shaved, apart, fract_pos_iff, two_mul_fract,
      div_lt_div_iff_of_pos_right power, Nat.cast_lt, div_left_inj' power.ne', Nat.cast_inj,
      tie_iff fine]

end

/-! ### The exact threshold -/

theorem ceil_div (n : Nat) {divisor : Nat} (positive : 0 < divisor) :
    ⌈(n : ℚ) / divisor⌉₊ = ceilDiv n divisor := by
  apply eq_of_forall_ge_iff
  intro count
  rw [Nat.ceil_le, div_le_iff₀ (by exact_mod_cast positive), ceilDiv_le_iff positive,
    Nat.mul_comm divisor]
  exact_mod_cast Iff.rfl

section

variable {factor : LoadFactor} {capacity : Nat} (valid : factor.valid = true)
include valid

theorem product_eq (capacity : Nat) :
    capacity * factor.value =
      (capacity * factor.significand : Nat) / (2 ^ (150 - factor.weight) : Nat) := by
  rw [LoadFactor.value_eq_div valid, mul_div_assoc', Nat.cast_mul]

theorem product_le (capacity : Nat) :
    capacity * factor.significand ≤ 2 ^ (150 - factor.weight) * capacity := by
  rw [Nat.mul_comm capacity]
  exact Nat.mul_le_mul_right _ (LoadFactor.significand_le valid)

theorem ceil_product_le (capacity : Nat) : ⌈capacity * factor.value⌉₊ ≤ capacity := by
  have power := Nat.two_pow_pos (150 - factor.weight)
  rw [product_eq valid, ceil_div _ power, ceilDiv_le_iff power]
  exact product_le valid capacity

section

variable (small : capacity < 2 ^ 53)
include small

theorem product_lt : capacity * factor.significand < 2 ^ (53 + (150 - factor.weight)) := by
  have power := Nat.two_pow_pos (150 - factor.weight)
  calc
    capacity * factor.significand ≤ 2 ^ (150 - factor.weight) * capacity :=
      product_le valid capacity
    _ < 2 ^ (150 - factor.weight) * 2 ^ 53 := Nat.mul_lt_mul_of_pos_left small power
    _ = 2 ^ (53 + (150 - factor.weight)) := by rw [Nat.pow_add, Nat.mul_comm]

theorem threshold_eq :
    threshold capacity factor =
      ceilDiv (nearestEven 53 (capacity * factor.significand)) (2 ^ (150 - factor.weight)) := by
  have power := Nat.two_pow_pos (150 - factor.weight)
  have weight := LoadFactor.weight_le valid
  have divides := lastBit_dvd (by decide) (product_lt valid small)
  obtain ⟨plain, finite⟩ := LoadFactor.not_special valid
  have split : 2 ^ 150 = 2 ^ (150 - factor.weight) * 2 ^ factor.weight := by
    rw [← Nat.pow_add, Nat.sub_add_cancel (by omega)]
  have bound : ceilDiv (nearestEven 53 (capacity * factor.significand))
      (2 ^ (150 - factor.weight)) ≤ capacity := by
    rw [ceilDiv_le_iff power]
    exact nearestEven_le_of_dvd (Dvd.dvd.mul_right divides _) (product_le valid capacity)
  simp only [threshold, plain, finite, Bool.false_eq_true, ↓reduceIte,
    nearestEven_of_short small (by decide)]
  rw [split, ceilDiv_mul_mul _ power (Nat.two_pow_pos factor.weight), Nat.min_eq_left bound]

/-- The threshold is the exact one, or less by one if a double cannot tell the exact product from
the whole number below it. -/
theorem threshold_add_shaved :
    threshold capacity factor + (if Shaved (capacity * factor.value) then 1 else 0) =
      ⌈capacity * factor.value⌉₊ := by
  have power := Nat.two_pow_pos (150 - factor.weight)
  have short := product_lt valid small
  have divides := lastBit_dvd (by decide) short
  rw [product_eq valid, ceil_div _ power, threshold_eq valid small,
    ← ceilDiv_nearestEven divides power]
  simp only [shaved_iff short]

theorem threshold_of_short (short : capacity * factor.significand < 2 ^ 53) :
    threshold capacity factor = ⌈capacity * factor.value⌉₊ := by
  have kept : ¬Shaved (capacity * factor.value) := by
    rw [product_eq valid]
    exact not_shaved_of_short short _
  rw [← threshold_add_shaved valid small, if_neg kept, Nat.add_zero]

end

end

theorem product_lt_of_few {capacity : Nat} (few : capacity ≤ 2 ^ 29) (factor : LoadFactor) :
    capacity * factor.significand < 2 ^ 53 := by
  calc
    capacity * factor.significand ≤ 2 ^ 29 * factor.significand := Nat.mul_le_mul_right _ few
    _ < 2 ^ 29 * 2 ^ 24 := Nat.mul_lt_mul_of_pos_left factor.significand_lt (Nat.two_pow_pos 29)
    _ = 2 ^ 53 := by norm_num

theorem standard_product_eq (capacity : Nat) :
    capacity * LoadFactor.standard.value = (7 * capacity : Nat) / (2 ^ 3 : Nat) := by
  have significand : LoadFactor.standard.significand = 7 * 2 ^ 21 := by decide
  have weight : LoadFactor.standard.weight = 126 := by decide
  rw [LoadFactor.value_eq, significand, weight]
  push_cast
  ring

theorem ceil_standard (capacity : Nat) :
    ⌈capacity * LoadFactor.standard.value⌉₊ = ceilDiv (7 * capacity) 8 := by
  rw [standard_product_eq, ceil_div _ (by decide)]
  rfl

theorem threshold_standard {capacity : Nat} (short : 7 * capacity < 2 ^ 53) :
    threshold capacity .standard = ⌈capacity * LoadFactor.standard.value⌉₊ := by
  have kept : ¬Shaved (capacity * LoadFactor.standard.value) := by
    rw [standard_product_eq]
    exact not_shaved_of_short short 3
  have sum := threshold_add_shaved (show LoadFactor.standard.valid = true by decide)
    (show capacity < 2 ^ 53 by omega)
  rwa [if_neg kept, Nat.add_zero] at sum

/-- Under a factor above zero and up to one, and for a capacity of at most 53 bits, the threshold is
the exact product, rounded up, or less by one; and it is less exactly if a double cannot tell the
product from the whole number below it. That takes a product of more than 53 bits, so more than
`2 ^ 29` slots. Under the standard factor the exact threshold is seven eighths of the capacity,
rounded up, and it is the threshold as long as seven times the capacity has no more than 53 bits. -/
theorem threshold_ceiling {factor : LoadFactor} (sign : factor.negative = false)
    (above : 0 < factor.value) (most : factor.value ≤ 1) {capacity : Nat}
    (small : capacity < 2 ^ 53) :
    let exact := ⌈capacity * factor.value⌉₊
    factor.check = .ok factor ∧ exact ≤ capacity ∧
    threshold capacity factor + (if Shaved (capacity * factor.value) then 1 else 0) = exact ∧
    (capacity * factor.significand < 2 ^ 53 → threshold capacity factor = exact) ∧
    (capacity ≤ 2 ^ 29 → threshold capacity factor = exact) ∧
    (factor = .standard → exact = ceilDiv (7 * capacity) 8 ∧
      (7 * capacity < 2 ^ 53 → threshold capacity factor = exact)) := by
  intro exact
  have valid := LoadFactor.valid_iff_value.2 ⟨sign, above, most⟩
  refine ⟨if_pos valid, ceil_product_le valid capacity, threshold_add_shaved valid small,
    threshold_of_short valid small, ?_, ?_⟩
  · intro few
    exact threshold_of_short valid small (product_lt_of_few few factor)
  · rintro rfl
    exact ⟨ceil_standard capacity, threshold_standard⟩

/-- With the factor next below one, a table of `2 ^ 27` groups of eight slots takes one element less
than the exact product says. A small table takes seven eighths, rounded up. -/
theorem large_threshold_ceiling :
    let factor : LoadFactor := ⟨0x3f7fffff⟩
    let capacity : Nat := 2 ^ 30 - 1
    (factor.negative = false ∧ 0 < factor.value ∧ factor.value ≤ 1 ∧ capacity < 2 ^ 53 ∧
      Shaved (capacity * factor.value) ∧
      threshold capacity factor + 1 = ⌈capacity * factor.value⌉₊) ∧
    LoadFactor.standard.negative = false ∧ 0 < LoadFactor.standard.value ∧
      LoadFactor.standard.value ≤ 1 ∧ 29 < 2 ^ 53 ∧ threshold 29 .standard = 26 := by
  intro factor capacity
  have sign : factor.negative = false := by decide
  have above : 0 < factor.value := by decide +kernel
  have most : factor.value ≤ 1 := by decide +kernel
  have small : capacity < 2 ^ 53 := by decide
  have shaved : Shaved (capacity * factor.value) := by decide +kernel
  obtain ⟨-, -, sum, -⟩ := threshold_ceiling sign above most small
  rw [if_pos shaved] at sum
  have sign' : LoadFactor.standard.negative = false := by decide
  have above' : 0 < LoadFactor.standard.value := by decide +kernel
  have most' : LoadFactor.standard.value ≤ 1 := by decide +kernel
  obtain ⟨-, -, -, -, few, eighths⟩ :=
    threshold_ceiling sign' above' most' (show 29 < 2 ^ 53 by decide)
  have same := few (by decide)
  rw [(eighths rfl).1] at same
  exact ⟨⟨sign, above, most, small, shaved, sum⟩, sign', above', most', by decide, same⟩

/-- The threshold is not always the exact product, rounded up: not with `2 ^ 30 - 1` slots under
every factor, and not under the standard factor where seven times the capacity has more than 53
bits. -/
theorem threshold_below_ceiling :
    let factor : LoadFactor := ⟨0x3f7fffff⟩
    let capacity : Nat := 2 ^ 30 - 1
    let capacity' : Nat := 2 ^ 51 - 1
    (factor.negative = false ∧ factor.value = 1 - 1 / 2 ^ 24 ∧ capacity < 2 ^ 53 ∧
      threshold capacity factor = 2 ^ 30 - 65 ∧ ⌈capacity * factor.value⌉₊ = 2 ^ 30 - 64) ∧
    LoadFactor.standard.value = 7 / 8 ∧ capacity' < 2 ^ 53 ∧
      threshold capacity' .standard = 7 * 2 ^ 48 - 1 ∧
      ⌈capacity' * LoadFactor.standard.value⌉₊ = 7 * 2 ^ 48 := by
  decide +kernel

end Load

end PackedTable
