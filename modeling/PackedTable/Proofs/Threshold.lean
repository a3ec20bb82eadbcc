import Mathlib.Data.Nat.Log
import Mathlib.Tactic.Ring
import PackedTable.Binding
import PackedTable.Load

/-!
The threshold of a table. Rounding keeps the order of numbers, so under every load factor a table
with more slots takes at least as many elements.

Under the load factor one the threshold is the capacity. A capacity below `2 ^ 53` is not rounded. A
larger one is one less than a multiple of a high power of two, and is rounded up to that multiple.
In both cases the least threshold that is not below the product is the capacity itself.
-/

namespace PackedTable

namespace Rounding

theorem nearestEven_of_dvd {precision n : Nat} (divides : lastBit precision n ∣ n) :
    nearestEven precision n = n := by
  have whole := Nat.div_mul_cancel divides
  have lost := Nat.mod_eq_zero_of_dvd divides
  have positive : 0 < lastBit precision n := Nat.two_pow_pos _
  simp only [nearestEven, lost]
  rw [if_pos (Or.inl positive), whole]

theorem nearestEven_mul_two_pow {precision m : Nat} (short : m < 2 ^ precision) (k : Nat) :
    nearestEven precision (m * 2 ^ k) = m * 2 ^ k := by
  apply nearestEven_of_dvd
  by_cases zero : m * 2 ^ k = 0
  · rw [zero]
    exact Nat.dvd_zero _
  · have bound : m * 2 ^ k < 2 ^ (precision + k) := by
      rw [Nat.pow_add]
      exact Nat.mul_lt_mul_of_pos_right short (Nat.two_pow_pos k)
    have bits := (Nat.log2_lt zero).2 bound
    have enough : (m * 2 ^ k).log2 + 1 - precision ≤ k := by omega
    exact Nat.dvd_trans (Nat.pow_dvd_pow 2 enough) (Nat.dvd_mul_left _ _)

theorem nearestEven_of_succ {precision n half exponent : Nat}
    (bits : n.log2 + 1 = precision + exponent) (positive : 0 < exponent)
    (next : n + 1 = 2 * half * 2 ^ exponent) : nearestEven precision n = n + 1 := by
  have unit : lastBit precision n = 2 ^ exponent := by
    rw [lastBit, bits, Nat.add_sub_cancel_left]
  have big : 2 ≤ 2 ^ exponent := Nat.le_self_pow (Nat.ne_of_gt positive) 2
  have some : 0 < half := by
    refine Nat.pos_of_ne_zero fun zero => ?_
    rw [zero] at next
    omega
  have split : n = 2 ^ exponent * (2 * half - 1) + (2 ^ exponent - 1) := by
    have step : 2 ^ exponent * (2 * half - 1 + 1) = n + 1 := by
      rw [Nat.sub_add_cancel (by omega), next, Nat.mul_comm]
    rw [Nat.mul_succ] at step
    omega
  have kept : n / 2 ^ exponent = 2 * half - 1 := by
    rw [split, Nat.mul_add_div (by omega), Nat.div_eq_of_lt (by omega), Nat.add_zero]
  have lost : n % 2 ^ exponent = 2 ^ exponent - 1 := by
    rw [split, Nat.mul_add_mod]
    exact Nat.mod_eq_of_lt (by omega)
  simp only [nearestEven, unit, kept, lost]
  rw [if_neg (by omega), Nat.sub_add_cancel (by omega), next]

theorem nearestEven_bounds (precision n : Nat) :
    n / lastBit precision n * lastBit precision n ≤ nearestEven precision n ∧
      nearestEven precision n ≤ (n / lastBit precision n + 1) * lastBit precision n := by
  have step := Nat.mul_le_mul_right (lastBit precision n) (Nat.le_succ (n / lastBit precision n))
  unfold nearestEven
  dsimp only
  split
  · exact ⟨Nat.le_refl _, step⟩
  · exact ⟨step, Nat.le_refl _⟩

theorem nearestEven_le_of_dvd {precision n m : Nat} (divides : lastBit precision n ∣ m)
    (bound : n ≤ m) : nearestEven precision n ≤ m := by
  obtain ⟨count, rfl⟩ := divides
  have positive : 0 < lastBit precision n := Nat.two_pow_pos _
  rcases Nat.eq_or_lt_of_le bound with reached | below
  · rw [nearestEven_of_dvd ⟨count, reached⟩]
    exact bound
  · rw [Nat.mul_comm] at below ⊢
    have room := Nat.succ_le_of_lt ((Nat.div_lt_iff_lt_mul positive).2 below)
    exact Nat.le_trans (nearestEven_bounds precision n).2 (Nat.mul_le_mul_right _ room)

theorem le_nearestEven_of_dvd {precision n m : Nat} (divides : lastBit precision n ∣ m)
    (bound : m ≤ n) : m ≤ nearestEven precision n := by
  obtain ⟨count, rfl⟩ := divides
  have positive : 0 < lastBit precision n := Nat.two_pow_pos _
  rw [Nat.mul_comm] at bound ⊢
  have room := (Nat.le_div_iff_mul_le positive).2 bound
  exact Nat.le_trans (Nat.mul_le_mul_right _ room) (nearestEven_bounds precision n).1

/-- Among numbers of the same last bit, what is rounded down decides. -/
theorem nearestEven_mono_of_lastBit {precision a b : Nat} (ordered : a ≤ b)
    (same : lastBit precision a = lastBit precision b) :
    nearestEven precision a ≤ nearestEven precision b := by
  have lower := (nearestEven_bounds precision a).2
  have upper := (nearestEven_bounds precision b).1
  rw [same] at lower
  rcases Nat.eq_or_lt_of_le (Nat.div_le_div_right (c := lastBit precision b) ordered) with
    equal | less
  · have parts := Nat.div_add_mod a (lastBit precision b)
    have parts' := Nat.div_add_mod b (lastBit precision b)
    rw [equal] at parts
    have lost : a % lastBit precision b ≤ b % lastBit precision b := by omega
    have step := Nat.mul_le_mul_right (lastBit precision b) (Nat.le_succ (b / lastBit precision b))
    simp only [nearestEven, same, equal]
    split
    case isTrue => split <;> omega
    case isFalse => rw [if_neg (by omega)]
  · exact Nat.le_trans lower (Nat.le_trans (Nat.mul_le_mul_right _ less) upper)

theorem nearestEven_mono {precision a b : Nat} (positive : 0 < precision) (ordered : a ≤ b) :
    nearestEven precision a ≤ nearestEven precision b := by
  have bits : a.log2 ≤ b.log2 := by
    rw [Nat.log2_eq_log_two, Nat.log2_eq_log_two]
    exact Nat.log_mono_right ordered
  rcases Nat.eq_or_lt_of_le bits with same | shorter
  · exact nearestEven_mono_of_lastBit ordered (by rw [lastBit, lastBit, same])
  · -- the leading bit of the larger number lies between the two, and is rounded to itself
    have some : b ≠ 0 := by
      rintro rfl
      exact absurd shorter (by simp)
    have below : a ≤ 2 ^ b.log2 := Nat.le_of_lt (Nat.lt_of_lt_of_le Nat.lt_log2_self
      (Nat.pow_le_pow_right Nat.two_pos shorter))
    calc
      nearestEven precision a ≤ 2 ^ b.log2 :=
        nearestEven_le_of_dvd (Nat.pow_dvd_pow 2 (by omega)) below
      _ ≤ nearestEven precision b :=
        le_nearestEven_of_dvd (Nat.pow_dvd_pow 2 (by omega)) (Nat.log2_self_le some)

theorem ceilDiv_mono {a b : Nat} (ordered : a ≤ b) (unit : Nat) : ceilDiv a unit ≤ ceilDiv b unit :=
  Nat.div_le_div_right (by omega)

theorem ceilDiv_mul {n unit : Nat} (positive : 0 < unit) : ceilDiv (n * unit) unit = n := by
  rw [ceilDiv, Nat.add_sub_assoc positive, Nat.mul_comm, Nat.mul_add_div positive,
    Nat.div_eq_of_lt (by omega), Nat.add_zero]

end Rounding

/-- The whole capacity. -/
def LoadFactor.one : LoadFactor := ⟨0x3f800000⟩

namespace Load

open Rounding

/-- What a double keeps of the capacity of `2 ^ scale` groups is short, and not less than it. -/
theorem nearestEven_capacity {capacity slots scale : Nat} (few : slots ≤ 15)
    (whole : capacity + 1 = 2 ^ scale * slots) :
    ∃ m k, m < 2 ^ 53 ∧ nearestEven 53 capacity = m * 2 ^ k ∧ capacity ≤ m * 2 ^ k := by
  by_cases short : capacity < 2 ^ 53
  · refine ⟨capacity, 0, short, ?_, ?_⟩
    · rw [nearestEven_of_short short (by decide), Nat.pow_zero, Nat.mul_one]
    · rw [Nat.pow_zero, Nat.mul_one]
  · have zero : capacity ≠ 0 := by omega
    have low : 53 ≤ capacity.log2 := (Nat.le_log2 zero).2 (by omega)
    have high : capacity.log2 < scale + 4 := by
      refine (Nat.log2_lt zero).2 ?_
      have step := Nat.mul_le_mul_left (2 ^ scale) few
      rw [Nat.pow_add]
      omega
    obtain ⟨exponent, bits⟩ := Nat.exists_eq_add_of_le (show 53 ≤ capacity.log2 + 1 by omega)
    obtain ⟨above, scaled⟩ := Nat.exists_eq_add_of_le (show exponent + 1 ≤ scale by omega)
    have next : capacity + 1 = 2 * (2 ^ above * slots) * 2 ^ exponent := by
      rw [whole, scaled]
      ring
    refine ⟨slots, scale, by omega, ?_, by rw [Nat.mul_comm]; omega⟩
    rw [nearestEven_of_succ bits (by omega) next, whole, Nat.mul_comm]

/-- A table with more slots takes at least as many elements. -/
theorem threshold_mono {capacity capacity' : Nat} (ordered : capacity ≤ capacity')
    (factor : LoadFactor) : threshold capacity factor ≤ threshold capacity' factor := by
  have kept := nearestEven_mono (show 0 < 53 by decide) ordered
  have product := nearestEven_mono (show 0 < 53 by decide)
    (Nat.mul_le_mul_right factor.significand kept)
  have scaled := ceilDiv_mono (Nat.mul_le_mul_right (2 ^ factor.weight) product) (2 ^ 150)
  unfold threshold
  dsimp only
  split
  · exact Nat.le_refl 0
  · split
    · exact ordered
    · omega

theorem threshold_one {capacity slots scale : Nat} (few : slots ≤ 15)
    (whole : capacity + 1 = 2 ^ scale * slots) : threshold capacity .one = capacity := by
  obtain ⟨m, k, short, rounded, enough⟩ := nearestEven_capacity few whole
  have plain : (LoadFactor.one.notANumber || LoadFactor.one.negative) = false := by decide
  have finite : LoadFactor.one.infinite = false := by decide
  have significand : LoadFactor.one.significand = 2 ^ 23 := by decide
  have weight : LoadFactor.one.weight = 127 := by decide
  have product : m * 2 ^ k * 2 ^ 23 = m * 2 ^ (k + 23) := by ring
  have quotient : m * 2 ^ (k + 23) * 2 ^ 127 = m * 2 ^ k * 2 ^ 150 := by ring
  simp only [threshold, plain, finite, Bool.false_eq_true, ↓reduceIte, rounded, significand,
    weight, product, nearestEven_mul_two_pow short, quotient]
  rw [ceilDiv_mul (Nat.two_pow_pos 150)]
  exact Nat.min_eq_right enough

end Load

theorem Binding.threshold_one {shape : Shape} {length : Nat} (binding : Binding shape length) :
    Load.threshold binding.capacity .one = binding.capacity :=
  Load.threshold_one binding.width.le_fifteen binding.capacity_succ

end PackedTable
