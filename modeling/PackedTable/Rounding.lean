import PackedTable.Word

/-!
Rounding a natural number to a given count of significant bits, to the nearest and on a tie to
the even neighbour. A number that already has no more bits than that is left alone.
-/

namespace PackedTable.Rounding

/-- The weight of the last bit kept. -/
def lastBit (precision n : Nat) : Nat := 2 ^ (n.log2 + 1 - precision)

def nearestEven (precision n : Nat) : Nat :=
  let unit := lastBit precision n
  let kept := n / unit
  let lost := n % unit
  if 2 * lost < unit ∨ (2 * lost = unit ∧ kept % 2 = 0) then kept * unit else (kept + 1) * unit

def ceilDiv (n unit : Nat) : Nat := (n + unit - 1) / unit

theorem lastBit_eq_one {precision n : Nat} (short : n < 2 ^ precision) (positive : 0 < precision) :
    lastBit precision n = 1 := by
  have bits : n.log2 < precision := by
    by_cases zero : n = 0
    · simpa [zero] using positive
    · exact (Nat.log2_lt zero).2 short
  unfold lastBit
  rw [show n.log2 + 1 - precision = 0 by omega, Nat.pow_zero]

theorem nearestEven_of_short {precision n : Nat} (short : n < 2 ^ precision)
    (positive : 0 < precision) : nearestEven precision n = n := by
  simp [nearestEven, lastBit_eq_one short positive, Nat.mod_one]

end PackedTable.Rounding
