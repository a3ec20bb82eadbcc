/-!
Arithmetic of a 64-bit machine word, written on natural numbers. A checked operation answers
`none` exactly when its exact result does not fit into a word.
-/

namespace PackedTable.Word

/-- Powers of numbers are the built-in ones, whatever other powers are in scope. -/
@[default_instance 20000]
instance (priority := 2000) instPow : Pow Nat Nat := instPowNat

/-- The number of values of a word: a number fits when it is below this. -/
def limit : Nat := 2 ^ 64

def fit? (n : Nat) : Option Nat := if n < limit then some n else none

def add? (a b : Nat) : Option Nat := fit? (a + b)

def mul? (a b : Nat) : Option Nat := fit? (a * b)

/-- A difference below zero does not fit either. -/
def sub? (a b : Nat) : Option Nat := if b ≤ a then some (a - b) else none

/-- The difference as a word holds it, wrapping around below zero. -/
def sub (a b : Nat) : Nat := (a + limit - b % limit) % limit

/-- The smallest multiple of `unit` that is at least `n`. -/
def roundUp (n unit : Nat) : Nat := (n + unit - 1) / unit * unit

/-- There is no multiple of zero to round up to. -/
def roundUp? (n unit : Nat) : Option Nat :=
  if unit = 0 then none else fit? (roundUp n unit)

theorem fit?_eq_some {n m : Nat} : fit? n = some m ↔ n < limit ∧ m = n := by
  unfold fit?
  split
  case isTrue small => simp [small, eq_comm]
  case isFalse large => simp [large]

theorem roundUp?_eq_some {n unit m : Nat} (found : roundUp? n unit = some m) :
    0 < unit ∧ m < limit ∧ m = roundUp n unit := by
  unfold roundUp? at found
  split at found
  · contradiction
  · have bound := fit?_eq_some.1 found
    exact ⟨by omega, bound.2 ▸ bound.1, bound.2⟩

theorem le_roundUp (n : Nat) {unit : Nat} (positive : 0 < unit) : n ≤ roundUp n unit := by
  have division := Nat.div_add_mod (n + unit - 1) unit
  have remainder := Nat.mod_lt (n + unit - 1) positive
  rw [Nat.mul_comm] at division
  unfold roundUp
  omega

theorem dvd_roundUp (n unit : Nat) : unit ∣ roundUp n unit := ⟨_, Nat.mul_comm _ _⟩

theorem sub_eq {a b : Nat} (ordered : b ≤ a) (bound : a < limit) : sub a b = a - b := by
  have small : b % limit = b := Nat.mod_eq_of_lt (by omega)
  unfold sub
  rw [small, show a + limit - b = a - b + limit by omega, Nat.add_mod_right]
  exact Nat.mod_eq_of_lt (by omega)

end PackedTable.Word
