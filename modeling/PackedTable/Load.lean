import PackedTable.Error
import PackedTable.Rounding

/-!
How full a table may get, and how full it is. A load factor is a single-precision number, given
by its bits; the threshold is the product with the capacity in double precision, rounded up.
The arithmetic is on natural numbers: `Rounding.nearestEven 53` is what a double keeps of a
number, and `Rounding.nearestEven 24` what a single keeps.
-/

namespace PackedTable

structure LoadFactor where
  bits : UInt32
deriving DecidableEq

namespace LoadFactor

/-- Seven eighths. -/
def standard : LoadFactor := ⟨0x3f600000⟩

def negative (factor : LoadFactor) : Bool := 0x80000000 ≤ factor.bits

def exponentField (factor : LoadFactor) : Nat := (factor.bits >>> 23 &&& 0xFF).toNat

def fraction (factor : LoadFactor) : Nat := (factor.bits &&& 0x7FFFFF).toNat

def infinite (factor : LoadFactor) : Bool := factor.exponentField == 255 && factor.fraction == 0

def notANumber (factor : LoadFactor) : Bool := factor.exponentField == 255 && factor.fraction != 0

/-- The significand of a finite factor, with its leading one if it has one. -/
def significand (factor : LoadFactor) : Nat :=
  if factor.exponentField = 0 then factor.fraction else factor.fraction + 2 ^ 23

/-- A finite factor is `significand * 2 ^ weight / 2 ^ 150` apart from its sign. -/
def weight (factor : LoadFactor) : Nat := max factor.exponentField 1

/-- Above zero and at most one. The bits of positive numbers are ordered as the numbers are. -/
def valid (factor : LoadFactor) : Bool := 0 < factor.bits && factor.bits ≤ 0x3f800000

/-- A factor that a table can be created with. -/
def check (factor : LoadFactor) : Except Fault LoadFactor :=
  if factor.valid then .ok factor else .error .loadFactorOutOfRange

end LoadFactor

namespace Load

/-- The number of elements at which a table of a given capacity is full. -/
def threshold (capacity : Nat) (factor : LoadFactor) : Nat :=
  if factor.notANumber || factor.negative then 0
  else if factor.infinite then capacity
  else
    let product := Rounding.nearestEven 53 (Rounding.nearestEven 53 capacity * factor.significand)
    min (Rounding.ceilDiv (product * 2 ^ factor.weight) (2 ^ 150)) capacity

/-- The single-precision bits of `part / whole`, both rounded to single precision first. Before
the last rounding the quotient has more than 90 bits, the lowest of which records whether the
division was exact. -/
def ratio (part whole : Nat) : UInt32 :=
  if part = 0 then 0
  else
    let divisor := Rounding.nearestEven 24 whole
    let scaled := Rounding.nearestEven 24 part * 2 ^ 160
    let exact := 2 * (scaled / divisor) + if scaled % divisor = 0 then 0 else 1
    let rounded := Rounding.nearestEven 24 exact
    let top := rounded.log2
    UInt32.ofNat ((top + 127 - 161) * 2 ^ 23 + (rounded / 2 ^ (top - 23) - 2 ^ 23))

end Load

end PackedTable
