import PackedTable.Word

/-!
The byte that stands for one slot in a group's metadata, and the bit that stands for one hash in
its overflow byte.
-/

namespace PackedTable.Tag

def empty : UInt8 := 0

def sentinel : UInt8 := 1

def ofHash (hash : UInt64) : UInt8 :=
  let low := hash.toUInt8
  if low < 2 then low + 8 else low

def isOccupied (tag : UInt8) : Bool := sentinel < tag

def overflowBit (hash : UInt64) : UInt8 := 1 <<< (hash % 8).toUInt8

theorem toNat_ofHash (hash : UInt64) :
    (ofHash hash).toNat =
      if hash.toNat % 256 < 2 then hash.toNat % 256 + 8 else hash.toNat % 256 := by
  have low : hash.toUInt8.toNat = hash.toNat % 256 := UInt64.toNat_toUInt8 hash
  have reserved : hash.toUInt8 < 2 ↔ hash.toNat % 256 < 2 := by
    rw [UInt8.lt_iff_toNat_lt, low]
    rfl
  simp only [ofHash, reserved]
  split
  case isTrue =>
    have eight : (8 : UInt8).toNat = 8 := rfl
    rw [UInt8.toNat_add, low, eight]
    omega
  case isFalse => exact low

theorem toNat_overflowBit (hash : UInt64) : (overflowBit hash).toNat = 2 ^ (hash.toNat % 8) := by
  have turn : (hash % 8).toUInt8.toNat = hash.toNat % 8 := by
    rw [UInt64.toNat_toUInt8, UInt64.toNat_mod]
    change hash.toNat % 8 % 256 = _
    omega
  have bound : hash.toNat % 8 < 8 := Nat.mod_lt _ (by decide)
  have small : 2 ^ (hash.toNat % 8) < 2 ^ 8 := Nat.pow_lt_pow_right (by decide) bound
  rw [overflowBit, UInt8.toNat_shiftLeft, turn, Nat.mod_eq_of_lt bound, Nat.shiftLeft_eq,
    show (1 : UInt8).toNat = 1 from rfl, Nat.one_mul, Nat.mod_eq_of_lt small]

theorem ofHash_occupied (hash : UInt64) : isOccupied (ofHash hash) = true := by
  simp only [isOccupied, ofHash, sentinel, decide_eq_true_eq, UInt8.lt_iff_toNat_lt]
  split
  case isTrue reserved => simp only [UInt8.toNat_add, UInt8.reduceToNat] at *; omega
  case isFalse free => simp only [UInt8.reduceToNat] at *; omega

end PackedTable.Tag
