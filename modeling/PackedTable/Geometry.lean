import PackedTable.Error
import PackedTable.Word

/-!
The size class of a table: how many groups it has, and which bits of a hash choose the first
group. The number of groups is a power of two by construction, so every masked position names a
group.
-/

namespace PackedTable

/-- `2 ^ scale` groups, the first one chosen by the hash bits above `shift`. The shift is taken
as it comes: one of 64 or more leaves no bits and sends every hash to the first group. -/
structure Geometry where
  shift : UInt64
  scale : Fin 64
deriving DecidableEq

namespace Geometry

def minGroupCount : Nat := 2

def groupCount (geometry : Geometry) : Nat := 2 ^ geometry.scale.val

def mask (geometry : Geometry) : Nat := geometry.groupCount - 1

/-- The shift that maps the highest bits of a hash onto `2 ^ scale` groups. -/
def ofScale (scale : Fin 64) : Geometry := ⟨64 - UInt64.ofNat scale.val, scale⟩

def scaleOf? (groups : Nat) : Option (Fin 64) :=
  if valid : groups.log2 < 64 ∧ 2 ^ groups.log2 = groups then some ⟨groups.log2, valid.1⟩ else none

def ofMask (shift : UInt64) (mask : Nat) : Except Error Geometry :=
  match scaleOf? (mask + 1) with
  | some scale => .ok ⟨shift, scale⟩
  | none => .error (.invalidGeometry mask)

def ofGroupCount (groups : Nat) : Except Error Geometry :=
  match scaleOf? groups with
  | some scale => .ok (ofScale scale)
  | none => .error (.invalidGeometry (Word.sub groups 1))

theorem groupCount_pos (geometry : Geometry) : 0 < geometry.groupCount := Nat.two_pow_pos _

theorem mask_succ (geometry : Geometry) : geometry.mask + 1 = geometry.groupCount :=
  Nat.sub_add_cancel geometry.groupCount_pos

theorem masked_lt (geometry : Geometry) (n : Nat) : n &&& geometry.mask < geometry.groupCount := by
  rw [← geometry.mask_succ]
  exact Nat.lt_succ_of_le Nat.and_le_right

/-- The group that a number names, whatever its high bits are. -/
def groupAt (geometry : Geometry) (n : Nat) : Fin geometry.groupCount :=
  ⟨n &&& geometry.mask, geometry.masked_lt n⟩

def position (geometry : Geometry) (hash : UInt64) : Nat :=
  (if geometry.shift < 64 then (hash >>> geometry.shift).toNat else 0) &&& geometry.mask

/-- A search begins at the number that the bits of the hash above the shift are, up to the number of
groups. -/
theorem position_eq (geometry : Geometry) (hash : UInt64) :
    geometry.position hash = hash.toNat / 2 ^ geometry.shift.toNat % 2 ^ geometry.scale.val := by
  rw [position, mask, groupCount, Nat.and_two_pow_sub_one_eq_mod]
  by_cases small : geometry.shift < 64
  · have below : geometry.shift.toNat < 64 := UInt64.lt_iff_toNat_lt.1 small
    rw [if_pos small, UInt64.toNat_shiftRight, Nat.mod_eq_of_lt below, Nat.shiftRight_eq_div_pow]
  · have beyond : 64 ≤ geometry.shift.toNat :=
      Nat.le_of_not_lt fun below => small (UInt64.lt_iff_toNat_lt.2 below)
    have none : hash.toNat / 2 ^ geometry.shift.toNat = 0 :=
      Nat.div_eq_of_lt (Nat.lt_of_lt_of_le hash.toNat_lt (Nat.pow_le_pow_right Nat.two_pos beyond))
    rw [if_neg small, none]

def text (geometry : Geometry) : String :=
  s!"Geometry \x7b groups_size_index: {geometry.shift}, groups_size_mask: {geometry.mask} \x7d"

end Geometry

end PackedTable
