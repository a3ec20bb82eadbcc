import PackedTable.Extent
import PackedTable.Geometry
import PackedTable.Group

/-!
A table's view of a buffer: which bytes hold which group and which slot. A binding exists only
for a buffer that is long enough and aligned, so every group and every slot with storage lies
inside the buffer, and the accessors that build on it need no further check.
-/

namespace PackedTable

/-- A buffer of `length` bytes at `address`, seen as a table of keys and values of a shape. -/
structure Binding (shape : Shape) (length : Nat) where
  width : Width
  geometry : Geometry
  address : Nat
  keyed : 0 < shape.key.size
  addressable : Extent.bufferSize width.slots geometry.mask shape.entry < Word.limit
  fits : Extent.bufferSize width.slots geometry.mask shape.entry ≤ length
  aligned : address % shape.entry.align = 0

namespace Binding

variable {shape : Shape} {length : Nat}

/-- Binds a buffer, without looking at its content. -/
def bind (shape : Shape) (width : Width) (geometry : Geometry) (address length : Nat) :
    Except Failure (Binding shape length) :=
  if keyed : 0 < shape.key.size then
    match found : Extent.bufferSize? width.slots geometry.mask shape.entry with
    | none => .error (.error (.invalidGeometry geometry.mask))
    | some required =>
      if fits : required ≤ length then
        if aligned : address % shape.entry.align = 0 then
          have exact := Extent.bufferSize?_eq_some found
          .ok ⟨width, geometry, address, keyed, exact.2 ▸ exact.1, exact.2 ▸ fits, aligned⟩
        else .error (.error (.misalignedBuffer shape.entry.align))
      else .error (.error (.bufferTooSmall required length))
  else .error (.fault .zeroSizedKey)

abbrev slots (binding : Binding shape length) : Nat := binding.width.slots

abbrev groupCount (binding : Binding shape length) : Nat := binding.geometry.groupCount

abbrev capacity (binding : Binding shape length) : Nat :=
  Extent.capacity binding.slots binding.geometry.mask

def groupsLength (binding : Binding shape length) : Nat :=
  Extent.groupsLength binding.slots binding.geometry.mask

def entriesOffset (binding : Binding shape length) : Nat :=
  Extent.entriesOffset binding.slots binding.geometry.mask shape.entry

def size (binding : Binding shape length) : Nat :=
  Extent.bufferSize binding.slots binding.geometry.mask shape.entry

abbrev GroupIndex (binding : Binding shape length) : Type := Fin binding.groupCount

abbrev Place (binding : Binding shape length) : Type := Fin binding.slots

/-- A slot with storage. -/
abbrev Slot (binding : Binding shape length) : Type := Fin binding.capacity

theorem slots_pos (binding : Binding shape length) : 0 < binding.slots :=
  Nat.lt_of_lt_of_le Nat.two_pos binding.width.two_le

theorem groupsLength_eq (binding : Binding shape length) :
    binding.groupsLength = binding.groupCount * (binding.slots + 1) := by
  unfold groupsLength Extent.groupsLength groupCount
  rw [binding.geometry.mask_succ]

theorem capacity_succ (binding : Binding shape length) :
    binding.capacity + 1 = binding.groupCount * binding.slots := by
  have positive : 0 < binding.groupCount * binding.slots :=
    Nat.mul_pos binding.geometry.groupCount_pos binding.slots_pos
  unfold capacity Extent.capacity
  rw [binding.geometry.mask_succ]
  exact Nat.sub_add_cancel positive

theorem groupsLength_le_entriesOffset (binding : Binding shape length) :
    binding.groupsLength ≤ binding.entriesOffset :=
  Word.le_roundUp _ shape.entry_align_pos

theorem size_eq (binding : Binding shape length) :
    binding.size = binding.entriesOffset + binding.capacity * shape.entry.size := rfl

theorem size_le (binding : Binding shape length) : binding.size ≤ length := binding.fits

theorem groupsLength_le (binding : Binding shape length) : binding.groupsLength ≤ length := by
  have padded := binding.groupsLength_le_entriesOffset
  have whole := binding.size_eq
  have bound := binding.size_le
  omega

def groupStart (binding : Binding shape length) (group : binding.GroupIndex) : Nat :=
  group.val * (binding.slots + 1)

theorem group_end_le (binding : Binding shape length) (group : binding.GroupIndex) :
    binding.groupStart group + (binding.slots + 1) ≤ binding.groupsLength := by
  rw [groupsLength_eq]
  have step := Nat.mul_le_mul_right (binding.slots + 1) (Nat.succ_le_of_lt group.isLt)
  rw [Nat.succ_mul] at step
  exact step

theorem tag_lt (binding : Binding shape length) (group : binding.GroupIndex)
    (place : binding.Place) : binding.groupStart group + place.val < length := by
  have last := binding.group_end_le group
  have bound := binding.groupsLength_le
  omega

theorem overflow_lt (binding : Binding shape length) (group : binding.GroupIndex) :
    binding.groupStart group + binding.slots < length := by
  have last := binding.group_end_le group
  have bound := binding.groupsLength_le
  omega

def entryStart (binding : Binding shape length) (slot : binding.Slot) : Nat :=
  binding.entriesOffset + slot.val * shape.entry.size

theorem entry_end_le (binding : Binding shape length) (slot : binding.Slot) :
    binding.entryStart slot + shape.entry.size ≤ binding.size := by
  rw [size_eq, entryStart]
  have step := Nat.mul_le_mul_right shape.entry.size (Nat.succ_le_of_lt slot.isLt)
  rw [Nat.succ_mul] at step
  omega

theorem key_end_le (binding : Binding shape length) (slot : binding.Slot) :
    binding.entryStart slot + shape.key.size ≤ length := by
  have last := binding.entry_end_le slot
  have bound := binding.size_le
  have keyBound := shape.key_end_le
  have valueBound := shape.value_end_le
  omega

def valueStart (binding : Binding shape length) (slot : binding.Slot) : Nat :=
  binding.entryStart slot + shape.entry.valueOffset

theorem value_end_le (binding : Binding shape length) (slot : binding.Slot) :
    binding.valueStart slot + shape.value.size ≤ length := by
  have last := binding.entry_end_le slot
  have bound := binding.size_le
  have valueBound := shape.value_end_le
  unfold valueStart
  omega

def slotNumber (binding : Binding shape length) (group : binding.GroupIndex)
    (place : binding.Place) : Nat :=
  group.val * binding.slots + place.val

/-- The slot at a place, unless it is the one that has no storage. -/
def slotAt? (binding : Binding shape length) (group : binding.GroupIndex)
    (place : binding.Place) : Option binding.Slot :=
  if stored : binding.slotNumber group place < binding.capacity then some ⟨_, stored⟩ else none

/-- The slot of a given number, with a fault for one that has no storage. -/
def slot (binding : Binding shape length) (number : Nat) : Except Fault binding.Slot :=
  if stored : number < binding.capacity then .ok ⟨number, stored⟩ else .error .entryOutsideBuffer

def group (binding : Binding shape length) (number : Nat) : Except Fault binding.GroupIndex :=
  if inside : number < binding.groupCount then .ok ⟨number, inside⟩
  else .error .groupOutsideBuffer

def home (binding : Binding shape length) (number : Nat) :
    Except Fault (binding.GroupIndex × binding.Place) :=
  (binding.group (number / binding.slots)).map fun group =>
    (group, ⟨number % binding.slots, Nat.mod_lt _ binding.slots_pos⟩)

def allSlots (binding : Binding shape length) : List binding.Slot := List.finRange binding.capacity

def allGroups (binding : Binding shape length) : List binding.GroupIndex :=
  List.finRange binding.groupCount

def groupOf (binding : Binding shape length) (slot : binding.Slot) : binding.GroupIndex :=
  ⟨slot.val / binding.slots, by
    have stored := slot.isLt
    have whole := binding.capacity_succ
    exact (Nat.div_lt_iff_lt_mul binding.slots_pos).2 (by omega)⟩

def placeOf (binding : Binding shape length) (slot : binding.Slot) : binding.Place :=
  ⟨slot.val % binding.slots, Nat.mod_lt _ binding.slots_pos⟩

theorem slotNumber_home (binding : Binding shape length) (slot : binding.Slot) :
    binding.slotNumber (binding.groupOf slot) (binding.placeOf slot) = slot.val := by
  have whole := Nat.div_add_mod slot.val binding.slots
  rw [Nat.mul_comm] at whole
  exact whole

def lastGroup (binding : Binding shape length) : binding.GroupIndex :=
  ⟨binding.geometry.mask, Nat.lt_of_lt_of_eq (Nat.lt_succ_self _) binding.geometry.mask_succ⟩

def lastPlace (binding : Binding shape length) : binding.Place := Group.lastSlot binding.width

end Binding

end PackedTable
