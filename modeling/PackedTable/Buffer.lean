import PackedTable.Binding
import PackedTable.Bytes

/-!
The content of a bound buffer, read and written group by group and slot by slot. Everything above
this module goes through these accessors.
-/

namespace PackedTable

structure Buffer {shape : Shape} {length : Nat} (binding : Binding shape length) where
  bytes : Vector UInt8 length

namespace Buffer

variable {shape : Shape} {length : Nat} {binding : Binding shape length}

def tag (buffer : Buffer binding) (group : binding.GroupIndex) (place : binding.Place) : UInt8 :=
  getElem buffer.bytes (binding.groupStart group + place.val) (binding.tag_lt group place)

def setTag (buffer : Buffer binding) (group : binding.GroupIndex) (place : binding.Place)
    (tag : UInt8) : Buffer binding :=
  ⟨buffer.bytes.set (binding.groupStart group + place.val) tag (binding.tag_lt group place)⟩

def overflow (buffer : Buffer binding) (group : binding.GroupIndex) : UInt8 :=
  getElem buffer.bytes (binding.groupStart group + binding.slots) (binding.overflow_lt group)

def markOverflow (buffer : Buffer binding) (group : binding.GroupIndex) (hash : UInt64) :
    Buffer binding :=
  ⟨buffer.bytes.set (binding.groupStart group + binding.slots)
    (buffer.overflow group ||| Tag.overflowBit hash) (binding.overflow_lt group)⟩

def group (buffer : Buffer binding) (index : binding.GroupIndex) : Group binding.width :=
  ⟨Vector.ofFn fun place => buffer.tag index place, buffer.overflow index⟩

def slotTag (buffer : Buffer binding) (slot : binding.Slot) : UInt8 :=
  buffer.tag (binding.groupOf slot) (binding.placeOf slot)

def isOccupied (buffer : Buffer binding) (slot : binding.Slot) : Bool :=
  Tag.isOccupied (buffer.slotTag slot)

/-- Takes the element of a slot away; its bytes stay behind. -/
def release (buffer : Buffer binding) (slot : binding.Slot) : Buffer binding :=
  buffer.setTag (binding.groupOf slot) (binding.placeOf slot) Tag.empty

def key (buffer : Buffer binding) (slot : binding.Slot) : shape.Key :=
  Bytes.read buffer.bytes (binding.entryStart slot) shape.key.size (binding.key_end_le slot)

def value (buffer : Buffer binding) (slot : binding.Slot) : shape.Value :=
  Bytes.read buffer.bytes (binding.valueStart slot) shape.value.size (binding.value_end_le slot)

def setKey (buffer : Buffer binding) (slot : binding.Slot) (key : shape.Key) : Buffer binding :=
  ⟨Bytes.write buffer.bytes (binding.entryStart slot) key (binding.key_end_le slot)⟩

def setValue (buffer : Buffer binding) (slot : binding.Slot) (value : shape.Value) :
    Buffer binding :=
  ⟨Bytes.write buffer.bytes (binding.valueStart slot) value (binding.value_end_le slot)⟩

def entry (buffer : Buffer binding) (slot : binding.Slot) : shape.Key × shape.Value :=
  (buffer.key slot, buffer.value slot)

/-- Writes key and value of a slot; the padding of the slot keeps its bytes. -/
def setEntry (buffer : Buffer binding) (slot : binding.Slot) (key : shape.Key)
    (value : shape.Value) : Buffer binding :=
  (buffer.setKey slot key).setValue slot value

/-- The buffer with all group metadata zero: every slot is empty, and nothing has overflowed. -/
def blank (buffer : Buffer binding) : Buffer binding :=
  ⟨Bytes.clear buffer.bytes binding.groupsLength binding.groupsLength_le⟩

/-- Makes every slot empty, forgets all overflow and sets the sentinel. -/
def reset (buffer : Buffer binding) : Buffer binding :=
  buffer.blank.setTag binding.lastGroup binding.lastPlace Tag.sentinel

def used (buffer : Buffer binding) : Array UInt8 := buffer.bytes.toArray.extract 0 binding.size

def metadata (buffer : Buffer binding) : Array UInt8 :=
  buffer.bytes.toArray.extract 0 binding.groupsLength

def checksum (digest : Checksum.Rule) (buffer : Buffer binding) : Checksum := digest buffer.used

def overflowedGroups (buffer : Buffer binding) : Nat :=
  binding.allGroups.countP fun group => buffer.overflow group != 0

end Buffer

end PackedTable
