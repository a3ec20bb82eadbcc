import PackedTable.Error
import PackedTable.Tag

/-!
The metadata of one group: a tag for each slot, and a byte of overflow bits that tells a search
whether some insertion had to move past the group.
-/

namespace PackedTable

/-- Slots per group. -/
structure Width where
  slots : Nat
  two_le : 2 ≤ slots
  le_fifteen : slots ≤ 15

namespace Width

def standard : Width := ⟨15, by decide, by decide⟩

def of? (slots : Nat) : Option Width :=
  if valid : 2 ≤ slots ∧ slots ≤ 15 then some ⟨slots, valid.1, valid.2⟩ else none

end Width

structure Group (width : Width) where
  tags : Vector UInt8 width.slots
  overflow : UInt8

namespace Group

variable {width : Width}

def tag (group : Group width) (slot : Nat) : Except Fault UInt8 :=
  match group.tags[slot]? with
  | some tag => .ok tag
  | none => .error .slotOutsideGroup

/-- The slots whose tag satisfies a test, in ascending order. -/
def slotsWhere (group : Group width) (test : UInt8 → Bool) : List (Fin width.slots) :=
  (List.finRange width.slots).filter fun slot => test group.tags[slot]

def slotsWithTag (group : Group width) (tag : UInt8) : List (Fin width.slots) :=
  group.slotsWhere (· == tag)

def freeSlots (group : Group width) : List (Fin width.slots) := group.slotsWithTag Tag.empty

def occupiedSlots (group : Group width) : List (Fin width.slots) := group.slotsWhere Tag.isOccupied

def lastSlot (width : Width) : Fin width.slots :=
  ⟨width.slots - 1, Nat.sub_lt (Nat.lt_of_lt_of_le Nat.two_pos width.two_le) Nat.one_pos⟩

def isSentinel (group : Group width) : Bool := group.tags[lastSlot width] == Tag.sentinel

/-- Whether some insertion of this hash may have moved past the group. -/
def isOverflowed (group : Group width) (hash : UInt64) : Bool :=
  group.overflow &&& Tag.overflowBit hash != 0

def hasOverflow (group : Group width) : Bool := group.overflow != 0

def setTag (group : Group width) (slot : Fin width.slots) (tag : UInt8) : Group width :=
  { group with tags := group.tags.set slot tag }

def reset (group : Group width) (slot : Fin width.slots) : Group width :=
  group.setTag slot Tag.empty

def setSentinel (group : Group width) : Group width := group.setTag (lastSlot width) Tag.sentinel

def markOverflow (group : Group width) (hash : UInt64) : Group width :=
  { group with overflow := group.overflow ||| Tag.overflowBit hash }

def bytes (group : Group width) : Array UInt8 := group.tags.toArray.push group.overflow

def ofBytes (width : Width) (bytes : Vector UInt8 (width.slots + 1)) : Group width :=
  ⟨Vector.ofFn fun slot => bytes[slot.val], bytes[width.slots]⟩

end Group

end PackedTable
