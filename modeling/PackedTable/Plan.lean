import PackedTable.Extent
import PackedTable.Geometry
import PackedTable.Load

/-!
Choosing a size class: the smallest one that accepts a number of elements, or the largest one
whose buffer fits into a number of bytes.
-/

namespace PackedTable.Plan

/-- The scales that planning considers, in ascending order: two groups and more. -/
def scales : List (Fin 64) := (List.finRange 64).drop 1

def capacity (slots mask : Nat) : Except Fault Nat :=
  match Extent.capacity? slots mask with
  | some count => .ok count
  | none => .error .capacityNotAddressable

def bufferSize (slots mask : Nat) (entry : EntryLayout) : Except Fault Nat :=
  match Extent.bufferSize? slots mask entry with
  | some size => .ok size
  | none => .error .bufferSizeNotAddressable

/-- The first of the given scales whose threshold reaches the number of items. -/
def firstHolding (slots items : Nat) (factor : LoadFactor) :
    List (Fin 64) → Except Fault Geometry
  | [] => .error .itemsNotAddressable
  | scale :: larger => do
    let count ← capacity slots (2 ^ scale.val - 1)
    if Load.threshold count factor < items then firstHolding slots items factor larger
    else return Geometry.ofScale scale

def forItems (slots items : Nat) (factor : LoadFactor) : Except Fault Geometry :=
  firstHolding slots items factor scales

def fits (slots : Nat) (entry : EntryLayout) (length : Nat) (scale : Fin 64) : Bool :=
  match Extent.bufferSize? slots (2 ^ scale.val - 1) entry with
  | some size => size ≤ length
  | none => false

/-- The largest geometry of at least two groups whose buffer fits into `length` bytes. -/
def forLength? (slots : Nat) (entry : EntryLayout) (length : Nat) : Option Geometry :=
  (scales.takeWhile (fits slots entry length)).getLast?.map Geometry.ofScale

end PackedTable.Plan
