import PackedTable.Buffer
import PackedTable.Load

/-!
A table over a bound buffer: the content, the hash of its keys, and the size control, which is
the number of elements and the number at which new keys are refused.
-/

namespace PackedTable

structure Table {shape : Shape} {length : Nat} (binding : Binding shape length) where
  buffer : Buffer binding
  hash : shape.Key → UInt64
  size : Nat
  maxLoad : Nat

structure Stats where
  size : Nat
  capacity : Nat
  maxLoad : Nat
  groupCount : Nat
  overflowedGroups : Nat
deriving DecidableEq

namespace Table

variable {shape : Shape} {length : Nat} {binding : Binding shape length}

/-- An empty table. Only group metadata is written. -/
def create (binding : Binding shape length) (bytes : Vector UInt8 length)
    (hash : shape.Key → UInt64) (factor : LoadFactor) : Table binding where
  buffer := (Buffer.mk bytes).reset
  hash
  size := 0
  maxLoad := Load.threshold binding.capacity factor

/-- Takes a buffer as a table left it. Nothing is written, and the size control is trusted as
long as it is in order. -/
def attach (binding : Binding shape length) (bytes : Vector UInt8 length)
    (hash : shape.Key → UInt64) (size maxLoad : Nat) : Except Error (Table binding) :=
  if size ≤ maxLoad ∧ maxLoad ≤ binding.capacity then .ok ⟨⟨bytes⟩, hash, size, maxLoad⟩
  else .error (.invalidSizeControl size maxLoad binding.capacity)

def isEmpty (table : Table binding) : Bool := table.size == 0

def canInsert (table : Table binding) : Bool := table.size < table.maxLoad

def loadFactor (table : Table binding) : UInt32 := Load.ratio table.size binding.capacity

def stats (table : Table binding) : Stats :=
  ⟨table.size, binding.capacity, table.maxLoad, binding.groupCount, table.buffer.overflowedGroups⟩

def setValue (table : Table binding) (slot : binding.Slot) (value : shape.Value) :
    Table binding :=
  { table with buffer := table.buffer.setValue slot value }

def clear (table : Table binding) : Table binding :=
  { table with buffer := table.buffer.reset, size := 0 }

end Table

end PackedTable
