import PackedTable.Header.Basic
import PackedTable.Mounted

/-!
Describing a table by a header, and opening the described table again.
-/

namespace PackedTable

namespace Table

variable {shape : Shape} {length : Nat} {binding : Binding shape length}

def header (digest : Checksum.Rule) (table : Table binding) : Header where
  slotsPerGroup := UInt8.ofNat binding.slots
  keySize := UInt32.ofNat shape.key.size
  keyAlign := UInt32.ofNat shape.key.align
  valueSize := UInt32.ofNat shape.value.size
  valueAlign := UInt32.ofNat shape.value.align
  geometry := binding.geometry
  size := UInt64.ofNat table.size
  maxLoad := UInt64.ofNat table.maxLoad
  checksum := table.buffer.checksum digest

end Table

namespace Header

def admits (digest : Checksum.Rule) (header : Header) (shape : Shape) (width : Width)
    (region : Region) : Except Error Unit := do
  header.checkShape shape width
  header.verify digest region.bytes

def mount {shape : Shape} (header : Header) (width : Width) (region : Region)
    (hash : shape.Key → UInt64) : Except Failure (Mounted shape) :=
  Mounted.attach width header.geometry region hash header.size.toNat header.maxLoad.toNat

def attach {shape : Shape} (digest : Checksum.Rule) (header : Header) (width : Width)
    (region : Region) (hash : shape.Key → UInt64) : Except Failure (Mounted shape) :=
  match header.admits digest shape width region with
  | .ok () => header.mount width region hash
  | .error refused => .error (.error refused)

end Header

end PackedTable
