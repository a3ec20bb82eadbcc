import PackedTable.Probe
import PackedTable.Table.Basic

/-!
Searching a table. The groups are visited in probe order; in each of them the keys under a
matching tag are compared, and the search ends at the first group that no insertion of this hash
has moved past.
-/

namespace PackedTable

variable {shape : Shape} {length : Nat} {binding : Binding shape length}

namespace Buffer

/-- The first slot of a group, in ascending order, that has the tag of the hash and a key that
passes the test. A slot without storage is passed over, whatever its tag. -/
def hit? (buffer : Buffer binding) (group : binding.GroupIndex) (hash : UInt64)
    (test : shape.Key → Bool) : Option binding.Slot :=
  ((buffer.group group).slotsWithTag (Tag.ofHash hash)).findSome? fun place =>
    (binding.slotAt? group place).filter fun slot => test (buffer.key slot)

/-- Searches at most `remaining` groups, from the present position of the probe on. -/
def seek (buffer : Buffer binding) (hash : UInt64) (test : shape.Key → Bool) :
    Nat → Probe → Option binding.Slot
  | 0, _ => none
  | remaining + 1, probe =>
    let group := binding.geometry.groupAt probe.position
    match buffer.hit? group hash test with
    | some slot => some slot
    | none =>
      if (buffer.group group).isOverflowed hash then seek buffer hash test remaining probe.next
      else none

end Buffer

namespace Table

def findWithHash (table : Table binding) (hash : UInt64) (test : shape.Key → Bool) :
    Option binding.Slot :=
  table.buffer.seek hash test binding.groupCount (Probe.ofHash binding.geometry hash)

/-- As `findWithHash`, but an empty table is not searched. -/
def findWhere (table : Table binding) (hash : UInt64) (test : shape.Key → Bool) :
    Option binding.Slot :=
  if table.isEmpty then none else table.findWithHash hash test

def find (table : Table binding) (key : shape.Key) : Option binding.Slot :=
  table.findWhere (table.hash key) (· == key)

end Table

end PackedTable
