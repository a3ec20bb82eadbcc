import PackedTable.Table.Basic

/-!
Opening a table on a buffer that a caller provides, when the geometry is only known at run time.
-/

namespace PackedTable

/-- A caller's buffer: its bytes, and the address of the first one. -/
structure Region where
  address : Nat
  bytes : Array UInt8

structure Mounted (shape : Shape) where
  {length : Nat}
  binding : Binding shape length
  table : Table binding

namespace Mounted

variable {shape : Shape}

def create (width : Width) (geometry : Geometry) (region : Region) (hash : shape.Key → UInt64)
    (factor : LoadFactor) : Except Failure (Mounted shape) := do
  let binding ← Binding.bind shape width geometry region.address region.bytes.size
  return ⟨binding, Table.create binding region.bytes.toVector hash factor⟩

def attach (width : Width) (geometry : Geometry) (region : Region) (hash : shape.Key → UInt64)
    (size maxLoad : Nat) : Except Failure (Mounted shape) := do
  let binding ← Binding.bind shape width geometry region.address region.bytes.size
  match Table.attach binding region.bytes.toVector hash size maxLoad with
  | .ok table => return ⟨binding, table⟩
  | .error refused => throw (.error refused)

end Mounted

end PackedTable
