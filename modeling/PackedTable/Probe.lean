import PackedTable.Geometry

/-!
The order in which a search visits the groups. Steps grow by one each time, which on a power of
two of groups meets every group once.
-/

namespace PackedTable

structure Probe where
  position : Nat
  step : Nat
  mask : Nat

namespace Probe

def start (position mask : Nat) : Probe := ⟨position, 0, mask⟩

def next (probe : Probe) : Probe :=
  { probe with
    position := (probe.position + (probe.step + 1)) &&& probe.mask
    step := probe.step + 1 }

/-- Whether the present position is still one of the `mask + 1` first ones. -/
def live (probe : Probe) : Bool := probe.step ≤ probe.mask

def ofHash (geometry : Geometry) (hash : UInt64) : Probe :=
  start (geometry.position hash) geometry.mask

def positions : Nat → Probe → List Nat
  | 0, _ => []
  | count + 1, probe => probe.position :: positions count probe.next

end Probe

end PackedTable
