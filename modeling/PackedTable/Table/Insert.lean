import PackedTable.Table.Lookup

/-!
Inserting into a table. A key that is present is left alone. A new key goes to the first free
slot in probe order, and every group passed on the way records the hash. A table that holds
`maxLoad` elements refuses new keys before anything is written.
-/

namespace PackedTable

variable {shape : Shape} {length : Nat} {binding : Binding shape length}

/-- What a call that may be refused leaves behind: the table, and the answer or the fault. -/
structure Attempt (binding : Binding shape length) (α : Type) where
  table : Table binding
  outcome : Except Fault α

namespace Buffer

def vacancy? (buffer : Buffer binding) (group : binding.GroupIndex) :
    Option (binding.Place × binding.Slot) :=
  (buffer.group group).freeSlots.findSome? fun place =>
    (binding.slotAt? group place).map fun slot => (place, slot)

/-- Puts an element into the first free slot among at most `remaining` groups. Without a free
slot the only change is the overflow of the groups that were passed. -/
def settle (buffer : Buffer binding) (hash : UInt64) (key : shape.Key) (value : shape.Value) :
    Nat → Probe → Buffer binding × Option binding.Slot
  | 0, _ => (buffer, none)
  | remaining + 1, probe =>
    let group := binding.geometry.groupAt probe.position
    match buffer.vacancy? group with
    | some (place, slot) =>
      ((buffer.setTag group place (Tag.ofHash hash)).setEntry slot key value, some slot)
    | none => settle (buffer.markOverflow group hash) hash key value remaining probe.next

end Buffer

namespace Table

def insertUnique (table : Table binding) (hash : UInt64) (key : shape.Key)
    (value : shape.Value) : Attempt binding (binding.Slot × Bool) :=
  match table.buffer.settle hash key value binding.groupCount
      (Probe.ofHash binding.geometry hash) with
  | (buffer, some slot) => ⟨{ table with buffer, size := table.size + 1 }, .ok (slot, true)⟩
  | (buffer, none) => ⟨{ table with buffer }, .error .probeExhausted⟩

/-- The slot of a key, and whether the key is new. The value of a new key comes from a supplier
with a state of its own, which is asked only when the key is absent and the table is not full. -/
def findOrInsertWith {σ : Type} (table : Table binding) (key : shape.Key)
    (supply : σ → shape.Value × σ) (state : σ) : Attempt binding (binding.Slot × Bool) × σ :=
  let hash := table.hash key
  match table.findWithHash hash (· == key) with
  | some slot => (⟨table, .ok (slot, false)⟩, state)
  | none =>
    if table.canInsert then
      let (value, state) := supply state
      (table.insertUnique hash key value, state)
    else (⟨table, .error (.tableFull table.size table.maxLoad)⟩, state)

def insert (table : Table binding) (key : shape.Key) (value : shape.Value) :
    Attempt binding (binding.Slot × Bool) :=
  (table.findOrInsertWith key (fun _ => (value, ())) ()).1

end Table

end PackedTable
