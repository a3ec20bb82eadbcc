import PackedTable.Table.Insert
import PackedTable.Table.Remove
import PackedTable.Table.Scan

/-!
A table as a finite map from keys to values. The first value of a key wins for `insertNew` and
the last one for `assign`; lookups, removals and comparisons go by key, and slots appear only as
the places through which a stored value can be replaced.
-/

namespace PackedTable

variable {shape : Shape} {length : Nat} {binding : Binding shape length}

structure Stored (binding : Binding shape length) where
  slot : binding.Slot
  value : shape.Value
  isNew : Bool

namespace Attempt

def stored (attempt : Attempt binding (binding.Slot × Bool)) : Attempt binding (Stored binding) :=
  ⟨attempt.table, attempt.outcome.map fun (slot, isNew) =>
    ⟨slot, attempt.table.buffer.value slot, isNew⟩⟩

end Attempt

namespace Table

def insertNew (table : Table binding) (key : shape.Key) (value : shape.Value) :
    Attempt binding (Stored binding) :=
  (table.insert key value).stored

def assign (table : Table binding) (key : shape.Key) (value : shape.Value) :
    Attempt binding (Stored binding) :=
  let attempt := table.insert key value
  match attempt.outcome with
  | .ok (slot, false) => ⟨attempt.table.setValue slot value, .ok ⟨slot, value, false⟩⟩
  | _ => attempt.stored

def getOrInsertWith {σ : Type} (table : Table binding) (key : shape.Key)
    (supply : σ → shape.Value × σ) (state : σ) : Attempt binding (Stored binding) × σ :=
  let (attempt, state) := table.findOrInsertWith key supply state
  (attempt.stored, state)

def getOrInsertDefault (table : Table binding) (key : shape.Key) (default : shape.Value) :
    Attempt binding (Stored binding) :=
  (table.getOrInsertWith key (fun _ => (default, ())) ()).1

def getEntry? (table : Table binding) (key : shape.Key) : Option (shape.Key × shape.Value) :=
  (table.find key).map table.buffer.entry

def get? (table : Table binding) (key : shape.Key) : Option shape.Value :=
  (table.getEntry? key).map Prod.snd

def contains (table : Table binding) (key : shape.Key) : Bool := (table.find key).isSome

def get (table : Table binding) (key : shape.Key) : Except Error shape.Value :=
  match table.get? key with
  | some value => .ok value
  | none => .error .keyNotFound

def replace (table : Table binding) (key : shape.Key) (value : shape.Value) :
    Option shape.Value × Table binding :=
  match table.find key with
  | some slot => (some (table.buffer.value slot), table.setValue slot value)
  | none => (none, table)

def eraseCount (table : Table binding) (key : shape.Key) : Nat × Table binding :=
  let (found, left) := table.erase key
  (if found then 1 else 0, left)

def removeValue (table : Table binding) (key : shape.Key) : Option shape.Value × Table binding :=
  let (entry, left) := table.remove key
  (entry.map Prod.snd, left)

def extend (table : Table binding) : List (shape.Key × shape.Value) → Attempt binding Unit
  | [] => ⟨table, .ok ()⟩
  | (key, value) :: rest =>
    let attempt := table.insert key value
    match attempt.outcome with
    | .ok _ => extend attempt.table rest
    | .error fault => ⟨attempt.table, .error fault⟩

def sameContent {otherLength : Nat} {other : Binding shape otherLength}
    (same : shape.Value → shape.Value → Bool) (left : Table binding) (right : Table other) : Bool :=
  left.size == right.size && left.entries.all fun (key, value) =>
    match right.get? key with
    | some found => same found value
    | none => false

end Table

end PackedTable
