import PackedTable.Table.Basic

/-!
Walking over the elements of a table, in the order of the buffer. A cursor yields the occupied
slots one at a time and stops after as many elements as the table says it has.
-/

namespace PackedTable

variable {shape : Shape} {length : Nat} {binding : Binding shape length}

/-- A walk that has not come further than `ahead`, and still owes `remaining` elements. -/
structure Cursor (binding : Binding shape length) where
  ahead : List binding.Slot
  remaining : Nat

namespace Cursor

def next (cursor : Cursor binding) (buffer : Buffer binding) :
    Option binding.Slot × Cursor binding :=
  if cursor.remaining = 0 then (none, cursor)
  else
    match cursor.ahead.dropWhile fun slot => !buffer.isOccupied slot with
    | [] => (none, { cursor with ahead := [] })
    | slot :: ahead => (some slot, ⟨ahead, cursor.remaining - 1⟩)

def take (buffer : Buffer binding) :
    Nat → Cursor binding → List (Option binding.Slot) × Cursor binding
  | 0, cursor => ([], cursor)
  | count + 1, cursor =>
    let (slot, after) := cursor.next buffer
    let (slots, last) := take buffer count after
    (slot :: slots, last)

def rest (cursor : Cursor binding) (buffer : Buffer binding) : List binding.Slot :=
  (cursor.ahead.filter buffer.isOccupied).take cursor.remaining

end Cursor

namespace Table

def cursor (table : Table binding) : Cursor binding := ⟨binding.allSlots, table.size⟩

def elementSlots (table : Table binding) : List binding.Slot := table.cursor.rest table.buffer

def entries (table : Table binding) : List (shape.Key × shape.Value) :=
  table.elementSlots.map table.buffer.entry

def keys (table : Table binding) : List shape.Key := table.elementSlots.map table.buffer.key

def values (table : Table binding) : List shape.Value := table.elementSlots.map table.buffer.value

def updateValues (table : Table binding) (change : shape.Key → shape.Value → shape.Value) :
    Table binding :=
  table.elementSlots.foldl (fun table slot =>
    table.setValue slot (change (table.buffer.key slot) (table.buffer.value slot))) table

end Table

end PackedTable
