import PackedTable.Table.Lookup

/-!
Taking elements out of a table. Overflow bits stay, since later keys may have been placed beyond
the group. The element count is a word: it is not checked against the content of the buffer, and
wraps around if the buffer holds more elements than it says.
-/

namespace PackedTable

variable {shape : Shape} {length : Nat} {binding : Binding shape length}

namespace Table

def removeSlot (table : Table binding) (slot : binding.Slot) :
    (shape.Key × shape.Value) × Table binding :=
  (table.buffer.entry slot,
    { table with buffer := table.buffer.release slot, size := Word.sub table.size 1 })

def remove (table : Table binding) (key : shape.Key) :
    Option (shape.Key × shape.Value) × Table binding :=
  match table.find key with
  | some slot =>
    let (entry, left) := table.removeSlot slot
    (some entry, left)
  | none => (none, table)

def erase (table : Table binding) (key : shape.Key) : Bool × Table binding :=
  let (entry, left) := table.remove key
  (entry.isSome, left)

end Table

/-- What a visitor decides about an element. An abandoned visit ends the sweep on the spot. -/
inductive Verdict where
  | keep
  | drop
  | abandon
deriving DecidableEq

/-- A visitor of elements: it is shown a key and its value, and answers with its verdict, the
value to leave behind and its own next state. -/
abbrev Visitor (shape : Shape) (σ : Type) : Type :=
  σ → shape.Key → shape.Value → Verdict × shape.Value × σ

structure Sweep (binding : Binding shape length) (σ : Type) where
  buffer : Buffer binding
  dropped : Nat
  state : σ
  finished : Bool

namespace Sweep

def run {σ : Type} (visit : Visitor shape σ) :
    List binding.Slot → Buffer binding → Nat → σ → Sweep binding σ
  | [], buffer, dropped, state => ⟨buffer, dropped, state, true⟩
  | slot :: rest, buffer, dropped, state =>
    if buffer.isOccupied slot then
      let (verdict, value, next) := visit state (buffer.key slot) (buffer.value slot)
      let shown := buffer.setValue slot value
      match verdict with
      | .keep => run visit rest shown dropped next
      | .drop => run visit rest (shown.release slot) (dropped + 1) next
      | .abandon => ⟨shown, dropped, next, false⟩
    else run visit rest buffer dropped state

end Sweep

structure Retention (binding : Binding shape length) (σ : Type) where
  table : Table binding
  state : σ
  finished : Bool

namespace Table

/-- Keeps the elements that the visitor keeps. The element count is brought up to date when the
pass is finished, and not before. -/
def retain {σ : Type} (table : Table binding) (visit : Visitor shape σ) (state : σ) :
    Retention binding σ :=
  let sweep := Sweep.run visit binding.allSlots table.buffer 0 state
  let size := if sweep.finished then Word.sub table.size sweep.dropped else table.size
  ⟨{ table with buffer := sweep.buffer, size }, sweep.state, sweep.finished⟩

end Table

end PackedTable
