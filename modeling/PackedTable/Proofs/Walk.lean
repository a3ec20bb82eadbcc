import PackedTable.Proofs.Accessors
import PackedTable.Proofs.Operations

/-!
The iterators of a table with every check that they make at run time. An iterator divides the
buffer, cuts the storage into pieces of the size of an entry and numbers them. A call goes from
piece to piece: it looks up the tag of the number in the metadata, and takes the piece apart if the
tag is one of an element. Nothing ties the pieces, the numbers and the count of what is still to
come to each other but the arithmetic of the layout. The main result is that they stay together: the
iterator does what a walk over the slots does, and none of its checks can fail, whatever the bytes
are.
-/

namespace PackedTable

variable {shape : Shape} {length : Nat} {binding : Binding shape length} {α : Type}

def Span.pieces (span : Span) (width : Nat) : Except Lapse (List Span) :=
  if width = 0 then .error .size
  else .ok ((List.range (span.length / width)).map (row span.start width))

/-- Where an iterator is: the metadata, the pieces that it has not looked at with their numbers, and
how many elements it still has to come to. -/
structure Walk where
  groups : Span
  ahead : List (Span × Nat)
  remaining : Nat
deriving DecidableEq

def Walk.sizeHint (walk : Walk) : Nat × Option Nat := (walk.remaining, some walk.remaining)

/-- A kind of iterator: how it divides the buffer into the two regions, how it takes an entry apart,
and what its caller gets of a key and a value. -/
structure Traversal (binding : Binding shape length) (α : Type) where
  regions : Except Lapse (Span × Span)
  decode : Span → Except Lapse (Span × Span)
  give : Span × Span → α

namespace Traversal

/-! ### The iterators of a table

Iterating over a table itself is `iter`, or `iterMut` where the table may be written.
-/

def iter (binding : Binding shape length) : Traversal binding (Span × Span) :=
  ⟨Accessor.regions binding, Accessor.decode binding, id⟩

def keys (binding : Binding shape length) : Traversal binding Span :=
  ⟨Accessor.regions binding, Accessor.decode binding, Prod.fst⟩

def values (binding : Binding shape length) : Traversal binding Span :=
  ⟨Accessor.regions binding, Accessor.decode binding, Prod.snd⟩

def iterMut (binding : Binding shape length) : Traversal binding (Span × Span) :=
  ⟨Accessor.regionsApart binding, Accessor.decodeApart binding, id⟩

def valuesMut (binding : Binding shape length) : Traversal binding Span :=
  ⟨Accessor.regionsApart binding, Accessor.decodeApart binding, Prod.snd⟩

/-! ### Walking -/

def isOccupied (buffer : Buffer binding) (groups : Span) (number : Nat) : Except Lapse Bool := do
  let position ← Accessor.slotTag binding groups number
  match buffer.bytes[position]? with
  | some tag => return Tag.isOccupied tag
  | none => throw .outside

def start (traversal : Traversal binding α) (size : Nat) : Except Lapse Walk := do
  let (groups, entries) ← traversal.regions
  let pieces ← entries.pieces shape.entry.size
  return ⟨groups, pieces.zipIdx, size⟩

def seek (traversal : Traversal binding α) (buffer : Buffer binding) (walk : Walk) :
    List (Span × Nat) → Except Lapse (Option α × Walk)
  | [] => return (none, { walk with ahead := [] })
  | (piece, number) :: rest => do
    if ← isOccupied buffer walk.groups number then
      let parts ← traversal.decode piece
      return (some (traversal.give parts), ⟨walk.groups, rest, walk.remaining - 1⟩)
    else seek traversal buffer walk rest

def next (traversal : Traversal binding α) (buffer : Buffer binding) (walk : Walk) :
    Except Lapse (Option α × Walk) :=
  if walk.remaining = 0 then return (none, walk) else traversal.seek buffer walk walk.ahead

end Traversal

/-- The buffer after values were written to slots, one after the other. -/
def Buffer.overwrite (buffer : Buffer binding) (writes : List (binding.Slot × shape.Value)) :
    Buffer binding :=
  writes.foldl (fun buffer write => buffer.setValue write.1 write.2) buffer

/-- Calls of an iterator. In front of each of them the caller may write values to slots. -/
def Traversal.calls (traversal : Traversal binding α) :
    List (List (binding.Slot × shape.Value)) → Buffer binding → Walk →
      Except Lapse (List (Option α) × Buffer binding × Walk)
  | [], buffer, walk => return ([], buffer, walk)
  | batch :: rest, buffer, walk => do
    let written := buffer.overwrite batch
    let (item, after) ← traversal.next written walk
    let (items, last) ← calls traversal rest written after
    return (item :: items, last)

/-! ### No check fails -/

/-- The regions and the parts of an entry come out right, and what the caller gets of the entry of a
slot is what `yields` says. -/
structure Traversal.Reaches (traversal : Traversal binding α) (yields : binding.Slot → α) :
    Prop where
  regions : traversal.regions = .ok (⟨0, binding.groupsLength⟩,
    ⟨binding.entriesOffset, binding.size - binding.entriesOffset⟩)
  decode : ∀ slot, traversal.decode (binding.entrySpan slot) =
    .ok (binding.keySpan slot, binding.valueSpan slot)
  give : ∀ slot, traversal.give (binding.keySpan slot, binding.valueSpan slot) = yields slot

def Binding.parts (binding : Binding shape length) (slot : binding.Slot) : Span × Span :=
  (binding.keySpan slot, binding.valueSpan slot)

namespace Traversal

theorem reaches_iter (binding : Binding shape length) : (iter binding).Reaches binding.parts :=
  ⟨Accessor.regions_eq binding, Accessor.decode_eq, fun _ => rfl⟩

theorem reaches_keys (binding : Binding shape length) : (keys binding).Reaches binding.keySpan :=
  ⟨Accessor.regions_eq binding, Accessor.decode_eq, fun _ => rfl⟩

theorem reaches_values (binding : Binding shape length) :
    (values binding).Reaches binding.valueSpan :=
  ⟨Accessor.regions_eq binding, Accessor.decode_eq, fun _ => rfl⟩

theorem regionsApart_eq_ok (binding : Binding shape length) :
    Accessor.regionsApart binding = .ok (⟨0, binding.groupsLength⟩,
      ⟨binding.entriesOffset, binding.size - binding.entriesOffset⟩) :=
  (Accessor.regionsApart_eq binding).trans (Accessor.regions_eq binding)

theorem reaches_iterMut (binding : Binding shape length) :
    (iterMut binding).Reaches binding.parts :=
  ⟨regionsApart_eq_ok binding, Accessor.decodeApart_eq, fun _ => rfl⟩

theorem reaches_valuesMut (binding : Binding shape length) :
    (valuesMut binding).Reaches binding.valueSpan :=
  ⟨regionsApart_eq_ok binding, Accessor.decodeApart_eq, fun _ => rfl⟩

end Traversal

def Cursor.walk (cursor : Cursor binding) : Walk :=
  ⟨⟨0, binding.groupsLength⟩, cursor.ahead.map fun slot => (binding.entrySpan slot, slot.val),
    cursor.remaining⟩

namespace Traversal

variable {traversal : Traversal binding α} {yields : binding.Slot → α}

theorem isOccupied_eq (buffer : Buffer binding) (slot : binding.Slot) :
    isOccupied buffer ⟨0, binding.groupsLength⟩ slot.val = .ok (buffer.isOccupied slot) := by
  have position : Accessor.slotTag binding ⟨0, binding.groupsLength⟩ slot.val =
      .ok (binding.slotPosition slot) := Accessor.slotTag_eq rfl (Nat.le_refl _) slot
  have read : buffer.bytes[binding.slotPosition slot]? = some (buffer.slotTag slot) :=
    Vector.getElem?_eq_getElem (binding.tag_lt _ _)
  simp only [isOccupied, position, read, bind, Except.bind, pure, Except.pure]
  rfl

theorem start_eq (reaches : traversal.Reaches yields) (table : Table binding) :
    traversal.start table.size = .ok table.cursor.walk := by
  have pieces : Span.pieces ⟨binding.entriesOffset, binding.size - binding.entriesOffset⟩
      shape.entry.size = .ok ((List.range binding.capacity).map
        (Span.row binding.entriesOffset shape.entry.size)) := by
    rw [Span.pieces, if_neg (Nat.ne_of_gt binding.entry_size_pos), Accessor.pieces_eq]
  have numbered : ((List.range binding.capacity).map
      (Span.row binding.entriesOffset shape.entry.size)).zipIdx =
      binding.allSlots.map fun slot => (binding.entrySpan slot, slot.val) := by
    refine List.ext_getElem ?_ fun n inside _ => ?_
    · simp only [List.length_zipIdx, List.length_map, List.length_range, Binding.allSlots,
        List.length_finRange]
    · simp only [List.getElem_zipIdx, List.getElem_map, List.getElem_range, Binding.allSlots,
        List.getElem_finRange, Nat.zero_add]
      rfl
  simp only [start, reaches.regions, pieces, numbered, bind, Except.bind, pure, Except.pure]
  rfl

theorem seek_eq (reaches : traversal.Reaches yields) (buffer : Buffer binding)
    (ahead : List binding.Slot) (before : List (Span × Nat)) (remaining : Nat) :
    let turn := Cursor.next ⟨ahead, remaining + 1⟩ buffer
    traversal.seek buffer ⟨⟨0, binding.groupsLength⟩, before, remaining + 1⟩
        (ahead.map fun slot => (binding.entrySpan slot, slot.val)) =
      .ok (turn.1.map yields, turn.2.walk) := by
  induction ahead with
  | nil => rfl
  | cons slot rest ih =>
    rw [List.map_cons, seek, isOccupied_eq]
    cases held : buffer.isOccupied slot with
    | true =>
      rw [Cursor.next_of_occupied held]
      simp only [bind, Except.bind, ↓reduceIte, reaches.decode, reaches.give]
      rfl
    | false =>
      rw [Cursor.next_of_free held]
      simp only [bind, Except.bind, Bool.false_eq_true, ↓reduceIte]
      exact ih

/-- A call yields the next occupied slot, and the iterator stands behind it. -/
theorem next_eq (reaches : traversal.Reaches yields) (buffer : Buffer binding)
    (cursor : Cursor binding) :
    traversal.next buffer cursor.walk =
      .ok ((cursor.next buffer).1.map yields, (cursor.next buffer).2.walk) := by
  obtain ⟨ahead, remaining⟩ := cursor
  cases remaining with
  | zero => rfl
  | succ remaining => exact traversal.seek_eq reaches buffer ahead _ remaining

end Traversal

/-! ### Writing on the way -/

namespace Buffer

variable {buffer : Buffer binding} {writes : List (binding.Slot × shape.Value)}

theorem slotTag_overwrite (buffer : Buffer binding) (writes : List (binding.Slot × shape.Value))
    (slot : binding.Slot) : (buffer.overwrite writes).slotTag slot = buffer.slotTag slot := by
  induction writes generalizing buffer with
  | nil => rfl
  | cons write rest ih => exact (ih _).trans (slotTag_setValue _ _ _ _)

theorem isOccupied_overwrite (buffer : Buffer binding)
    (writes : List (binding.Slot × shape.Value)) (slot : binding.Slot) :
    (buffer.overwrite writes).isOccupied slot = buffer.isOccupied slot :=
  congrArg Tag.isOccupied (slotTag_overwrite buffer writes slot)

theorem overwrite_append (buffer : Buffer binding)
    (first second : List (binding.Slot × shape.Value)) :
    buffer.overwrite (first ++ second) = (buffer.overwrite first).overwrite second :=
  List.foldl_append

end Buffer

theorem Cursor.next_congr {left right : Buffer binding}
    (same : ∀ slot, left.isOccupied slot = right.isOccupied slot) (cursor : Cursor binding) :
    cursor.next left = cursor.next right := by
  have tests : (fun slot => !left.isOccupied slot) = fun slot => !right.isOccupied slot :=
    funext fun slot => congrArg (!·) (same slot)
  rw [next, next, tests]

theorem Cursor.take_congr {left right : Buffer binding}
    (same : ∀ slot, left.isOccupied slot = right.isOccupied slot) (count : Nat)
    (cursor : Cursor binding) : cursor.take left count = cursor.take right count := by
  induction count generalizing cursor with
  | zero => rfl
  | succ count ih => simp only [take, next_congr same, ih]

/-- An iterator does what a walk over the slots does, through every run of calls, and whatever is
written to values in between. -/
theorem Traversal.calls_eq {traversal : Traversal binding α} {yields : binding.Slot → α}
    (reaches : traversal.Reaches yields) (batches : List (List (binding.Slot × shape.Value)))
    (buffer : Buffer binding) (cursor : Cursor binding) :
    let taken := cursor.take buffer batches.length
    traversal.calls batches buffer cursor.walk =
      .ok (taken.1.map (Option.map yields), buffer.overwrite batches.flatten, taken.2.walk) := by
  induction batches generalizing buffer cursor with
  | nil => rfl
  | cons batch rest ih =>
    have same : ∀ slot, (buffer.overwrite batch).isOccupied slot = buffer.isOccupied slot :=
      buffer.isOccupied_overwrite batch
    have later := ih (buffer.overwrite batch) (cursor.next buffer).2
    dsimp only at later
    rw [Cursor.take_congr same] at later
    simp only [calls, next_eq reaches, Cursor.next_congr same, later, bind, Except.bind, pure,
      Except.pure, List.length_cons, Cursor.take, List.map_cons, List.flatten_cons,
      Buffer.overwrite_append]

end PackedTable
