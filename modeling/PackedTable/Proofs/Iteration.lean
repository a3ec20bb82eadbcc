import PackedTable.Proofs.Contents
import PackedTable.Proofs.Footprint
import PackedTable.Proofs.Walk

/-!
Iterating over a table in use is complete and exact. Every iterator yields the elements in the order
of their slots, as many as the table says it has, and then nothing any more. At every point it says
how many are to come, and whoever goes on from there gets these. Values may be written on the way
and afterwards: that changes neither what is yielded nor anything else than the values.
-/

namespace PackedTable

variable {shape : Shape} {length : Nat} {binding : Binding shape length} {α β : Type}

/-! ### What is yielded -/

def answers (items : List α) (count : Nat) : List (Option α) :=
  (List.range count).map fun turn => items[turn]?

theorem answers_succ (items : List α) (count : Nat) :
    answers items (count + 1) = items.head? :: answers items.tail count := by
  rw [answers, List.range_succ_eq_map, List.map_cons, List.map_map, List.head?_eq_getElem?]
  refine congrArg _ (List.map_congr_left fun turn _ => ?_)
  rw [Function.comp_apply, List.getElem?_tail]

theorem map_answers (give : α → β) (items : List α) (count : Nat) :
    (answers items count).map (Option.map give) = answers (items.map give) count := by
  rw [answers, answers, List.map_map]
  exact List.map_congr_left fun turn _ => List.getElem?_map.symm

namespace Cursor

variable {cursor : Cursor binding} {buffer : Buffer binding}

/-- The walk owes as many elements as there are ahead of it. -/
def Exact (cursor : Cursor binding) (buffer : Buffer binding) : Prop :=
  (cursor.ahead.filter buffer.isOccupied).length = cursor.remaining

theorem Exact.length_rest (owed : cursor.Exact buffer) :
    (cursor.rest buffer).length = cursor.remaining := by
  rw [rest, List.length_take, owed, Nat.min_self]

theorem Exact.next (owed : cursor.Exact buffer) :
    (cursor.next buffer).1 = (cursor.rest buffer).head? ∧
      (cursor.next buffer).2.Exact buffer ∧
      (cursor.next buffer).2.rest buffer = (cursor.rest buffer).tail := by
  obtain ⟨ahead, remaining⟩ := cursor
  simp only [Exact] at owed
  cases remaining with
  | zero =>
    -- the walk is over, although there may be free slots ahead
    simp only [Cursor.next, Cursor.rest, ↓reduceIte, List.take_zero]
    exact ⟨rfl, owed, rfl⟩
  | succ remaining =>
    induction ahead with
    | nil => cases owed
    | cons slot ahead ih =>
      cases held : buffer.isOccupied slot with
      | true =>
        rw [List.filter_cons_of_pos held, List.length_cons] at owed
        rw [next_of_occupied held, Cursor.rest, List.filter_cons_of_pos held]
        exact ⟨rfl, Nat.succ.inj owed, rfl⟩
      | false =>
        rw [List.filter_cons_of_neg (by simp [held])] at owed
        rw [next_of_free held, rest_of_free held]
        exact ih owed

/-- A run of calls answers with what is ahead, and leaves a walk that has the rest ahead of it. -/
theorem Exact.take (owed : cursor.Exact buffer) (count : Nat) :
    (cursor.take buffer count).1 = answers (cursor.rest buffer) count ∧
      (cursor.take buffer count).2.Exact buffer ∧
      (cursor.take buffer count).2.rest buffer = (cursor.rest buffer).drop count := by
  induction count generalizing cursor with
  | zero => exact ⟨rfl, owed, rfl⟩
  | succ count ih =>
    obtain ⟨first, owedLater, rest⟩ := owed.next
    obtain ⟨others, owedLast, last⟩ := ih owedLater
    rw [rest] at others last
    refine ⟨?_, owedLast, ?_⟩
    · rw [answers_succ, ← first, ← others]
      rfl
    · rw [← List.drop_tail, ← last]
      rfl

end Cursor

/-- An iterator over the table yields these items, in however many calls, and whatever values are
written in between. It says how many are to come, at the start and after every run of calls; and the
iterator as it is then, which may have been copied, yields the ones that are left. -/
def Traversal.Yields (traversal : Traversal binding α) (table : Table binding)
    (items : List α) : Prop :=
  ∃ walk, traversal.start table.size = .ok walk ∧
    walk.sizeHint = (items.length, some items.length) ∧
    ∀ batches, ∃ after,
      let buffer := table.buffer.overwrite batches.flatten
      let left := items.drop batches.length
      traversal.calls batches table.buffer walk =
        .ok (answers items batches.length, buffer, after) ∧
      after.sizeHint = (left.length, some left.length) ∧
      ∀ further, ∃ last, traversal.calls further buffer after =
        .ok (answers left further.length, buffer.overwrite further.flatten, last)

theorem Traversal.Reaches.yields {traversal : Traversal binding α} {give : binding.Slot → α}
    (reaches : traversal.Reaches give) {table : Table binding}
    (owed : table.cursor.Exact table.buffer) :
    traversal.Yields table (table.elementSlots.map give) := by
  have total : (table.elementSlots.map give).length = table.cursor.remaining := by
    rw [List.length_map]
    exact owed.length_rest
  refine ⟨table.cursor.walk, traversal.start_eq reaches table, ?_, fun batches => ?_⟩
  · rw [total]
    rfl
  · obtain ⟨items, owedLater, rest⟩ := owed.take batches.length
    have called := traversal.calls_eq reaches batches table.buffer table.cursor
    have same := table.buffer.isOccupied_overwrite batches.flatten
    dsimp only at called
    generalize table.cursor.take table.buffer batches.length = taken at items owedLater rest called
    have left : taken.2.remaining =
        ((table.elementSlots.map give).drop batches.length).length := by
      rw [← owedLater.length_rest, rest, ← List.map_drop, List.length_map]
      rfl
    refine ⟨taken.2.walk, ?_, ?_, fun further => ?_⟩
    · rw [called, items, map_answers]
      rfl
    · rw [← left]
      rfl
    · obtain ⟨others, -, -⟩ := owedLater.take further.length
      have calledAgain :=
        traversal.calls_eq reaches further (table.buffer.overwrite batches.flatten) taken.2
      dsimp only at calledAgain
      rw [Cursor.take_congr same, others, rest, map_answers, List.map_drop] at calledAgain
      exact ⟨_, calledAgain⟩

/-! ### What is written -/

namespace Buffer

def run (buffer : Buffer binding) (span : Span) : Array UInt8 :=
  buffer.bytes.toArray.extract span.start span.stop

theorem run_eq_read (buffer : Buffer binding) {start count : Nat}
    (within : start + count ≤ length) :
    buffer.run ⟨start, count⟩ = (Bytes.read buffer.bytes start count within).toArray := by
  have size : (buffer.run ⟨start, count⟩).size = count := by
    change (buffer.bytes.toArray.extract start (start + count)).size = count
    rw [Array.size_extract, Vector.size_toArray]
    omega
  refine Array.ext (size.trans (Vector.size_toArray _).symm) fun i inside _ => ?_
  simp only [run, Array.getElem_extract, Vector.getElem_toArray]
  exact (Bytes.getElem_read buffer.bytes start within i (size ▸ inside)).symm

theorem run_key (buffer : Buffer binding) (slot : binding.Slot) :
    buffer.run (binding.keySpan slot) = (buffer.key slot).toArray :=
  buffer.run_eq_read (binding.key_end_le slot)

theorem run_value (buffer : Buffer binding) (slot : binding.Slot) :
    buffer.run (binding.valueSpan slot) = (buffer.value slot).toArray :=
  buffer.run_eq_read (binding.value_end_le slot)

theorem run_setValue (buffer : Buffer binding) (slot : binding.Slot) (value : shape.Value) :
    (buffer.setValue slot value).run (binding.valueSpan slot) = value.toArray := by
  rw [run_value, value_setValue, if_pos rfl]

theorem metadata_setValue (buffer : Buffer binding) (slot : binding.Slot) (value : shape.Value) :
    (buffer.setValue slot value).metadata = buffer.metadata := by
  have padded := binding.groupsLength_le_entriesOffset
  have start : binding.valueStart slot =
      binding.entriesOffset + slot.val * shape.entry.size + shape.entry.valueOffset := rfl
  have covers := binding.groupsLength_le
  refine Array.ext ?_ fun i inside _ => ?_
  · rw [metadata, metadata, Array.size_extract, Array.size_extract, Vector.size_toArray,
      Vector.size_toArray]
  · have small : i < binding.groupsLength := by
      rw [metadata, Array.size_extract, Vector.size_toArray] at inside
      omega
    have outside : ¬(binding.valueStart slot ≤ 0 + i ∧
        0 + i < binding.valueStart slot + shape.value.size) := by omega
    simp only [metadata, setValue, Array.getElem_extract, Vector.getElem_toArray,
      Bytes.getElem_write, dif_neg outside]

variable {slot : binding.Slot} {value : shape.Value}

theorem metadata_overwrite (buffer : Buffer binding)
    (writes : List (binding.Slot × shape.Value)) :
    (buffer.overwrite writes).metadata = buffer.metadata := by
  induction writes generalizing buffer with
  | nil => rfl
  | cons write rest ih => exact (ih _).trans (metadata_setValue _ _ _)

theorem key_overwrite (buffer : Buffer binding) (writes : List (binding.Slot × shape.Value))
    (slot : binding.Slot) : (buffer.overwrite writes).key slot = buffer.key slot := by
  induction writes generalizing buffer with
  | nil => rfl
  | cons write rest ih => exact (ih _).trans (key_setValue _ _ _ _)

theorem value_overwrite_of_not_mem (buffer : Buffer binding)
    {writes : List (binding.Slot × shape.Value)} (spared : slot ∉ writes.map Prod.fst) :
    (buffer.overwrite writes).value slot = buffer.value slot := by
  induction writes generalizing buffer with
  | nil => rfl
  | cons write rest ih =>
    rw [List.map_cons, List.mem_cons, not_or] at spared
    refine (ih _ spared.2).trans ?_
    rw [value_setValue, if_neg (Ne.symm spared.1)]

theorem value_overwrite (buffer : Buffer binding)
    {before after : List (binding.Slot × shape.Value)} (last : slot ∉ after.map Prod.fst) :
    (buffer.overwrite (before ++ (slot, value) :: after)).value slot = value := by
  rw [overwrite_append]
  refine (value_overwrite_of_not_mem _ last).trans ?_
  rw [value_setValue, if_pos rfl]

end Buffer

namespace Table

variable {table : Table binding}

def overwrite (table : Table binding) (writes : List (binding.Slot × shape.Value)) :
    Table binding :=
  { table with buffer := table.buffer.overwrite writes }

theorem Sound.overwrite (sound : table.Sound) (writes : List (binding.Slot × shape.Value)) :
    (table.overwrite writes).Sound := by
  induction writes generalizing table with
  | nil => exact sound
  | cons write rest ih => exact ih (sound.setValue write.1 write.2)

theorem elementSlots_overwrite (table : Table binding)
    (writes : List (binding.Slot × shape.Value)) :
    (table.overwrite writes).elementSlots = table.elementSlots := by
  have same := funext (table.buffer.isOccupied_overwrite writes)
  unfold elementSlots Cursor.rest
  exact congrArg (fun test => (List.filter test binding.allSlots).take table.size) same

theorem Sound.find_overwrite (sound : table.Sound) (writes : List (binding.Slot × shape.Value))
    (key : shape.Key) : (table.overwrite writes).find key = table.find key := by
  refine Option.ext fun slot => ?_
  rw [(sound.overwrite writes).find_eq_some, sound.find_eq_some]
  simp only [Table.overwrite, Buffer.isOccupied_overwrite, Buffer.key_overwrite]

theorem updateValues_eq_overwrite (table : Table binding)
    (change : shape.Key → shape.Value → shape.Value) (nodup : table.elementSlots.Nodup) :
    table.updateValues change = table.overwrite (table.elementSlots.map fun slot =>
      (slot, change (table.buffer.key slot) (table.buffer.value slot))) := by
  unfold updateValues
  generalize table.elementSlots = slots at nodup ⊢
  induction slots generalizing table with
  | nil => rfl
  | cons slot rest ih =>
    obtain ⟨fresh, nodup⟩ := List.nodup_cons.1 nodup
    rw [List.foldl_cons, ih _ nodup, List.map_cons]
    -- what is written to the first slot is not read again
    have later : ∀ value, (rest.map fun other => (other,
        change ((table.setValue slot value).buffer.key other)
          ((table.setValue slot value).buffer.value other))) =
        rest.map fun other =>
          (other, change (table.buffer.key other) (table.buffer.value other)) := by
      intro value
      refine List.map_congr_left fun other member => ?_
      have apart : slot ≠ other := fun same => fresh (same ▸ member)
      rw [Table.setValue, Buffer.key_setValue, Buffer.value_setValue, if_neg apart]
    rw [later]
    rfl

/-- Iterating over the table yields its elements, each once and in the order of the slots. -/
structure Iterates (table : Table binding) : Prop where
  ascending : table.elementSlots.Pairwise (· < ·)
  complete : ∀ slot, slot ∈ table.elementSlots ↔ table.buffer.isOccupied slot = true
  counted : table.elementSlots.length = table.size
  elements : ∀ key value, (key, value) ∈ table.entries ↔ table.Holds key value
  once : table.keys.Nodup
  /-- Each kind of iterator yields the places of the keys and values of these slots, or of one of
  the two. -/
  iter : (Traversal.iter binding).Yields table (table.elementSlots.map binding.parts)
  keys : (Traversal.keys binding).Yields table (table.elementSlots.map binding.keySpan)
  values : (Traversal.values binding).Yields table (table.elementSlots.map binding.valueSpan)
  iterMut : (Traversal.iterMut binding).Yields table (table.elementSlots.map binding.parts)
  valuesMut : (Traversal.valuesMut binding).Yields table (table.elementSlots.map binding.valueSpan)
  /-- What is read there is the key and the value of the slot, at every time; and what is written to
  the place of a value is the value of the slot from then on, and touches no other byte. -/
  places : ∀ (buffer : Buffer binding) slot,
    buffer.run (binding.keySpan slot) = (buffer.key slot).toArray ∧
    buffer.run (binding.valueSpan slot) = (buffer.value slot).toArray ∧
    ∀ value, (buffer.setValue slot value).run (binding.valueSpan slot) = value.toArray ∧
      buffer.ChangesOnly (buffer.setValue slot value) (binding.valueSpan slot).positions
  /-- Whatever values are written: the slots, the keys and the metadata stay, and so does the slot
  of every key. -/
  kept : ∀ writes, (table.overwrite writes).elementSlots = table.elementSlots ∧
    (table.overwrite writes).keys = table.keys ∧
    (table.overwrite writes).buffer.metadata = table.buffer.metadata ∧
    ∀ key, (table.overwrite writes).find key = table.find key
  /-- The value that was written last is the one that is got from then on. -/
  written : ∀ before slot value after, slot ∈ table.elementSlots → slot ∉ after.map Prod.fst →
    (table.overwrite (before ++ (slot, value) :: after)).get? (table.buffer.key slot) = some value
  /-- Revising all values is writing one to each element. -/
  revised : ∀ change, table.updateValues change = table.overwrite (table.elementSlots.map
    fun slot => (slot, change (table.buffer.key slot) (table.buffer.value slot)))

namespace Sound

theorem exact_cursor (sound : table.Sound) : table.cursor.Exact table.buffer :=
  sound.length_occupied

theorem keys_nodup (sound : table.Sound) : table.keys.Nodup := by
  refine List.Nodup.map_on (fun slot member other otherMember same => ?_) sound.elementSlots_nodup
  exact sound.distinct slot other (sound.mem_elementSlots.1 member)
    (sound.mem_elementSlots.1 otherMember) same

theorem iterates (sound : table.Sound) : table.Iterates where
  ascending := by
    rw [sound.elementSlots_eq]
    exact List.Pairwise.filter _ (List.pairwise_lt_finRange _)
  complete _ := sound.mem_elementSlots
  counted := sound.exact_cursor.length_rest
  elements _ _ := sound.mem_entries
  once := sound.keys_nodup
  iter := (Traversal.reaches_iter binding).yields sound.exact_cursor
  keys := (Traversal.reaches_keys binding).yields sound.exact_cursor
  values := (Traversal.reaches_values binding).yields sound.exact_cursor
  iterMut := (Traversal.reaches_iterMut binding).yields sound.exact_cursor
  valuesMut := (Traversal.reaches_valuesMut binding).yields sound.exact_cursor
  places buffer slot := ⟨buffer.run_key slot, buffer.run_value slot, fun value =>
    ⟨buffer.run_setValue slot value, .setValue buffer slot value⟩⟩
  kept writes := by
    refine ⟨table.elementSlots_overwrite writes, ?_, table.buffer.metadata_overwrite writes,
      sound.find_overwrite writes⟩
    rw [Table.keys, Table.keys, elementSlots_overwrite]
    exact List.map_congr_left fun slot _ => table.buffer.key_overwrite writes slot
  written before slot value after member last := by
    refine (sound.overwrite _).get?_eq_some.2 ⟨slot, ?_, ?_, ?_⟩
    · exact (table.buffer.isOccupied_overwrite _ slot).trans (sound.mem_elementSlots.1 member)
    · exact table.buffer.key_overwrite _ slot
    · exact table.buffer.value_overwrite last
  revised change := table.updateValues_eq_overwrite change sound.elementSlots_nodup

end Sound

end Table

namespace Mounted

/-- Iterating is complete and exact in every table that a session leads to. -/
theorem Reachable.iteration {mounted : Mounted shape} (reachable : mounted.Reachable) :
    mounted.table.Iterates :=
  reachable.sound.iterates

def thinned : Mounted Shape.bytes := (filled.act (.ask (.erase (Shape.byteKey 1))) ()).mounted

/-- The values of the second and of the third slot are yielded, at their places, and then
nothing. -/
theorem thinned_iteration :
    thinned.Reachable ∧ thinned.table.elementSlots.map Fin.val = [1, 2] ∧
    ∃ walk after, (Traversal.values thinned.binding).start thinned.table.size = .ok walk ∧
      walk.sizeHint = (2, some 2) ∧
      (Traversal.values thinned.binding).calls [[], [], [], []] thinned.table.buffer walk =
        .ok ([some ⟨9, 1⟩, some ⟨11, 1⟩, none, none], thinned.table.buffer, after) := by
  have reachable : thinned.Reachable := reachable_filled.act _ ()
  obtain ⟨walk, started, hint, runs⟩ := reachable.iteration.values
  obtain ⟨after, called, -⟩ := runs [[], [], [], []]
  have count : (thinned.table.elementSlots.map thinned.binding.valueSpan).length = 2 := by
    decide +kernel
  have items : answers (thinned.table.elementSlots.map thinned.binding.valueSpan) 4 =
      [some ⟨9, 1⟩, some ⟨11, 1⟩, none, none] := by decide +kernel
  rw [count] at hint
  change _ = Except.ok (answers _ 4, _, _) at called
  rw [items] at called
  exact ⟨reachable, by decide +kernel, walk, after, started, hint, called⟩

end Mounted

end PackedTable
