import PackedTable.Proofs.Abandonment

/-!
A search compares keys only under a matching tag, and it ends at the first group that no insertion
of the hash has moved past. In a table that some session has led to this makes no difference: what
it finds is what a scan of all slots finds, in the order of the slots, with no regard to tags,
overflow or the size.
-/

namespace PackedTable

variable {shape : Shape} {length : Nat} {binding : Binding shape length}

namespace Table

variable {table : Table binding}

/-- The first slot of the whole table that holds an element whose key passes a test. -/
def scan? (table : Table binding) (test : shape.Key → Bool) : Option binding.Slot :=
  binding.allSlots.find? fun slot => table.buffer.isOccupied slot && test (table.buffer.key slot)

theorem scan?_sound {test : shape.Key → Bool} {slot : binding.Slot}
    (found : table.scan? test = some slot) :
    table.buffer.isOccupied slot = true ∧ test (table.buffer.key slot) = true := by
  rw [scan?] at found
  have passes := List.find?_some found
  exact Bool.and_eq_true_iff.1 passes

theorem scan?_eq_none {test : shape.Key → Bool} :
    table.scan? test = none ↔
      ∀ slot, table.buffer.isOccupied slot = true → test (table.buffer.key slot) ≠ true := by
  rw [scan?, List.find?_eq_none]
  constructor
  · intro missed slot held passes
    exact missed slot (Binding.mem_allSlots slot) (Bool.and_eq_true_iff.2 ⟨held, passes⟩)
  · intro absent slot _ both
    obtain ⟨held, passes⟩ := Bool.and_eq_true_iff.1 both
    exact absent slot held passes

namespace Searchable

/-- The tags and the overflow bits of a search are no more than a shorter way. -/
theorem findWithHash_eq_scan? (searchable : table.Searchable) {hash : UInt64}
    {test : shape.Key → Bool} (asks : table.Asks hash test) :
    table.findWithHash hash test = table.scan? test := by
  cases scanned : table.scan? test with
  | some slot => exact (searchable.findWithHash_eq_some asks).2 (scan?_sound scanned)
  | none =>
    cases found : table.findWithHash hash test with
    | none => rfl
    | some slot =>
      obtain ⟨held, passes⟩ := (searchable.findWithHash_eq_some asks).1 found
      exact absurd passes (scan?_eq_none.1 scanned slot held)

theorem find_eq_scan? (searchable : table.Searchable) (key : shape.Key) :
    table.find key = table.scan? (· == key) :=
  (searchable.findWhere_eq_findWithHash (table.asks_key key)).trans
    (searchable.findWithHash_eq_scan? (table.asks_key key))

theorem find_eq_none (searchable : table.Searchable) {key : shape.Key} :
    table.find key = none ↔ ¬table.Has key := by
  rw [searchable.find_eq_scan?, scan?_eq_none]
  simp only [Has, not_exists, not_and, beq_iff_eq, ne_eq]

theorem slot_eq (searchable : table.Searchable) {slot other : binding.Slot}
    (held : table.buffer.isOccupied slot = true) (otherHeld : table.buffer.isOccupied other = true)
    (same : table.buffer.key slot = table.buffer.key other) : slot = other :=
  searchable.recount.distinct slot other held otherHeld same

end Searchable

end Table

namespace Mounted

/-- Every search of a table that some session leads to, abandoned passes included, and of every key,
comes to what a scan of all slots comes to. Whether the table has elements need not be looked at
first. The one occupied slot with the key is found, and if there is none, then nothing is. -/
theorem Attained.find_eq_scan {mounted : Mounted shape} (attained : mounted.Attained)
    (key : shape.Key) :
    let table := mounted.table
    table.find key = table.findWithHash (table.hash key) (· == key) ∧
    table.find key = table.scan? (· == key) ∧
    (∀ slot, table.find key = some slot ↔
      table.buffer.isOccupied slot = true ∧ table.buffer.key slot = key ∧
        ∀ other, table.buffer.isOccupied other = true → table.buffer.key other = key →
          other = slot) ∧
    (table.find key = none ↔
      ∀ slot, table.buffer.isOccupied slot = true → table.buffer.key slot ≠ key) := by
  have searchable := attained.searchable
  refine ⟨searchable.findWhere_eq_findWithHash (mounted.table.asks_key key),
    searchable.find_eq_scan? key, fun slot => ?_, ?_⟩
  · rw [searchable.find_eq_some]
    constructor
    · rintro ⟨held, same⟩
      refine ⟨held, same, fun other otherHeld otherSame => ?_⟩
      exact searchable.slot_eq otherHeld held (otherSame.trans same.symm)
    · rintro ⟨held, same, -⟩
      exact ⟨held, same⟩
  · rw [searchable.find_eq_none]
    simp only [Table.Has, not_exists, not_and, ne_eq]

/-- Behind a full group the third key is still found; and the key that was taken out is not,
although the table has not been told that it is gone. -/
theorem find_eq_scan_deserted :
    deserted.table.size = 3 ∧ deserted.table.buffer.occupied.card = 2 ∧
    (deserted.table.find (Shape.byteKey 3)).map Fin.val = some 1 ∧
    deserted.table.find (Shape.byteKey 3) = deserted.table.scan? (· == Shape.byteKey 3) ∧
    deserted.table.find (Shape.byteKey 1) = none ∧
    ∀ slot, deserted.table.buffer.isOccupied slot = true →
      deserted.table.buffer.key slot ≠ Shape.byteKey 1 := by
  have gone : deserted.table.find (Shape.byteKey 1) = none := by decide +kernel
  obtain ⟨-, scanned, -, -⟩ := attained_deserted.find_eq_scan (Shape.byteKey 3)
  obtain ⟨-, -, -, missed⟩ := attained_deserted.find_eq_scan (Shape.byteKey 1)
  exact ⟨by decide +kernel, by decide +kernel, by decide +kernel, scanned, gone, missed.1 gone⟩

end Mounted

end PackedTable
