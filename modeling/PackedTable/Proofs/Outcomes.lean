import Mathlib.Data.List.TakeWhile
import PackedTable.Proofs.Placement
import PackedTable.Proofs.Relocation
import PackedTable.Proofs.Session

/-!
What insertions and removals come to, whatever bytes the buffer holds. Nothing is assumed of tags,
overflow bits or the size: an insertion finds its key, or finds the table full, or places the key,
or passes all groups without finding room; a removal finds its key or does nothing. Such bytes get
into use by attaching to them, which asks for the order of the size control alone.
-/

namespace PackedTable

variable {shape : Shape} {length : Nat} {binding : Binding shape length} {σ : Type}

namespace Buffer

theorem setValue_value (buffer : Buffer binding) (slot : binding.Slot) :
    buffer.setValue slot (buffer.value slot) = buffer := by
  obtain ⟨bytes⟩ := buffer
  apply congrArg Buffer.mk
  refine Vector.ext fun i inside => ?_
  rw [Bytes.getElem_write]
  split
  case isTrue range =>
    rw [value, Bytes.getElem_read]
    congr 1
    omega
  case isFalse => rfl

theorem fullAhead_of_landing?_eq_none {buffer : Buffer binding} {groups : List binding.GroupIndex}
    (exhausted : buffer.landing? groups = none) : buffer.fullAhead groups = groups := by
  rw [landing?, Option.map_eq_none_iff, List.findSome?_eq_none_iff] at exhausted
  rw [fullAhead, List.takeWhile_eq_self_iff]
  intro group member
  rw [exhausted group member]
  rfl

end Buffer

namespace Table

variable {table : Table binding}

theorem setValue_value (table : Table binding) (slot : binding.Slot) :
    table.setValue slot (table.buffer.value slot) = table := by
  rw [setValue, Buffer.setValue_value]

theorem value_place (table : Table binding) (slot : binding.Slot) (hash : UInt64)
    (key : shape.Key) (value : shape.Value) :
    (table.place slot hash key value).buffer.value slot = value := by
  rw [place, Buffer.value_occupy, if_pos rfl]

def exhaust (table : Table binding) (hash : UInt64) : Table binding :=
  { table with buffer := table.buffer.markAll hash (binding.geometry.route hash) }

theorem insertUnique_of_exhausted {hash : UInt64} (exhausted : table.landing? hash = none)
    (key : shape.Key) (value : shape.Value) :
    table.insertUnique hash key value = ⟨table.exhaust hash, .error .probeExhausted⟩ := by
  have walk := table.buffer.settle_eq hash key value binding.groupCount
    (Probe.ofHash binding.geometry hash)
  dsimp only at walk
  change table.buffer.landing? (binding.geometry.groupsAlong _ _) = none at exhausted
  rw [exhausted, Buffer.fullAhead_of_landing?_eq_none exhausted] at walk
  rw [insertUnique, walk]
  rfl

/-! ### Insertions -/

section

variable {key : shape.Key} {slot : binding.Slot}

theorem findOrInsertWith_of_found
    (found : table.findWithHash (table.hash key) (· == key) = some slot)
    (supply : σ → shape.Value × σ) (state : σ) :
    table.findOrInsertWith key supply state = (⟨table, .ok (slot, false)⟩, state) := by
  simp only [findOrInsertWith, found]

theorem findOrInsertWith_of_full (missed : table.findWithHash (table.hash key) (· == key) = none)
    (full : ¬table.size < table.maxLoad) (supply : σ → shape.Value × σ) (state : σ) :
    table.findOrInsertWith key supply state =
      (⟨table, .error (.tableFull table.size table.maxLoad)⟩, state) := by
  have closed : table.canInsert = false := decide_eq_false full
  simp only [findOrInsertWith, missed, closed, Bool.false_eq_true, ↓reduceIte]

theorem findOrInsertWith_of_landing
    (missed : table.findWithHash (table.hash key) (· == key) = none)
    (room : table.size < table.maxLoad) (lands : table.landing? (table.hash key) = some slot)
    (supply : σ → shape.Value × σ) (state : σ) :
    table.findOrInsertWith key supply state =
      (⟨table.place slot (table.hash key) key (supply state).1, .ok (slot, true)⟩,
        (supply state).2) := by
  have opened : table.canInsert = true := decide_eq_true room
  simp only [findOrInsertWith, missed, opened, ↓reduceIte, insertUnique_of_landing lands]

theorem findOrInsertWith_of_exhausted
    (missed : table.findWithHash (table.hash key) (· == key) = none)
    (room : table.size < table.maxLoad) (exhausted : table.landing? (table.hash key) = none)
    (supply : σ → shape.Value × σ) (state : σ) :
    table.findOrInsertWith key supply state =
      (⟨table.exhaust (table.hash key), .error .probeExhausted⟩, (supply state).2) := by
  have opened : table.canInsert = true := decide_eq_true room
  simp only [findOrInsertWith, missed, opened, ↓reduceIte, insertUnique_of_exhausted exhausted]

end

section

variable {insertion : Insertion shape σ} {slot : binding.Slot}

theorem attempt_of_found
    (found : table.findWithHash (table.hash insertion.key) (· == insertion.key) = some slot)
    (state : σ) :
    let kept := insertion.keep (table.buffer.value slot)
    insertion.attempt table state =
      (⟨table.setValue slot kept, .ok ⟨slot, kept, false⟩⟩, state) := by
  cases insertion <;>
    simp only [Insertion.key] at found <;>
    simp only [Insertion.attempt, Insertion.keep, getOrInsertWith, getOrInsertDefault, insertNew,
      assign, insert, Attempt.stored, findOrInsertWith_of_found found, Except.map, setValue_value]

theorem attempt_of_full
    (missed : table.findWithHash (table.hash insertion.key) (· == insertion.key) = none)
    (full : ¬table.size < table.maxLoad) (state : σ) :
    insertion.attempt table state =
      (⟨table, .error (.tableFull table.size table.maxLoad)⟩, state) := by
  cases insertion <;>
    simp only [Insertion.key] at missed <;>
    simp only [Insertion.attempt, getOrInsertWith, getOrInsertDefault, insertNew, assign, insert,
      Attempt.stored, findOrInsertWith_of_full missed full, Except.map]

theorem attempt_of_landing
    (missed : table.findWithHash (table.hash insertion.key) (· == insertion.key) = none)
    (room : table.size < table.maxLoad)
    (lands : table.landing? (table.hash insertion.key) = some slot) (state : σ) :
    let offered := insertion.offer state
    insertion.attempt table state =
      (⟨table.place slot (table.hash insertion.key) insertion.key offered.1,
        .ok ⟨slot, offered.1, true⟩⟩, offered.2) := by
  cases insertion <;>
    simp only [Insertion.key] at missed lands ⊢ <;>
    simp only [Insertion.attempt, Insertion.offer, getOrInsertWith, getOrInsertDefault, insertNew,
      assign, insert, Attempt.stored, findOrInsertWith_of_landing missed room lands, Except.map,
      value_place]

theorem attempt_of_exhausted
    (missed : table.findWithHash (table.hash insertion.key) (· == insertion.key) = none)
    (room : table.size < table.maxLoad)
    (exhausted : table.landing? (table.hash insertion.key) = none) (state : σ) :
    insertion.attempt table state =
      (⟨table.exhaust (table.hash insertion.key), .error .probeExhausted⟩,
        (insertion.offer state).2) := by
  cases insertion <;>
    simp only [Insertion.key] at missed exhausted ⊢ <;>
    simp only [Insertion.attempt, Insertion.offer, getOrInsertWith, getOrInsertDefault, insertNew,
      assign, insert, Attempt.stored, findOrInsertWith_of_exhausted missed room exhausted,
      Except.map]

theorem attempt_cases (table : Table binding) (insertion : Insertion shape σ) (state : σ) :
    let hash := table.hash insertion.key
    let search := table.findWithHash hash (· == insertion.key)
    let kept slot := insertion.keep (table.buffer.value slot)
    let offered := insertion.offer state
    (∃ slot, search = some slot ∧ insertion.attempt table state =
        (⟨table.setValue slot (kept slot), .ok ⟨slot, kept slot, false⟩⟩, state)) ∨
      (search = none ∧ table.maxLoad ≤ table.size ∧ insertion.attempt table state =
        (⟨table, .error (.tableFull table.size table.maxLoad)⟩, state)) ∨
      (∃ slot, search = none ∧ table.size < table.maxLoad ∧ table.landing? hash = some slot ∧
        insertion.attempt table state =
          (⟨table.place slot hash insertion.key offered.1, .ok ⟨slot, offered.1, true⟩⟩,
            offered.2)) ∨
      (search = none ∧ table.size < table.maxLoad ∧ table.landing? hash = none ∧
        insertion.attempt table state =
          (⟨table.exhaust hash, .error .probeExhausted⟩, offered.2)) := by
  intro hash search kept offered
  cases found : search with
  | some slot => exact Or.inl ⟨slot, rfl, attempt_of_found found state⟩
  | none =>
    rcases Nat.lt_or_ge table.size table.maxLoad with room | full
    · cases lands : table.landing? hash with
      | some slot =>
        exact Or.inr (Or.inr (Or.inl
          ⟨slot, rfl, room, rfl, attempt_of_landing found room lands state⟩))
      | none =>
        exact Or.inr (Or.inr (Or.inr ⟨rfl, room, rfl, attempt_of_exhausted found room lands state⟩))
    · exact Or.inr (Or.inl ⟨rfl, full, attempt_of_full found (Nat.not_lt_of_le full) state⟩)

end

/-! ### Keys that are taken out or written to -/

theorem find_sound {key : shape.Key} {slot : binding.Slot} (found : table.find key = some slot) :
    0 < table.size ∧ table.buffer.isOccupied slot = true ∧ table.buffer.key slot = key := by
  rw [find, findWhere] at found
  split at found
  case isTrue => cases found
  case isFalse some =>
    obtain ⟨tagged, passes⟩ := findWithHash_sound found
    have positive : 0 < table.size := by
      apply Nat.pos_of_ne_zero
      intro zero
      exact some (beq_iff_eq.2 zero)
    exact ⟨positive, Buffer.isOccupied_of_slotTag tagged, eq_of_beq passes⟩

theorem remove_of_found {key : shape.Key} {slot : binding.Slot}
    (found : table.find key = some slot) :
    table.remove key = (some (table.buffer.entry slot), (table.removeSlot slot).2) := by
  simp only [remove, found]
  rfl

theorem remove_of_missed {key : shape.Key} (missed : table.find key = none) :
    table.remove key = (none, table) := by
  simp only [remove, missed]

theorem update_of_found {key : shape.Key} {slot : binding.Slot} (found : table.find key = some slot)
    (write : shape.Value → shape.Value) :
    table.update key write =
      (some (table.buffer.value slot),
        table.setValue slot (write (table.buffer.value slot))) := by
  simp only [update, replace, get?, getEntry?, found, Option.map_some, Buffer.entry]

theorem update_of_missed {key : shape.Key} (missed : table.find key = none)
    (write : shape.Value → shape.Value) : table.update key write = (none, table) := by
  simp only [update, get?, getEntry?, missed, Option.map_none]

end Table

namespace Mounted

/-- Attaching looks at the place of a buffer and at the size control, and at nothing else. -/
theorem attach_eq_ok {width : Width} {geometry : Geometry} {region : Region}
    {hash : shape.Key → UInt64} {size maxLoad : Nat} {mounted : Mounted shape}
    (attached : attach width geometry region hash size maxLoad = .ok mounted) :
    ∃ binding : Binding shape region.bytes.size,
      binding.width = width ∧ binding.geometry = geometry ∧ size ≤ maxLoad ∧
        maxLoad ≤ binding.capacity ∧
        mounted = ⟨binding, ⟨⟨region.bytes.toVector⟩, hash, size, maxLoad⟩⟩ := by
  unfold attach at attached
  cases bound : Binding.bind shape width geometry region.address region.bytes.size with
  | error cause =>
    rw [bound] at attached
    cases attached
  | ok binding =>
    obtain ⟨sameWidth, sameGeometry, -⟩ := Binding.bind_eq_ok bound
    rw [bound] at attached
    simp only [bind, Except.bind, Table.attach] at attached
    by_cases inOrder : size ≤ maxLoad ∧ maxLoad ≤ binding.capacity
    · rw [if_pos inOrder] at attached
      cases attached
      exact ⟨binding, sameWidth, sameGeometry, inOrder.1, inOrder.2, rfl⟩
    · rw [if_neg inOrder] at attached
      cases attached

end Mounted

end PackedTable
