import PackedTable.Binding

/-!
The regions of a bound buffer do not meet: two positions in group metadata are different bytes
unless they are the same position, all metadata lies before all entries, and the entries of
different slots lie one behind the other.
-/

namespace PackedTable.Binding

variable {shape : Shape} {length : Nat}

theorem row_column_inj {width row column row' column' : Nat} (small : column < width)
    (small' : column' < width) (same : row * width + column = row' * width + column') :
    row = row' ∧ column = column' := by
  rcases Nat.lt_trichotomy row row' with before | equal | after
  · have step := Nat.mul_le_mul_right width (Nat.succ_le_of_lt before)
    rw [Nat.succ_mul] at step
    omega
  · subst equal
    exact ⟨rfl, by omega⟩
  · have step := Nat.mul_le_mul_right width (Nat.succ_le_of_lt after)
    rw [Nat.succ_mul] at step
    omega

theorem tag_position_inj {binding : Binding shape length} {group group' : binding.GroupIndex}
    {place place' : binding.Place}
    (same : binding.groupStart group + place.val = binding.groupStart group' + place'.val) :
    group = group' ∧ place = place' := by
  have parts := row_column_inj (Nat.lt_succ_of_lt place.isLt) (Nat.lt_succ_of_lt place'.isLt) same
  exact ⟨Fin.ext parts.1, Fin.ext parts.2⟩

theorem overflow_position_inj {binding : Binding shape length}
    {group group' : binding.GroupIndex}
    (same : binding.groupStart group + binding.slots = binding.groupStart group' + binding.slots) :
    group = group' := by
  have parts := row_column_inj (Nat.lt_succ_self _) (Nat.lt_succ_self _) same
  exact Fin.ext parts.1

theorem tag_position_ne_overflow {binding : Binding shape length}
    (group group' : binding.GroupIndex) (place : binding.Place) :
    binding.groupStart group + place.val ≠ binding.groupStart group' + binding.slots := by
  intro same
  have parts := row_column_inj (Nat.lt_succ_of_lt place.isLt) (Nat.lt_succ_self _) same
  exact absurd parts.2 (Nat.ne_of_lt place.isLt)

theorem tag_lt_entryStart {binding : Binding shape length} (group : binding.GroupIndex)
    (place : binding.Place) (slot : binding.Slot) :
    binding.groupStart group + place.val < binding.entryStart slot := by
  have last := binding.group_end_le group
  have padded := binding.groupsLength_le_entriesOffset
  unfold entryStart
  omega

theorem overflow_lt_entryStart {binding : Binding shape length} (group : binding.GroupIndex)
    (slot : binding.Slot) :
    binding.groupStart group + binding.slots < binding.entryStart slot := by
  have last := binding.group_end_le group
  have padded := binding.groupsLength_le_entriesOffset
  unfold entryStart
  omega

theorem entry_end_le_entryStart (binding : Binding shape length) {slot slot' : binding.Slot}
    (before : slot.val < slot'.val) :
    binding.entryStart slot + shape.entry.size ≤ binding.entryStart slot' := by
  have step := Nat.mul_le_mul_right shape.entry.size (Nat.succ_le_of_lt before)
  rw [Nat.succ_mul] at step
  unfold entryStart
  omega

theorem groupOf_slotAt {binding : Binding shape length} {group : binding.GroupIndex}
    {place : binding.Place} {slot : binding.Slot}
    (found : binding.slotAt? group place = some slot) :
    binding.groupOf slot = group ∧ binding.placeOf slot = place := by
  have home := binding.slotNumber_home slot
  unfold slotAt? at found
  split at found
  case isTrue stored =>
    have number : slot.val = binding.slotNumber group place := by
      rw [← Option.some.inj found]
    have parts := row_column_inj (binding.placeOf slot).isLt place.isLt (home.trans number)
    exact ⟨Fin.ext parts.1, Fin.ext parts.2⟩
  case isFalse => contradiction

theorem slotAt_home {binding : Binding shape length} (slot : binding.Slot) :
    binding.slotAt? (binding.groupOf slot) (binding.placeOf slot) = some slot := by
  have home := binding.slotNumber_home slot
  unfold slotAt?
  rw [dif_pos (home ▸ slot.isLt)]
  exact congrArg some (Fin.ext home)

end PackedTable.Binding
