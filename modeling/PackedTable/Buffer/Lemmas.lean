import PackedTable.Binding.Regions
import PackedTable.Buffer

/-!
What each change of a buffer does to what can be read from it: the part that was changed reads as
it was written, and every other part reads as before.
-/

namespace PackedTable.Buffer

variable {shape : Shape} {length : Nat} {binding : Binding shape length}

theorem tag_setTag (buffer : Buffer binding) (group group' : binding.GroupIndex)
    (place place' : binding.Place) (tag : UInt8) :
    (buffer.setTag group place tag).tag group' place' =
      if group = group' ∧ place = place' then tag else buffer.tag group' place' := by
  simp only [Buffer.tag, setTag, Vector.getElem_set]
  by_cases same : group = group' ∧ place = place'
  · obtain ⟨rfl, rfl⟩ := same
    simp
  · have apart : binding.groupStart group + place.val ≠ binding.groupStart group' + place'.val :=
      fun equal => same (Binding.tag_position_inj equal)
    rw [if_neg apart, if_neg same]

theorem overflow_setTag (buffer : Buffer binding) (group group' : binding.GroupIndex)
    (place : binding.Place) (tag : UInt8) :
    (buffer.setTag group place tag).overflow group' = buffer.overflow group' := by
  simp only [overflow, setTag, Vector.getElem_set]
  rw [if_neg (Binding.tag_position_ne_overflow group group' place)]

theorem tag_markOverflow (buffer : Buffer binding) (group group' : binding.GroupIndex)
    (place : binding.Place) (hash : UInt64) :
    (buffer.markOverflow group hash).tag group' place = buffer.tag group' place := by
  simp only [Buffer.tag, markOverflow, Vector.getElem_set]
  rw [if_neg (Binding.tag_position_ne_overflow group' group place).symm]

theorem overflow_markOverflow (buffer : Buffer binding) (group group' : binding.GroupIndex)
    (hash : UInt64) :
    (buffer.markOverflow group hash).overflow group' =
      if group = group' then buffer.overflow group ||| Tag.overflowBit hash
      else buffer.overflow group' := by
  unfold markOverflow
  generalize buffer.overflow group ||| Tag.overflowBit hash = marked
  simp only [overflow, Vector.getElem_set]
  by_cases same : group = group'
  · subst same
    simp
  · have apart : binding.groupStart group + binding.slots ≠
        binding.groupStart group' + binding.slots :=
      fun equal => same (Binding.overflow_position_inj equal)
    rw [if_neg apart, if_neg same]

theorem read_set_before {count start : Nat} (bytes : Vector UInt8 length) (position : Nat)
    (inside : position < length) (byte : UInt8) (within : start + count ≤ length)
    (before : position < start) :
    Bytes.read (bytes.set position byte) start count within =
      Bytes.read bytes start count within := by
  ext i small
  have apart : position ≠ start + i := by omega
  rw [Bytes.getElem_read, Bytes.getElem_read, Vector.getElem_set, if_neg apart]

theorem key_setTag (buffer : Buffer binding) (group : binding.GroupIndex) (place : binding.Place)
    (tag : UInt8) (slot : binding.Slot) :
    (buffer.setTag group place tag).key slot = buffer.key slot :=
  read_set_before _ _ (binding.tag_lt group place) _ (binding.key_end_le slot)
    (Binding.tag_lt_entryStart group place slot)

theorem value_setTag (buffer : Buffer binding) (group : binding.GroupIndex)
    (place : binding.Place) (tag : UInt8) (slot : binding.Slot) :
    (buffer.setTag group place tag).value slot = buffer.value slot :=
  read_set_before _ _ (binding.tag_lt group place) _ (binding.value_end_le slot)
    (Nat.lt_of_lt_of_le (Binding.tag_lt_entryStart group place slot) (Nat.le_add_right _ _))

theorem key_markOverflow (buffer : Buffer binding) (group : binding.GroupIndex) (hash : UInt64)
    (slot : binding.Slot) : (buffer.markOverflow group hash).key slot = buffer.key slot :=
  read_set_before _ _ (binding.overflow_lt group) _ (binding.key_end_le slot)
    (Binding.overflow_lt_entryStart group slot)

theorem value_markOverflow (buffer : Buffer binding) (group : binding.GroupIndex) (hash : UInt64)
    (slot : binding.Slot) : (buffer.markOverflow group hash).value slot = buffer.value slot :=
  read_set_before _ _ (binding.overflow_lt group) _ (binding.value_end_le slot)
    (Nat.lt_of_lt_of_le (Binding.overflow_lt_entryStart group slot) (Nat.le_add_right _ _))

theorem getElem_write_before {count start : Nat} (bytes : Vector UInt8 length)
    (run : Vector UInt8 count) (within : start + count ≤ length) (position : Nat)
    (inside : position < length) (before : position < start) :
    (Bytes.write bytes start run within)[position] = bytes[position] := by
  rw [Bytes.getElem_write, dif_neg (by omega)]

theorem tag_setKey (buffer : Buffer binding) (slot : binding.Slot) (key : shape.Key)
    (group : binding.GroupIndex) (place : binding.Place) :
    (buffer.setKey slot key).tag group place = buffer.tag group place :=
  getElem_write_before _ _ (binding.key_end_le slot) _ (binding.tag_lt group place)
    (Binding.tag_lt_entryStart group place slot)

theorem tag_setValue (buffer : Buffer binding) (slot : binding.Slot) (value : shape.Value)
    (group : binding.GroupIndex) (place : binding.Place) :
    (buffer.setValue slot value).tag group place = buffer.tag group place :=
  getElem_write_before _ _ (binding.value_end_le slot) _ (binding.tag_lt group place)
    (Nat.lt_of_lt_of_le (Binding.tag_lt_entryStart group place slot) (Nat.le_add_right _ _))

theorem overflow_setKey (buffer : Buffer binding) (slot : binding.Slot) (key : shape.Key)
    (group : binding.GroupIndex) :
    (buffer.setKey slot key).overflow group = buffer.overflow group :=
  getElem_write_before _ _ (binding.key_end_le slot) _ (binding.overflow_lt group)
    (Binding.overflow_lt_entryStart group slot)

theorem overflow_setValue (buffer : Buffer binding) (slot : binding.Slot) (value : shape.Value)
    (group : binding.GroupIndex) :
    (buffer.setValue slot value).overflow group = buffer.overflow group :=
  getElem_write_before _ _ (binding.value_end_le slot) _ (binding.overflow_lt group)
    (Nat.lt_of_lt_of_le (Binding.overflow_lt_entryStart group slot) (Nat.le_add_right _ _))

theorem key_setKey (buffer : Buffer binding) (slot slot' : binding.Slot) (key : shape.Key) :
    (buffer.setKey slot key).key slot' = if slot = slot' then key else buffer.key slot' := by
  by_cases same : slot = slot'
  · subst same
    rw [if_pos rfl]
    exact Bytes.read_write _ _ _ _
  · rw [if_neg same]
    refine Bytes.read_write_apart _ _ _ _ (binding.key_end_le slot) (binding.key_end_le slot') ?_
    have keyBound := shape.key_end_le
    have valueBound := shape.value_end_le
    rcases Nat.lt_or_gt_of_ne (fun equal => same (Fin.ext equal)) with before | after
    · have gap := binding.entry_end_le_entryStart before
      omega
    · have gap := binding.entry_end_le_entryStart after
      omega

theorem value_setKey (buffer : Buffer binding) (slot slot' : binding.Slot) (key : shape.Key) :
    (buffer.setKey slot key).value slot' = buffer.value slot' := by
  refine Bytes.read_write_apart _ _ _ _ (binding.key_end_le slot) (binding.value_end_le slot') ?_
  have keyBound := shape.key_end_le
  have valueBound := shape.value_end_le
  unfold Binding.valueStart
  rcases Nat.lt_trichotomy slot.val slot'.val with before | equal | after
  · have gap := binding.entry_end_le_entryStart before
    omega
  · have same : slot = slot' := Fin.ext equal
    subst same
    omega
  · have gap := binding.entry_end_le_entryStart after
    omega

theorem key_setValue (buffer : Buffer binding) (slot slot' : binding.Slot) (value : shape.Value) :
    (buffer.setValue slot value).key slot' = buffer.key slot' := by
  refine Bytes.read_write_apart _ _ _ _ (binding.value_end_le slot) (binding.key_end_le slot') ?_
  have keyBound := shape.key_end_le
  have valueBound := shape.value_end_le
  unfold Binding.valueStart
  rcases Nat.lt_trichotomy slot.val slot'.val with before | equal | after
  · have gap := binding.entry_end_le_entryStart before
    omega
  · have same : slot = slot' := Fin.ext equal
    subst same
    omega
  · have gap := binding.entry_end_le_entryStart after
    omega

theorem value_setValue (buffer : Buffer binding) (slot slot' : binding.Slot)
    (value : shape.Value) :
    (buffer.setValue slot value).value slot' =
      if slot = slot' then value else buffer.value slot' := by
  by_cases same : slot = slot'
  · subst same
    rw [if_pos rfl]
    exact Bytes.read_write _ _ _ _
  · rw [if_neg same]
    refine Bytes.read_write_apart _ _ _ _ (binding.value_end_le slot)
      (binding.value_end_le slot') ?_
    have valueBound := shape.value_end_le
    unfold Binding.valueStart
    rcases Nat.lt_or_gt_of_ne (fun equal => same (Fin.ext equal)) with before | after
    · have gap := binding.entry_end_le_entryStart before
      omega
    · have gap := binding.entry_end_le_entryStart after
      omega

theorem tag_blank (buffer : Buffer binding) (group : binding.GroupIndex) (place : binding.Place) :
    buffer.blank.tag group place = Tag.empty := by
  have last := binding.group_end_le group
  simp only [Buffer.tag, blank, Bytes.getElem_clear]
  rw [if_pos (by omega)]
  rfl

theorem overflow_blank (buffer : Buffer binding) (group : binding.GroupIndex) :
    buffer.blank.overflow group = 0 := by
  have last := binding.group_end_le group
  simp only [overflow, blank, Bytes.getElem_clear]
  rw [if_pos (by omega)]

theorem tag_reset (buffer : Buffer binding) (group : binding.GroupIndex) (place : binding.Place) :
    buffer.reset.tag group place =
      if binding.lastGroup = group ∧ binding.lastPlace = place then Tag.sentinel
      else Tag.empty := by
  rw [reset, tag_setTag, tag_blank]

theorem overflow_reset (buffer : Buffer binding) (group : binding.GroupIndex) :
    buffer.reset.overflow group = 0 := by
  rw [reset, overflow_setTag, overflow_blank]

end PackedTable.Buffer
