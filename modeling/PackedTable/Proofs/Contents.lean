import PackedTable.Proofs.Operations

/-!
The elements of a table after an edit, told by keys alone: the key of the edit has its new value or
is gone, and every other key has the value that it had.
-/

namespace PackedTable.Table

variable {shape : Shape} {length : Nat} {binding : Binding shape length} {table : Table binding}

theorem has_iff_exists_holds {key : shape.Key} :
    table.Has key ↔ ∃ value, table.Holds key value := by
  constructor
  · rintro ⟨slot, held, same⟩
    exact ⟨table.buffer.value slot, slot, held, same, rfl⟩
  · rintro ⟨value, slot, held, same, -⟩
    exact ⟨slot, held, same⟩

def heldKeys (table : Table binding) : Finset shape.Key :=
  table.buffer.occupied.image table.buffer.key

theorem mem_heldKeys {key : shape.Key} : key ∈ table.heldKeys ↔ table.Has key := by
  rw [heldKeys, Finset.mem_image, Has]
  simp only [Buffer.mem_occupied]

namespace Sound

theorem holds_iff (sound : table.Sound) {key : shape.Key} {slot : binding.Slot}
    (held : table.buffer.isOccupied slot = true) (same : table.buffer.key slot = key)
    {value : shape.Value} : table.Holds key value ↔ table.buffer.value slot = value := by
  constructor
  · rintro ⟨other, otherHeld, otherSame, found⟩
    rw [sound.distinct slot other held otherHeld (same.trans otherSame.symm)]
    exact found
  · intro found
    exact ⟨slot, held, same, found⟩

theorem holds_setValue (sound : table.Sound) {key : shape.Key} {slot : binding.Slot}
    (held : table.buffer.isOccupied slot = true) (same : table.buffer.key slot = key)
    (value : shape.Value) {key' : shape.Key} {value' : shape.Value} :
    (table.setValue slot value).Holds key' value' ↔
      if key' = key then value = value' else table.Holds key' value' := by
  have held' : (table.setValue slot value).buffer.isOccupied slot = true :=
    (Buffer.isOccupied_setValue _ _ _ _).trans held
  have same' : (table.setValue slot value).buffer.key slot = key :=
    (Buffer.key_setValue _ _ _ _).trans same
  by_cases chosen : key' = key
  · subst chosen
    rw [if_pos rfl, (sound.setValue slot value).holds_iff held' same', Table.setValue,
      Buffer.value_setValue, if_pos rfl]
  · rw [if_neg chosen]
    apply exists_congr
    intro other
    simp only [Table.setValue, Buffer.isOccupied_setValue, Buffer.key_setValue,
      Buffer.value_setValue]
    refine and_congr_right fun _ => and_congr_right fun otherSame => ?_
    have apart : slot ≠ other := by
      intro equal
      subst equal
      exact chosen (otherSame.symm.trans same)
    rw [if_neg apart]

theorem holds_removeSlot (sound : table.Sound) {key : shape.Key} {slot : binding.Slot}
    (held : table.buffer.isOccupied slot = true) (same : table.buffer.key slot = key)
    {key' : shape.Key} {value : shape.Value} :
    (table.removeSlot slot).2.Holds key' value ↔ key' ≠ key ∧ table.Holds key' value := by
  have content : ∀ other, (table.removeSlot slot).2.buffer.key other = table.buffer.key other ∧
      (table.removeSlot slot).2.buffer.value other = table.buffer.value other := fun other =>
    ⟨Buffer.key_setTag _ _ _ _ _, Buffer.value_setTag _ _ _ _ _⟩
  constructor
  · rintro ⟨other, kept, otherSame, found⟩
    rw [(content other).1] at otherSame
    rw [(content other).2] at found
    obtain ⟨apart, before⟩ := (Buffer.isOccupied_release _ _ _).1 kept
    refine ⟨fun equal => apart ?_, other, before, otherSame, found⟩
    exact sound.distinct other slot before held (otherSame.trans (equal.trans same.symm))
  · rintro ⟨apart, other, before, otherSame, found⟩
    refine ⟨other, (Buffer.isOccupied_release _ _ _).2 ⟨fun equal => apart ?_, before⟩,
      (content other).1.trans otherSame, (content other).2.trans found⟩
    rw [← otherSame, equal, same]

theorem holds_place (sound : table.Sound) {key : shape.Key} {slot : binding.Slot}
    (lands : table.landing? (table.hash key) = some slot) (absent : ¬table.Has key)
    (room : table.size < table.maxLoad) (value : shape.Value) {key' : shape.Key}
    {value' : shape.Value} :
    (table.place slot (table.hash key) key value).Holds key' value' ↔
      if key' = key then value = value' else table.Holds key' value' := by
  have unoccupied := isOccupied_landing lands
  have held : (table.place slot (table.hash key) key value).buffer.isOccupied slot = true :=
    (Buffer.isOccupied_occupy _ _ _ _ _ _).2 (Or.inl rfl)
  have newKey : (table.place slot (table.hash key) key value).buffer.key slot = key :=
    (Buffer.key_occupy _ _ _ _ _ _).trans (if_pos rfl)
  by_cases chosen : key' = key
  · subst chosen
    rw [if_pos rfl, (sound.place lands absent room value).holds_iff held newKey, value_place]
  · rw [if_neg chosen]
    apply exists_congr
    intro other
    simp only [Table.place, Buffer.isOccupied_occupy, Buffer.key_occupy, Buffer.value_occupy,
      Buffer.isOccupied_markAll, Buffer.key_markAll, Buffer.value_markAll]
    by_cases equal : slot = other
    · subst equal
      rw [unoccupied, if_pos rfl, if_pos rfl]
      simp [Ne.symm chosen]
    · rw [if_neg equal, if_neg equal, or_iff_right (Ne.symm equal)]

theorem not_holds_clear (table : Table binding) (key : shape.Key) (value : shape.Value) :
    ¬table.clear.Holds key value := by
  rintro ⟨slot, held, -⟩
  rw [Table.clear, Buffer.isOccupied_reset] at held
  exact Bool.false_ne_true held

theorem has_place (sound : table.Sound) {key : shape.Key} {slot : binding.Slot}
    (lands : table.landing? (table.hash key) = some slot) (absent : ¬table.Has key)
    (room : table.size < table.maxLoad) (value : shape.Value) {key' : shape.Key} :
    (table.place slot (table.hash key) key value).Has key' ↔ key' = key ∨ table.Has key' := by
  rw [has_iff_exists_holds, has_iff_exists_holds]
  by_cases chosen : key' = key
  · simp [sound.holds_place lands absent room value, chosen]
  · simp [sound.holds_place lands absent room value, chosen]

/-! ### All elements -/

theorem get?_eq_some (sound : table.Sound) {key : shape.Key} {value : shape.Value} :
    table.get? key = some value ↔ table.Holds key value := by
  unfold get? getEntry?
  rcases sound.find_cases key with ⟨slot, held, same, found⟩ | ⟨absent, missed⟩
  · rw [found, sound.holds_iff held same]
    exact Option.some_inj
  · rw [missed]
    exact iff_of_false nofun fun holds => absent (has_iff_exists_holds.2 ⟨value, holds⟩)

theorem holds_unique (sound : table.Sound) {key : shape.Key} {value value' : shape.Value}
    (holds : table.Holds key value) (holds' : table.Holds key value') : value = value' :=
  Option.some.inj ((sound.get?_eq_some.2 holds).symm.trans (sound.get?_eq_some.2 holds'))

theorem mem_entries (sound : table.Sound) {key : shape.Key} {value : shape.Value} :
    (key, value) ∈ table.entries ↔ table.Holds key value := by
  rw [entries, List.mem_map]
  constructor
  · rintro ⟨slot, member, same⟩
    obtain ⟨rfl, rfl⟩ := Prod.mk.inj same
    exact ⟨slot, sound.mem_elementSlots.1 member, rfl, rfl⟩
  · rintro ⟨slot, held, rfl, rfl⟩
    exact ⟨slot, sound.mem_elementSlots.2 held, rfl⟩

theorem card_heldKeys (sound : table.Sound) : table.heldKeys.card = table.size := by
  rw [heldKeys, Finset.card_image_of_injOn, sound.counted]
  intro slot member slot' member' same
  exact sound.distinct slot slot' (Buffer.mem_occupied.1 member)
    (Buffer.mem_occupied.1 member') same

end Sound

end PackedTable.Table
