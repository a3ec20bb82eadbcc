import PackedTable.Proofs.Checked

/-!
Operations on arbitrary bytes. A table may be attached to a buffer that no table has ever written,
with tags in any place, with overflow bits that lead nowhere, with another byte where the sentinel
belongs. Every operation still ends, keeps to the groups and the slots with storage, and leaves
alone what it should not touch.
-/

namespace PackedTable

variable {shape : Shape} {length : Nat} {binding : Binding shape length} {σ : Type}

namespace Binding

theorem group_end_le_entriesOffset (group : binding.GroupIndex) :
    binding.groupStart group + (binding.slots + 1) ≤ binding.entriesOffset :=
  Nat.le_trans (binding.group_end_le group) binding.groupsLength_le_entriesOffset

theorem group_end_le_size (group : binding.GroupIndex) :
    binding.groupStart group + (binding.slots + 1) ≤ binding.size :=
  Nat.le_trans (binding.group_end_le_entriesOffset group) (Nat.le_add_right _ _)

theorem slotNumber_lt_limit (group : binding.GroupIndex) (place : binding.Place) :
    binding.slotNumber group place < Word.limit := by
  -- a group has fewer places than it has bytes of metadata
  have wider : group.val * binding.slots ≤ binding.groupStart group :=
    Nat.mul_le_mul_left _ (Nat.le_succ _)
  have small : place.val ≤ binding.slots + 1 := Nat.le_succ_of_le place.isLt.le
  calc
    binding.slotNumber group place = group.val * binding.slots + place.val := rfl
    _ ≤ binding.groupStart group + (binding.slots + 1) := Nat.add_le_add wider small
    _ ≤ binding.size := binding.group_end_le_size group
    _ < Word.limit := binding.addressable

theorem two_mul_groupCount_lt_limit (binding : Binding shape length) :
    2 * binding.groupCount < Word.limit := by
  have bound : binding.size < Word.limit := binding.addressable
  have positive := binding.geometry.groupCount_pos
  have wide : binding.groupCount * 2 ≤ binding.groupCount * (binding.slots + 1) :=
    Nat.mul_le_mul_left _ (Nat.le_succ_of_le binding.width.two_le)
  have padded := binding.groupsLength_le_entriesOffset
  have whole := binding.size_eq
  rw [binding.groupsLength_eq] at padded
  omega

end Binding

namespace Buffer

/-! ### Bytes that do not belong to the table -/

/-- The bytes behind those of the table are the same. The storage of a sentinel slot would be the
first of them. -/
def SameBehind (before after : Buffer binding) : Prop :=
  ∀ i (inside : i < length), binding.size ≤ i → after.bytes[i] = before.bytes[i]

namespace SameBehind

variable {before between after : Buffer binding}

theorem refl (buffer : Buffer binding) : buffer.SameBehind buffer := fun _ _ _ => rfl

theorem trans (first : before.SameBehind between) (second : between.SameBehind after) :
    before.SameBehind after := by
  intro i inside behind
  rw [second i inside behind, first i inside behind]

theorem set (buffer : Buffer binding) {position : Nat} (inside : position < length) (byte : UInt8)
    (belongs : position < binding.size) : buffer.SameBehind ⟨buffer.bytes.set position byte⟩ := by
  intro i small behind
  have apart : position ≠ i := by omega
  rw [Vector.getElem_set, if_neg apart]

theorem write (buffer : Buffer binding) {start count : Nat} (run : Vector UInt8 count)
    (within : start + count ≤ length) (belongs : start + count ≤ binding.size) :
    buffer.SameBehind ⟨Bytes.write buffer.bytes start run within⟩ := by
  intro i small behind
  have outside : ¬(start ≤ i ∧ i < start + count) := by omega
  rw [Bytes.getElem_write, dif_neg outside]

theorem setTag (buffer : Buffer binding) (group : binding.GroupIndex) (place : binding.Place)
    (tag : UInt8) : buffer.SameBehind (buffer.setTag group place tag) := by
  have last := binding.group_end_le_size group
  exact set buffer (binding.tag_lt group place) tag (by omega)

theorem markOverflow (buffer : Buffer binding) (group : binding.GroupIndex) (hash : UInt64) :
    buffer.SameBehind (buffer.markOverflow group hash) := by
  have last := binding.group_end_le_size group
  exact set buffer (binding.overflow_lt group) _ (by omega)

theorem markAll (buffer : Buffer binding) (hash : UInt64) (groups : List binding.GroupIndex) :
    buffer.SameBehind (buffer.markAll hash groups) := by
  induction groups generalizing buffer with
  | nil => exact refl buffer
  | cons first rest ih => exact (markOverflow buffer first hash).trans (ih _)

theorem setKey (buffer : Buffer binding) (slot : binding.Slot) (key : shape.Key) :
    buffer.SameBehind (buffer.setKey slot key) := by
  have last := binding.entry_end_le slot
  have keyEnd := shape.key_end_le
  have valueEnd := shape.value_end_le
  exact write buffer key (binding.key_end_le slot) (by omega)

theorem setValue (buffer : Buffer binding) (slot : binding.Slot) (value : shape.Value) :
    buffer.SameBehind (buffer.setValue slot value) := by
  have last := binding.entry_end_le slot
  have valueEnd := shape.value_end_le
  have start : binding.valueStart slot = binding.entryStart slot + shape.entry.valueOffset := rfl
  exact write buffer value (binding.value_end_le slot) (by omega)

theorem occupy (buffer : Buffer binding) (slot : binding.Slot) (hash : UInt64) (key : shape.Key)
    (value : shape.Value) : buffer.SameBehind (buffer.occupy slot hash key value) :=
  ((setTag buffer _ _ _).trans (setKey _ slot key)).trans (setValue _ slot value)

end SameBehind

/-! ### A probe that was exhausted -/

/-- Nothing but overflow bytes has changed, and each of them by the bit of the hash. -/
structure MarkedOnly (before after : Buffer binding) (hash : UInt64) : Prop where
  overflow : ∀ group, after.overflow group = before.overflow group ||| Tag.overflowBit hash
  elsewhere : ∀ i (inside : i < length),
    (∀ group, binding.groupStart group + binding.slots ≠ i) → after.bytes[i] = before.bytes[i]

theorem overflow_markAll (buffer : Buffer binding) (hash : UInt64)
    (groups : List binding.GroupIndex) (group : binding.GroupIndex) :
    (buffer.markAll hash groups).overflow group =
      if group ∈ groups then buffer.overflow group ||| Tag.overflowBit hash
      else buffer.overflow group := by
  induction groups generalizing buffer with
  | nil => rfl
  | cons first rest ih =>
    rw [markAll, ih, overflow_markOverflow]
    by_cases same : first = group
    · -- the rest of the list may name the group again, and marking twice is marking once
      subst same
      rw [if_pos rfl, if_pos List.mem_cons_self, UInt8.or_assoc, UInt8.or_self, ite_self]
    · have member : group ∈ first :: rest ↔ group ∈ rest :=
        List.mem_cons.trans (or_iff_right (Ne.symm same))
      simp only [if_neg same, member]

theorem getElem_markAll (buffer : Buffer binding) (hash : UInt64)
    (groups : List binding.GroupIndex) {i : Nat} (inside : i < length)
    (other : ∀ group, binding.groupStart group + binding.slots ≠ i) :
    (buffer.markAll hash groups).bytes[i] = buffer.bytes[i] := by
  induction groups generalizing buffer with
  | nil => rfl
  | cons first rest ih =>
    rw [markAll, ih, markOverflow, Vector.getElem_set, if_neg (other first)]

theorem markedOnly_markAll (buffer : Buffer binding) (hash : UInt64) :
    buffer.MarkedOnly (buffer.markAll hash (binding.geometry.route hash)) hash where
  overflow group := by
    rw [overflow_markAll, if_pos (binding.geometry.mem_route hash group)]
  elsewhere _ inside other := getElem_markAll buffer hash _ inside other

end Buffer

namespace Cursor

variable {buffer : Buffer binding} {slot : binding.Slot} {ahead : List binding.Slot}

theorem next_of_occupied (held : buffer.isOccupied slot = true) (remaining : Nat) :
    next ⟨slot :: ahead, remaining + 1⟩ buffer = (some slot, ⟨ahead, remaining⟩) := by
  simp [next, held]

theorem next_of_free (free : buffer.isOccupied slot = false) (remaining : Nat) :
    next ⟨slot :: ahead, remaining + 1⟩ buffer = next ⟨ahead, remaining + 1⟩ buffer := by
  simp [next, free]

theorem rest_of_free (free : buffer.isOccupied slot = false) (remaining : Nat) :
    rest ⟨slot :: ahead, remaining⟩ buffer = rest ⟨ahead, remaining⟩ buffer := by
  simp [rest, free]

theorem rest_eq (cursor : Cursor binding) (buffer : Buffer binding) :
    cursor.rest buffer = (cursor.next buffer).1.toList ++ (cursor.next buffer).2.rest buffer := by
  obtain ⟨ahead, remaining⟩ := cursor
  cases remaining with
  | zero => simp [rest, next]
  | succ remaining =>
    induction ahead with
    | nil => simp [rest, next]
    | cons slot ahead ih =>
      cases held : buffer.isOccupied slot with
      | true => simp [rest, next, held]
      | false =>
        rw [next_of_free held, rest_of_free held]
        exact ih

/-- However often a walk is asked, it yields what lies ahead of it and nothing else. -/
theorem yielded_of_rest (cursor : Cursor binding) (buffer : Buffer binding) (count : Nat) :
    (cursor.take buffer count).1.flatMap Option.toList <+: cursor.rest buffer := by
  induction count generalizing cursor with
  | zero => exact List.nil_prefix
  | succ count ih =>
    rw [rest_eq, take, List.flatMap_cons]
    exact List.prefix_append_right_inj _ |>.2 (ih _)

end Cursor

namespace Table

/-! ### Every operation -/

theorem sameBehind_attempt (table : Table binding) (insertion : Insertion shape σ) (state : σ) :
    table.buffer.SameBehind (insertion.attempt table state).1.table.buffer := by
  rcases table.attempt_cases insertion state with
    ⟨slot, -, comes⟩ | ⟨-, -, comes⟩ | ⟨slot, -, -, -, comes⟩ | ⟨-, -, -, comes⟩
  · rw [comes]
    exact .setValue _ slot _
  · rw [comes]
    exact .refl _
  · rw [comes]
    exact .trans (.markAll _ _ _) (.occupy _ slot _ _ _)
  · rw [comes]
    exact .markAll _ _ _

theorem sameBehind_erase (table : Table binding) (key : shape.Key) :
    table.buffer.SameBehind (table.erase key).2.buffer := by
  cases found : table.find key with
  | some slot =>
    rw [erase, remove_of_found found]
    exact .setTag _ _ _ _
  | none =>
    rw [erase, remove_of_missed found]
    exact .refl _

theorem length_elementSlots_le (table : Table binding) :
    table.elementSlots.length ≤ min table.size binding.capacity := by
  have all : (binding.allSlots.filter table.buffer.isOccupied).length ≤ binding.capacity := by
    calc
      _ ≤ binding.allSlots.length := List.length_filter_le _ _
      _ = binding.capacity := List.length_finRange
  rw [elementSlots, Cursor.rest, cursor, List.length_take]
  exact Nat.le_min.2 ⟨Nat.min_le_left _ _, Nat.le_trans (Nat.min_le_right _ _) all⟩

/-- What an operation may do to a table whose bytes may be anything. -/
structure Contained (table : Table binding) : Prop where
  /-- With as many turns as there are groups, a search ends, and it is never refused a group or a
  slot that it names by a number. -/
  findWithHash : ∀ {turns}, binding.groupCount ≤ turns → ∀ hash test,
    Checked.findWithHash turns table hash test = pure ((table.findWithHash hash test).map Fin.val)
  find : ∀ {turns}, binding.groupCount ≤ turns → ∀ key,
    Checked.find turns table key = pure ((table.find key).map Fin.val)
  getEntry : ∀ {turns}, binding.groupCount ≤ turns → ∀ key,
    Checked.getEntry turns table key = pure (table.getEntry? key)
  /-- The same for the ways to insert a key. -/
  attempt : ∀ {turns}, binding.groupCount ≤ turns → ∀ {σ : Type} (insertion : Insertion shape σ)
    state, Checked.attempt turns table insertion state = pure (insertion.attempt table state)
  erase : ∀ {turns}, binding.groupCount ≤ turns → ∀ key,
    Checked.erase turns table key = pure (table.erase key)
  entries : Checked.entries table = pure table.entries
  stats : Checked.stats table = pure table.stats
  /-- A group lies in front of the entries, and a slot with storage among them; a further slot would
  begin where the bytes of the table end. -/
  regions : (∀ group, binding.groupStart group + (binding.slots + 1) ≤ binding.entriesOffset) ∧
    (∀ slot, binding.entryStart slot + shape.entry.size ≤ binding.size) ∧
    binding.entriesOffset + binding.capacity * shape.entry.size = binding.size ∧
    binding.size ≤ length
  /-- The numbers of places, and what a probe adds up, are words. -/
  words : (∀ group place, binding.slotNumber group place < Word.limit) ∧
    2 * binding.groupCount < Word.limit
  /-- What is found has storage, holds an element and has the key that was asked for. -/
  foundWithHash : ∀ hash test slot, table.findWithHash hash test = some slot →
    slot.val < binding.capacity ∧ table.buffer.isOccupied slot = true ∧
      test (table.buffer.key slot) = true
  found : ∀ key slot, table.find key = some slot →
    slot.val < binding.capacity ∧ table.buffer.isOccupied slot = true ∧
      table.buffer.key slot = key
  /-- A walk yields no more elements than the table has or has room for, however often it is
  asked. -/
  yields : table.entries.length ≤ min table.size binding.capacity ∧
    ∀ count, ((table.cursor.take table.buffer count).1.flatMap Option.toList).length ≤
      min table.size binding.capacity
  /-- An insertion gives a stored value, or refuses the key with the table as it was, or gives up
  with nothing but marks left behind. -/
  outcome : ∀ {σ : Type} (insertion : Insertion shape σ) state,
    let attempt := (insertion.attempt table state).1
    (∃ stored, attempt.outcome = .ok stored) ∨
      (attempt.outcome = .error (.tableFull table.size table.maxLoad) ∧ attempt.table = table) ∨
      (attempt.outcome = .error .probeExhausted ∧
        attempt.table = { table with buffer := attempt.table.buffer } ∧
        table.buffer.MarkedOnly attempt.table.buffer (table.hash insertion.key))
  behindAttempt : ∀ {σ : Type} (insertion : Insertion shape σ) state,
    table.buffer.SameBehind (insertion.attempt table state).1.table.buffer
  behindErase : ∀ key, table.buffer.SameBehind (table.erase key).2.buffer

theorem contained (table : Table binding) : table.Contained where
  findWithHash enough hash test := Checked.findWithHash_eq table hash test enough
  find enough key := Checked.find_eq table key enough
  getEntry enough key := Checked.getEntry_eq table key enough
  attempt enough _ insertion state := Checked.attempt_eq table insertion state enough
  erase enough key := Checked.erase_eq table key enough
  entries := Checked.entries_eq table
  stats := Checked.stats_eq table
  regions := ⟨binding.group_end_le_entriesOffset, binding.entry_end_le, binding.size_eq.symm,
    binding.size_le⟩
  words := ⟨binding.slotNumber_lt_limit, binding.two_mul_groupCount_lt_limit⟩
  foundWithHash hash test slot found := by
    obtain ⟨tagged, passes⟩ := findWithHash_sound found
    exact ⟨slot.isLt, Buffer.isOccupied_of_slotTag tagged, passes⟩
  found key slot found := ⟨slot.isLt, (find_sound found).2⟩
  yields := by
    have bound := table.length_elementSlots_le
    constructor
    · rw [entries, List.length_map]
      exact bound
    · intro count
      exact Nat.le_trans (Cursor.yielded_of_rest _ _ count).length_le bound
  outcome insertion state := by
    rcases table.attempt_cases insertion state with
      ⟨slot, -, comes⟩ | ⟨-, -, comes⟩ | ⟨slot, -, -, -, comes⟩ | ⟨-, -, -, comes⟩
    · rw [comes]
      exact Or.inl ⟨_, rfl⟩
    · rw [comes]
      exact Or.inr (Or.inl ⟨rfl, rfl⟩)
    · rw [comes]
      exact Or.inl ⟨_, rfl⟩
    · rw [comes]
      exact Or.inr (Or.inr ⟨rfl, rfl, table.buffer.markedOnly_markAll _⟩)
  behindAttempt := table.sameBehind_attempt
  behindErase := table.sameBehind_erase

end Table

namespace Mounted

/-- A table that is attached to arbitrary bytes is contained. Its content is the given one, its size
control is the claimed one, and no invariant of the content is asked for. -/
theorem contained_of_attach {width : Width} {geometry : Geometry} {region : Region}
    {hash : shape.Key → UInt64} {size maxLoad : Nat} {mounted : Mounted shape}
    (attached : attach width geometry region hash size maxLoad = .ok mounted) :
    (mounted.binding.width = width ∧ mounted.binding.geometry = geometry ∧
      mounted.table.buffer.bytes.toArray = region.bytes ∧ mounted.table.hash = hash ∧
      mounted.table.size = size ∧ mounted.table.maxLoad = maxLoad) ∧
    mounted.table.Contained := by
  refine ⟨?_, mounted.table.contained⟩
  obtain ⟨binding, sameWidth, sameGeometry, -, -, rfl⟩ := attach_eq_ok attached
  exact ⟨sameWidth, sameGeometry, rfl, rfl, rfl, rfl⟩

end Mounted

/-! ### Bytes that no table has written

All places have a tag, the one of the sentinel included, and the last group claims to have been
passed by another hash only.
-/

def Region.garbage : Region := ⟨64, #[9, 9, 0x02, 9, 9, 0x80, 9, 9, 9, 9, 9, 9, 7]⟩

/-- A table that claims to have one element and room for another. -/
def Mounted.garbage : Mounted Shape.bytes :=
  ⟨Binding.small, ⟨⟨Region.garbage.bytes.toVector⟩, Shape.byteHash, 1, 2⟩⟩

/-- A key that is not there is looked for in vain, and its insertion gives up after both groups
have been marked; the key of the garbage is found in the first slot. -/
theorem Mounted.garbage_contained :
    attach .narrow ⟨63, 1⟩ Region.garbage Shape.byteHash 1 2 = .ok garbage ∧
    garbage.table.Contained ∧
    (Checked.find 2 garbage.table (Shape.byteKey 1) = pure none ∧
      Checked.find 2 garbage.table (Shape.byteKey 9) = pure (some 0)) ∧
    (garbage.table.insertNew (Shape.byteKey 1) (Shape.byteValue 1)).reply =
      .refused (.fault .probeExhausted) ∧
    (garbage.table.insertNew (Shape.byteKey 1) (Shape.byteValue 1)).table.buffer.bytes.toArray =
      #[9, 9, 0x02, 9, 9, 0x82, 9, 9, 9, 9, 9, 9, 7] := by
  have attached : attach .narrow ⟨63, 1⟩ Region.garbage Shape.byteHash 1 2 = .ok garbage := rfl
  have contained : garbage.table.Contained := (contained_of_attach attached).2
  have missed : (garbage.table.find (Shape.byteKey 1)).map Fin.val = none := by decide +kernel
  have found : (garbage.table.find (Shape.byteKey 9)).map Fin.val = some 0 := by decide +kernel
  refine ⟨attached, contained, ⟨?_, ?_⟩, by decide +kernel, by decide +kernel⟩
  · rw [contained.find (by decide), missed]
  · rw [contained.find (by decide), found]

end PackedTable
