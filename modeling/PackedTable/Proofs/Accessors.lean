import PackedTable.Proofs.Containment
import PackedTable.Proofs.Spans

/-!
The accessors of a bound buffer with every check that they make at run time. A position is computed
in words, a part is cut out of a run only if it lies inside, and a run is taken for a key or a value
only if its length and its address are right. Binding checks the size of the whole buffer and its
address, once. The main result is that this is enough: no later check can fail for a group or a slot
that the table has.
-/

namespace PackedTable

inductive Lapse where
  | overflow
  | outside
  | size
  | alignment
deriving DecidableEq

def Lapse.word : Option Nat → Except Lapse Nat
  | some n => .ok n
  | none => .error .overflow

namespace Span

def cut (span : Span) (start stop : Nat) : Except Lapse Span :=
  if start ≤ stop ∧ stop ≤ span.length then .ok ⟨span.start + start, stop - start⟩
  else .error .outside

def divide (span : Span) (offset : Nat) : Except Lapse (Span × Span) :=
  if offset ≤ span.length then
    .ok (⟨span.start, offset⟩, ⟨span.start + offset, span.length - offset⟩)
  else .error .outside

def position (span : Span) (offset : Nat) : Except Lapse Nat :=
  if offset < span.length then .ok (span.start + offset) else .error .outside

def piece (span : Span) (width number : Nat) : Except Lapse Span :=
  if width = 0 then .error .size
  else if number < span.length / width then .ok (row span.start width number)
  else .error .outside

def take (span : Span) (layout : Layout) (address : Nat) : Except Lapse Span :=
  if (address + span.start) % layout.align ≠ 0 then .error .alignment
  else if span.length ≠ layout.size then .error .size
  else .ok span

theorem cut_eq {span : Span} {start stop : Nat} (ordered : start ≤ stop)
    (inside : stop ≤ span.length) : span.cut start stop = .ok ⟨span.start + start, stop - start⟩ :=
  if_pos ⟨ordered, inside⟩

theorem divide_eq {span : Span} {offset : Nat} (inside : offset ≤ span.length) :
    span.divide offset =
      .ok (⟨span.start, offset⟩, ⟨span.start + offset, span.length - offset⟩) :=
  if_pos inside

theorem position_eq {span : Span} {offset : Nat} (inside : offset < span.length) :
    span.position offset = .ok (span.start + offset) :=
  if_pos inside

theorem take_eq {span : Span} {layout : Layout} {address : Nat}
    (aligned : layout.align ∣ address + span.start) (size : span.length = layout.size) :
    span.take layout address = .ok span := by
  rw [take, if_neg, if_neg]
  · exact fun differs => differs size
  · exact fun differs => differs (Nat.mod_eq_zero_of_dvd aligned)

end Span

theorem Lapse.word_fit {n : Nat} (small : n < Word.limit) : word (Word.fit? n) = .ok n := by
  rw [Word.fit?_of_lt small]
  rfl

namespace Layout

theorem align_dvd_align {first second : Layout} (ordered : first.align ≤ second.align) :
    first.align ∣ second.align := by
  obtain ⟨k, firstPower⟩ := first.power
  obtain ⟨m, secondPower⟩ := second.power
  rw [firstPower, secondPower] at ordered ⊢
  exact Nat.pow_dvd_pow 2 ((Nat.pow_le_pow_iff_right (by decide)).1 ordered)

end Layout

namespace Shape

variable (shape : Shape)

theorem key_align_dvd : shape.key.align ∣ shape.entry.align := by
  change shape.key.align ∣ max shape.key.align shape.value.align
  rcases Nat.le_total shape.key.align shape.value.align with smaller | larger
  · rw [Nat.max_eq_right smaller]
    exact Layout.align_dvd_align smaller
  · rw [Nat.max_eq_left larger]

theorem value_align_dvd : shape.value.align ∣ shape.entry.align := by
  change shape.value.align ∣ max shape.key.align shape.value.align
  rcases Nat.le_total shape.value.align shape.key.align with smaller | larger
  · rw [Nat.max_eq_left smaller]
    exact Layout.align_dvd_align smaller
  · rw [Nat.max_eq_right larger]

theorem value_align_dvd_offset : shape.value.align ∣ shape.entry.valueOffset :=
  Word.dvd_roundUp _ _

theorem entry_align_dvd_size : shape.entry.align ∣ shape.entry.size := Word.dvd_roundUp _ _

end Shape

variable {shape : Shape} {length : Nat}

/-! ### Checked accessors -/

namespace Accessor

variable (binding : Binding shape length)

def whole (_ : Binding shape length) : Span := ⟨0, length⟩

def group (bytes : Span) (number : Nat) : Except Lapse Span := do
  let width ← Lapse.word (Word.add? binding.slots 1)
  let start ← Lapse.word (Word.mul? number width)
  let stop ← Lapse.word (Word.add? start width)
  bytes.cut start stop

def tag (bytes : Span) (number place : Nat) : Except Lapse Nat := do
  let metadata ← group binding bytes number
  let tags ← metadata.cut 0 binding.slots
  tags.position place

def overflow (bytes : Span) (number : Nat) : Except Lapse Nat := do
  let metadata ← group binding bytes number
  metadata.position binding.slots

def slotTag (bytes : Span) (slot : Nat) : Except Lapse Nat :=
  tag binding bytes (slot / binding.slots) (slot % binding.slots)

def slotNumber (group place : Nat) : Except Lapse Nat := do
  let first ← Lapse.word (Word.mul? group binding.slots)
  Lapse.word (Word.add? first place)

def entry (bytes : Span) (slot : Nat) : Except Lapse Span := do
  let offset ← Lapse.word (Word.mul? slot shape.entry.size)
  let start ← Lapse.word (Word.add? binding.entriesOffset offset)
  let stop ← Lapse.word (Word.add? start shape.entry.size)
  bytes.cut start stop

def decode (entry : Span) : Except Lapse (Span × Span) := do
  let key ← entry.cut 0 shape.key.size
  let stop ← Lapse.word (Word.add? shape.entry.valueOffset shape.value.size)
  let value ← entry.cut shape.entry.valueOffset stop
  return (← key.take shape.key binding.address, ← value.take shape.value binding.address)

def decodeApart (entry : Span) : Except Lapse (Span × Span) := do
  let (front, back) ← entry.divide shape.entry.valueOffset
  let key ← front.cut 0 shape.key.size
  let value ← back.cut 0 shape.value.size
  return (← key.take shape.key binding.address, ← value.take shape.value binding.address)

def used : Except Lapse Span := (whole binding).cut 0 binding.size

def regions : Except Lapse (Span × Span) := do
  let groups ← (whole binding).cut 0 binding.groupsLength
  let entries ← (whole binding).cut binding.entriesOffset binding.size
  return (groups, entries)

def regionsApart : Except Lapse (Span × Span) := do
  let (groups, rest) ← (← used binding).divide binding.groupsLength
  let gap ← Lapse.word (Word.sub? binding.entriesOffset binding.groupsLength)
  let entries ← rest.cut gap rest.length
  return (groups, entries)

end Accessor

namespace Binding

variable {binding : Binding shape length}

theorem entryStart_aligned (slot : binding.Slot) :
    shape.entry.align ∣ binding.address + binding.entryStart slot := by
  refine Nat.dvd_add (Nat.dvd_of_mod_eq_zero binding.aligned) ?_
  exact Nat.dvd_add (Word.dvd_roundUp _ _) (shape.entry_align_dvd_size.mul_left _)

theorem key_aligned (slot : binding.Slot) :
    shape.key.align ∣ binding.address + binding.entryStart slot :=
  shape.key_align_dvd.trans (entryStart_aligned slot)

theorem value_aligned (slot : binding.Slot) :
    shape.value.align ∣ binding.address + binding.valueStart slot := by
  rw [valueStart, ← Nat.add_assoc]
  exact Nat.dvd_add (shape.value_align_dvd.trans (entryStart_aligned slot))
    shape.value_align_dvd_offset

/-! ### Words -/

theorem size_lt_limit (binding : Binding shape length) : binding.size < Word.limit :=
  binding.addressable

theorem groupsLength_lt_limit (binding : Binding shape length) :
    binding.groupsLength < Word.limit := by
  have padded := binding.groupsLength_le_entriesOffset
  have whole := binding.size_eq
  have bound := binding.size_lt_limit
  omega

theorem value_end_lt_limit (binding : Binding shape length) :
    shape.entry.valueOffset + shape.value.size < Word.limit := by
  have valueEnd := shape.value_end_le
  have last := binding.entry_end_le ⟨0, binding.capacity_pos⟩
  have bound := binding.size_lt_limit
  omega

end Binding

/-! ### No check fails -/

namespace Accessor

variable {binding : Binding shape length}

theorem group_eq {bytes : Span} (first : bytes.start = 0)
    (covers : binding.groupsLength ≤ bytes.length) (group : binding.GroupIndex) :
    Accessor.group binding bytes group.val = .ok (binding.groupSpan group) := by
  have last := binding.group_end_le group
  have bound := binding.groupsLength_lt_limit
  have start : binding.groupStart group = group.val * (binding.slots + 1) := rfl
  rw [start] at last
  have width : Lapse.word (Word.add? binding.slots 1) = .ok (binding.slots + 1) :=
    Lapse.word_fit (by omega)
  have product : Lapse.word (Word.mul? group.val (binding.slots + 1)) =
      .ok (group.val * (binding.slots + 1)) := Lapse.word_fit (by omega)
  have sum : Lapse.word (Word.add? (group.val * (binding.slots + 1)) (binding.slots + 1)) =
      .ok (group.val * (binding.slots + 1) + (binding.slots + 1)) := Lapse.word_fit (by omega)
  simp only [Accessor.group, width, product, sum, bind, Except.bind]
  rw [Span.cut_eq (Nat.le_add_right _ _) (by omega), first, Nat.zero_add, Nat.add_sub_cancel_left]
  rfl

theorem tag_eq {bytes : Span} (first : bytes.start = 0)
    (covers : binding.groupsLength ≤ bytes.length) (group : binding.GroupIndex)
    (place : binding.Place) :
    Accessor.tag binding bytes group.val place.val = .ok (binding.tagPosition group place) := by
  have tags : (binding.groupSpan group).cut 0 binding.slots =
      .ok ⟨binding.groupStart group, binding.slots⟩ :=
    Span.cut_eq (Nat.zero_le _) (Nat.le_succ _)
  simp only [Accessor.tag, group_eq first covers group, tags, bind, Except.bind]
  exact Span.position_eq place.isLt

theorem overflow_eq {bytes : Span} (first : bytes.start = 0)
    (covers : binding.groupsLength ≤ bytes.length) (group : binding.GroupIndex) :
    Accessor.overflow binding bytes group.val = .ok (binding.overflowPosition group) := by
  simp only [Accessor.overflow, group_eq first covers group, bind, Except.bind]
  exact Span.position_eq (Nat.lt_succ_self _)

theorem slotTag_eq {bytes : Span} (first : bytes.start = 0)
    (covers : binding.groupsLength ≤ bytes.length) (slot : binding.Slot) :
    Accessor.slotTag binding bytes slot.val = .ok (binding.slotPosition slot) :=
  tag_eq first covers (binding.groupOf slot) (binding.placeOf slot)

theorem slotNumber_eq (group : binding.GroupIndex) (place : binding.Place) :
    Accessor.slotNumber binding group.val place.val = .ok (binding.slotNumber group place) := by
  have small := binding.slotNumber_lt_limit group place
  have number : binding.slotNumber group place = group.val * binding.slots + place.val := rfl
  rw [number] at small
  have product : Lapse.word (Word.mul? group.val binding.slots) =
      .ok (group.val * binding.slots) := Lapse.word_fit (by omega)
  simp only [Accessor.slotNumber, product, bind, Except.bind]
  exact Lapse.word_fit small

theorem entry_eq (slot : binding.Slot) :
    Accessor.entry binding (whole binding) slot.val = .ok (binding.entrySpan slot) := by
  have last := binding.entry_end_le slot
  have fits := binding.size_le
  have bound := binding.size_lt_limit
  have start : binding.entryStart slot = binding.entriesOffset + slot.val * shape.entry.size := rfl
  rw [start] at last
  have product : Lapse.word (Word.mul? slot.val shape.entry.size) =
      .ok (slot.val * shape.entry.size) := Lapse.word_fit (by omega)
  have begins : Lapse.word (Word.add? binding.entriesOffset (slot.val * shape.entry.size)) =
      .ok (binding.entriesOffset + slot.val * shape.entry.size) := Lapse.word_fit (by omega)
  have ends : Lapse.word (Word.add? (binding.entriesOffset + slot.val * shape.entry.size)
      shape.entry.size) =
      .ok (binding.entriesOffset + slot.val * shape.entry.size + shape.entry.size) :=
    Lapse.word_fit (by omega)
  have inside : binding.entriesOffset + slot.val * shape.entry.size + shape.entry.size ≤
      (whole binding).length := Nat.le_trans last fits
  simp only [Accessor.entry, product, begins, ends, bind, Except.bind]
  rw [Span.cut_eq (Nat.le_add_right _ _) inside, Nat.add_sub_cancel_left]
  exact congrArg (fun position => Except.ok (Span.mk position shape.entry.size)) (Nat.zero_add _)

theorem key_take_eq (slot : binding.Slot) :
    (binding.keySpan slot).take shape.key binding.address = .ok (binding.keySpan slot) :=
  Span.take_eq (binding.key_aligned slot) rfl

theorem value_take_eq (slot : binding.Slot) :
    (binding.valueSpan slot).take shape.value binding.address = .ok (binding.valueSpan slot) :=
  Span.take_eq (binding.value_aligned slot) rfl

theorem decode_eq (slot : binding.Slot) :
    Accessor.decode binding (binding.entrySpan slot) =
      .ok (binding.keySpan slot, binding.valueSpan slot) := by
  have keyEnd := shape.key_end_le
  have valueEnd := shape.value_end_le
  have key : (binding.entrySpan slot).cut 0 shape.key.size = .ok (binding.keySpan slot) :=
    Span.cut_eq (Nat.zero_le _) (Nat.le_trans keyEnd (Nat.le_of_add_right_le valueEnd))
  have stop : Lapse.word (Word.add? shape.entry.valueOffset shape.value.size) =
      .ok (shape.entry.valueOffset + shape.value.size) :=
    Lapse.word_fit binding.value_end_lt_limit
  have value : (binding.entrySpan slot).cut shape.entry.valueOffset
      (shape.entry.valueOffset + shape.value.size) = .ok (binding.valueSpan slot) := by
    rw [Span.cut_eq (Nat.le_add_right _ _) valueEnd, Nat.add_sub_cancel_left]
    rfl
  simp only [Accessor.decode, key, stop, value, key_take_eq, value_take_eq, bind, Except.bind, pure,
    Except.pure]

theorem decodeApart_eq (slot : binding.Slot) :
    Accessor.decodeApart binding (binding.entrySpan slot) =
      .ok (binding.keySpan slot, binding.valueSpan slot) := by
  have keyEnd := shape.key_end_le
  have valueEnd := shape.value_end_le
  have parts : (binding.entrySpan slot).divide shape.entry.valueOffset =
      .ok (⟨binding.entryStart slot, shape.entry.valueOffset⟩,
        ⟨binding.valueStart slot, shape.entry.size - shape.entry.valueOffset⟩) :=
    Span.divide_eq (Nat.le_of_add_right_le valueEnd)
  have key : (Span.mk (binding.entryStart slot) shape.entry.valueOffset).cut 0 shape.key.size =
      .ok (binding.keySpan slot) := Span.cut_eq (Nat.zero_le _) keyEnd
  have value : (Span.mk (binding.valueStart slot)
      (shape.entry.size - shape.entry.valueOffset)).cut 0 shape.value.size =
      .ok (binding.valueSpan slot) := Span.cut_eq (Nat.zero_le _) (Nat.le_sub_of_add_le' valueEnd)
  simp only [Accessor.decodeApart, parts, key, value, key_take_eq, value_take_eq, bind, Except.bind,
    pure, Except.pure]

theorem used_eq (binding : Binding shape length) : used binding = .ok ⟨0, binding.size⟩ :=
  Span.cut_eq (Nat.zero_le _) binding.size_le

theorem entriesOffset_le_size (binding : Binding shape length) :
    binding.entriesOffset ≤ binding.size := Nat.le_add_right _ _

theorem regions_eq (binding : Binding shape length) :
    regions binding = .ok (⟨0, binding.groupsLength⟩,
      ⟨binding.entriesOffset, binding.size - binding.entriesOffset⟩) := by
  have groups : (whole binding).cut 0 binding.groupsLength = .ok ⟨0, binding.groupsLength⟩ :=
    Span.cut_eq (Nat.zero_le _) binding.groupsLength_le
  have entries : (whole binding).cut binding.entriesOffset binding.size =
      .ok ⟨binding.entriesOffset, binding.size - binding.entriesOffset⟩ := by
    rw [Span.cut_eq (entriesOffset_le_size binding) binding.size_le, whole, Nat.zero_add]
  simp only [regions, groups, entries, bind, Except.bind, pure, Except.pure]

theorem regionsApart_eq (binding : Binding shape length) :
    regionsApart binding = regions binding := by
  have padded := binding.groupsLength_le_entriesOffset
  have whole := entriesOffset_le_size binding
  have parts : (Span.mk 0 binding.size).divide binding.groupsLength =
      .ok (⟨0, binding.groupsLength⟩,
        ⟨0 + binding.groupsLength, binding.size - binding.groupsLength⟩) :=
    Span.divide_eq (Nat.le_trans padded whole)
  have gap : Lapse.word (Word.sub? binding.entriesOffset binding.groupsLength) =
      .ok (binding.entriesOffset - binding.groupsLength) := by
    rw [Word.sub?_of_le padded]
    rfl
  have entries : (Span.mk (0 + binding.groupsLength) (binding.size - binding.groupsLength)).cut
      (binding.entriesOffset - binding.groupsLength) (binding.size - binding.groupsLength) =
      .ok ⟨binding.entriesOffset, binding.size - binding.entriesOffset⟩ := by
    have start : 0 + binding.groupsLength + (binding.entriesOffset - binding.groupsLength) =
        binding.entriesOffset := by omega
    have rest : binding.size - binding.groupsLength -
        (binding.entriesOffset - binding.groupsLength) = binding.size - binding.entriesOffset := by
      omega
    rw [Span.cut_eq (Nat.sub_le_sub_right whole _) (Nat.le_refl _), start, rest]
  simp only [regionsApart, regions_eq, used_eq, parts, gap, entries, bind, Except.bind, pure,
    Except.pure]

theorem pieces_eq (binding : Binding shape length) :
    (binding.size - binding.entriesOffset) / shape.entry.size = binding.capacity := by
  rw [binding.size_eq, Nat.add_sub_cancel_left, Nat.mul_div_cancel _ binding.entry_size_pos]

theorem piece_eq (slot : binding.Slot) :
    (Span.mk binding.entriesOffset (binding.size - binding.entriesOffset)).piece shape.entry.size
      slot.val = .ok (binding.entrySpan slot) := by
  rw [Span.piece, if_neg (Nat.ne_of_gt binding.entry_size_pos), if_pos]
  · rfl
  · rw [pieces_eq]
    exact slot.isLt

end Accessor

namespace Binding

/-- How the parts of a bound buffer lie, and that the accessors reach all of them. -/
structure LaidOut (binding : Binding shape length) : Prop where
  /-- The sizes that are kept with the binding are the checked ones. -/
  computed :
    Extent.groupsLength? binding.slots binding.geometry.mask = some binding.groupsLength ∧
    Extent.entriesOffset? binding.slots binding.geometry.mask shape.entry =
      some binding.entriesOffset ∧
    Extent.capacity? binding.slots binding.geometry.mask = some binding.capacity ∧
    Extent.bufferSize? binding.slots binding.geometry.mask shape.entry = some binding.size
  groupsApart : ∀ group group', group ≠ group' →
    Disjoint (binding.groupSpan group).positions (binding.groupSpan group').positions
  groupsFill : ⋃ group, (binding.groupSpan group).positions = Set.Ico 0 binding.groupsLength
  padded : binding.groupsLength ≤ binding.entriesOffset
  entriesApart : ∀ slot slot', slot ≠ slot' →
    Disjoint (binding.entrySpan slot).positions (binding.entrySpan slot').positions
  entriesFill : ⋃ slot, (binding.entrySpan slot).positions =
    Set.Ico binding.entriesOffset binding.size
  lastEntry : ∃ slot : binding.Slot, slot.val + 1 = binding.capacity ∧
    (binding.entrySpan slot).stop = binding.size
  within : binding.size ≤ length
  partsApart : ∀ slot,
    Disjoint (binding.keySpan slot).positions (binding.valueSpan slot).positions
  partsInside : ∀ slot, (binding.keySpan slot).positions ∪ (binding.valueSpan slot).positions ⊆
    (binding.entrySpan slot).positions
  keyAligned : ∀ slot, shape.key.align ∣ binding.address + (binding.keySpan slot).start
  valueAligned : ∀ slot, shape.value.align ∣ binding.address + (binding.valueSpan slot).start
  /-- Where a part ends is a word, and so is the number of a place. -/
  words : (∀ group, (binding.groupSpan group).stop < Word.limit) ∧
    (∀ group place, binding.slotNumber group place < Word.limit) ∧
    ∀ slot, (binding.entrySpan slot).stop < Word.limit
  /-- Group metadata is reached in any bytes from the first one on that cover the groups. -/
  metadata : ∀ bytes : Span, bytes.start = 0 → binding.groupsLength ≤ bytes.length →
    (∀ group, Accessor.group binding bytes group.val = .ok (binding.groupSpan group) ∧
      Accessor.overflow binding bytes group.val = .ok (binding.overflowPosition group)) ∧
    (∀ group place, Accessor.tag binding bytes group.val place.val =
        .ok (binding.tagPosition group place) ∧
      Accessor.slotNumber binding group.val place.val = .ok (binding.slotNumber group place)) ∧
    ∀ slot, Accessor.slotTag binding bytes slot.val = .ok (binding.slotPosition slot)
  /-- Key and value of a slot are reached, to be read and to be written. -/
  storage : ∀ slot,
    (Accessor.entry binding (Accessor.whole binding) slot.val >>= Accessor.decode binding) =
      .ok (binding.keySpan slot, binding.valueSpan slot) ∧
    (Accessor.entry binding (Accessor.whole binding) slot.val >>= Accessor.decodeApart binding) =
      .ok (binding.keySpan slot, binding.valueSpan slot)
  /-- The regions are reached, and the pieces of the second one are the entries. -/
  regions : ∃ groups entries : Span,
    Accessor.regions binding = .ok (groups, entries) ∧
    Accessor.regionsApart binding = .ok (groups, entries) ∧
    Accessor.used binding = .ok ⟨0, binding.size⟩ ∧
    groups.positions = Set.Ico 0 binding.groupsLength ∧
    entries.positions = Set.Ico binding.entriesOffset binding.size ∧
    entries.length / shape.entry.size = binding.capacity ∧
    ∀ slot, entries.piece shape.entry.size slot.val = .ok (binding.entrySpan slot)
  /-- What a table takes for its metadata, its keys and its values are the bytes at these
  positions. -/
  content : ∀ buffer : Buffer binding,
    (∀ group, buffer.bytes[binding.overflowPosition group]? = some (buffer.overflow group) ∧
      ∀ place, buffer.bytes[binding.tagPosition group place]? = some (buffer.tag group place)) ∧
    ∀ slot, (∀ i (inside : i < shape.key.size),
        buffer.bytes[(binding.keySpan slot).start + i]? = some (buffer.key slot)[i]) ∧
      ∀ i (inside : i < shape.value.size),
        buffer.bytes[(binding.valueSpan slot).start + i]? = some (buffer.value slot)[i]

theorem computed (binding : Binding shape length) :
    Extent.groupsLength? binding.slots binding.geometry.mask = some binding.groupsLength ∧
    Extent.entriesOffset? binding.slots binding.geometry.mask shape.entry =
      some binding.entriesOffset ∧
    Extent.capacity? binding.slots binding.geometry.mask = some binding.capacity ∧
    Extent.bufferSize? binding.slots binding.geometry.mask shape.entry = some binding.size := by
  have small : Extent.groupsLength binding.slots binding.geometry.mask < Word.limit :=
    binding.groupsLength_lt_limit
  have offset : binding.entriesOffset < Word.limit :=
    Nat.lt_of_le_of_lt (Accessor.entriesOffset_le_size binding) binding.size_lt_limit
  refine ⟨Extent.groupsLength?_of_lt small, ?_, Extent.capacity?_of_lt binding.slots_pos small,
    binding.bufferSize?_eq⟩
  rw [Extent.entriesOffset?, Extent.groupsLength?_of_lt small]
  exact Word.roundUp?_of_lt shape.entry_align_pos offset

theorem exists_last_entry (binding : Binding shape length) :
    ∃ slot : binding.Slot, slot.val + 1 = binding.capacity ∧
      (binding.entrySpan slot).stop = binding.size := by
  have some := binding.capacity_pos
  have last : binding.capacity - 1 + 1 = binding.capacity := Nat.sub_add_cancel some
  refine ⟨⟨binding.capacity - 1, by omega⟩, last, ?_⟩
  rw [binding.size_eq, Span.stop, entrySpan, entryStart, Nat.add_assoc, ← Nat.succ_mul]
  exact congrArg (fun count => binding.entriesOffset + count * shape.entry.size) last

theorem regions (binding : Binding shape length) :
    ∃ groups entries : Span,
      Accessor.regions binding = .ok (groups, entries) ∧
      Accessor.regionsApart binding = .ok (groups, entries) ∧
      Accessor.used binding = .ok ⟨0, binding.size⟩ ∧
      groups.positions = Set.Ico 0 binding.groupsLength ∧
      entries.positions = Set.Ico binding.entriesOffset binding.size ∧
      entries.length / shape.entry.size = binding.capacity ∧
      ∀ slot, entries.piece shape.entry.size slot.val = .ok (binding.entrySpan slot) := by
  refine ⟨_, _, Accessor.regions_eq binding,
    (Accessor.regionsApart_eq binding).trans (Accessor.regions_eq binding),
    Accessor.used_eq binding, ?_, ?_, Accessor.pieces_eq binding, Accessor.piece_eq⟩
  · rw [Span.positions, Span.stop, Nat.zero_add]
  · rw [Span.positions, Span.stop, Nat.add_sub_cancel' (Accessor.entriesOffset_le_size binding)]

theorem getElem?_read {bytes : Vector UInt8 length} {start count : Nat}
    (within : start + count ≤ length) (i : Nat) (inside : i < count) :
    bytes[start + i]? = some (Bytes.read bytes start count within)[i] := by
  rw [Bytes.getElem_read]
  exact Vector.getElem?_eq_getElem (by omega)

theorem laidOut (binding : Binding shape length) : binding.LaidOut where
  computed := binding.computed
  groupsApart _ _ := groupSpan_disjoint
  groupsFill := binding.iUnion_groupSpan
  padded := binding.groupsLength_le_entriesOffset
  entriesApart _ _ := entrySpan_disjoint
  entriesFill := binding.iUnion_entrySpan
  lastEntry := binding.exists_last_entry
  within := binding.size_le
  partsApart := keySpan_disjoint_valueSpan
  partsInside slot := Set.union_subset (keySpan_subset slot) (valueSpan_subset slot)
  keyAligned := key_aligned
  valueAligned := value_aligned
  words := by
    have bound := binding.size_lt_limit
    refine ⟨fun group => ?_, binding.slotNumber_lt_limit, fun slot => ?_⟩
    · exact Nat.lt_of_le_of_lt (binding.group_end_le_size group) bound
    · exact Nat.lt_of_le_of_lt (binding.entry_end_le slot) bound
  metadata _ first covers :=
    ⟨fun group => ⟨Accessor.group_eq first covers group, Accessor.overflow_eq first covers group⟩,
      fun group place =>
        ⟨Accessor.tag_eq first covers group place, Accessor.slotNumber_eq group place⟩,
      fun slot => Accessor.slotTag_eq first covers slot⟩
  storage slot := by
    rw [Accessor.entry_eq]
    exact ⟨Accessor.decode_eq slot, Accessor.decodeApart_eq slot⟩
  regions := binding.regions
  content buffer := by
    refine ⟨fun group => ⟨?_, fun place => ?_⟩, fun slot => ⟨?_, ?_⟩⟩
    · exact Vector.getElem?_eq_getElem (binding.overflow_lt group)
    · exact Vector.getElem?_eq_getElem (binding.tag_lt group place)
    · exact getElem?_read (binding.key_end_le slot)
    · exact getElem?_read (binding.value_end_le slot)

/-- Whatever the layouts, the width and the geometry are, a buffer that has been bound is laid out
soundly, and none of its accessors can fail. -/
theorem laidOut_of_bind {width : Width} {geometry : Geometry} {address : Nat}
    {binding : Binding shape length}
    (bound : bind shape width geometry address length = .ok binding) :
    (binding.width = width ∧ binding.geometry = geometry ∧ binding.address = address) ∧
    binding.LaidOut :=
  ⟨bind_eq_ok bound, binding.laidOut⟩

end Binding

/-! ### A padded table

Keys of sixteen bytes that are aligned to sixteen, values of one byte, and two groups of two slots:
six bytes of metadata, ten of padding, and entries of thirty-two bytes each.
-/

def Shape.padded : Shape where
  key := ⟨16, 16, ⟨4, rfl⟩, by decide⟩
  value := Shape.bytes.value
  addressable := by decide

def Binding.padded : Binding Shape.padded 120 where
  width := .narrow
  geometry := Binding.small.geometry
  address := 48
  keyed := by decide
  addressable := by decide
  fits := by decide
  aligned := by decide

/-- The last one of the three entries ends at the byte before the hundred and twelfth. -/
theorem Binding.padded_laidOut :
    bind Shape.padded .narrow ⟨63, 1⟩ 48 120 = .ok padded ∧ padded.LaidOut ∧
    (padded.groupsLength, padded.entriesOffset, padded.capacity, padded.size) = (6, 16, 3, 112) ∧
    (Accessor.entry padded (Accessor.whole padded) 2 >>= Accessor.decode padded) =
      .ok (⟨80, 16⟩, ⟨96, 1⟩) := by
  have bound : bind Shape.padded .narrow ⟨63, 1⟩ 48 120 = .ok padded := rfl
  have laidOut := (laidOut_of_bind bound).2
  exact ⟨bound, laidOut, by decide, (laidOut.storage ⟨2, by decide⟩).1⟩

end PackedTable
