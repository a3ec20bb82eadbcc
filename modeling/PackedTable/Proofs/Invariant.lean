import Mathlib.Data.Finset.Card
import Mathlib.Data.Fintype.Card
import PackedTable.Proofs.Placement
import PackedTable.Table.Remove

/-!
What holds of every table in use, and why the operations keep it. Elements carry the tag of their
key, no key is there twice, and every element lies on the trail of its hash, so that a search finds
it. Taking elements out leaves all overflow in place, which is why it cannot cut a trail.
-/

namespace PackedTable

variable {shape : Shape} {length : Nat} {binding : Binding shape length}

theorem Binding.capacity_lt_limit (binding : Binding shape length) :
    binding.capacity < Word.limit := by
  have bound := binding.addressable
  have keyed := binding.keyed
  have keyEnd := shape.key_end_le
  have valueEnd := shape.value_end_le
  have storage : binding.capacity * 1 ≤ binding.capacity * shape.entry.size :=
    Nat.mul_le_mul_left _ (by omega)
  change binding.size < Word.limit at bound
  rw [binding.size_eq] at bound
  omega

namespace Buffer

def occupied (buffer : Buffer binding) : Finset binding.Slot :=
  Finset.univ.filter fun slot => buffer.isOccupied slot = true

theorem mem_occupied {buffer : Buffer binding} {slot : binding.Slot} :
    slot ∈ buffer.occupied ↔ buffer.isOccupied slot = true := by
  rw [occupied, Finset.mem_filter]
  exact and_iff_right (Finset.mem_univ slot)

theorem slotTag_setValue (buffer : Buffer binding) (slot slot' : binding.Slot)
    (value : shape.Value) : (buffer.setValue slot value).slotTag slot' = buffer.slotTag slot' :=
  tag_setValue buffer slot value _ _

theorem slotTag_markAll (buffer : Buffer binding) (hash : UInt64)
    (groups : List binding.GroupIndex) (slot : binding.Slot) :
    (buffer.markAll hash groups).slotTag slot = buffer.slotTag slot :=
  tag_markAll buffer hash groups _ _

theorem isOccupied_setValue (buffer : Buffer binding) (slot slot' : binding.Slot)
    (value : shape.Value) :
    (buffer.setValue slot value).isOccupied slot' = buffer.isOccupied slot' := by
  rw [isOccupied, isOccupied, slotTag_setValue]

theorem isOccupied_markAll (buffer : Buffer binding) (hash : UInt64)
    (groups : List binding.GroupIndex) (slot : binding.Slot) :
    (buffer.markAll hash groups).isOccupied slot = buffer.isOccupied slot := by
  rw [isOccupied, isOccupied, slotTag_markAll]

theorem isOccupied_occupy (buffer : Buffer binding) (slot slot' : binding.Slot) (hash : UInt64)
    (key : shape.Key) (value : shape.Value) :
    (buffer.occupy slot hash key value).isOccupied slot' = true ↔
      slot' = slot ∨ buffer.isOccupied slot' = true := by
  rw [isOccupied, slotTag_occupy]
  by_cases same : slot = slot'
  · subst same
    simp [Tag.ofHash_occupied]
  · rw [if_neg same, or_iff_right (Ne.symm same)]
    rfl

theorem isOccupied_release (buffer : Buffer binding) (slot slot' : binding.Slot) :
    (buffer.release slot).isOccupied slot' = true ↔
      slot' ≠ slot ∧ buffer.isOccupied slot' = true := by
  rw [isOccupied, release, slotTag_setTag]
  by_cases same : slot = slot'
  · subst same
    simp [Tag.isOccupied_empty]
  · rw [if_neg same, and_iff_right (Ne.symm same)]
    rfl

theorem isOccupied_reset (buffer : Buffer binding) (slot : binding.Slot) :
    buffer.reset.isOccupied slot = false := by
  rw [isOccupied, slotTag, tag_reset]
  split
  · exact Tag.isOccupied_sentinel
  · exact Tag.isOccupied_empty

theorem occupied_setValue (buffer : Buffer binding) (slot : binding.Slot) (value : shape.Value) :
    (buffer.setValue slot value).occupied = buffer.occupied := by
  ext other
  rw [mem_occupied, mem_occupied, isOccupied_setValue]

theorem occupied_markAll (buffer : Buffer binding) (hash : UInt64)
    (groups : List binding.GroupIndex) :
    (buffer.markAll hash groups).occupied = buffer.occupied := by
  ext other
  rw [mem_occupied, mem_occupied, isOccupied_markAll]

theorem occupied_occupy (buffer : Buffer binding) (slot : binding.Slot) (hash : UInt64)
    (key : shape.Key) (value : shape.Value) :
    (buffer.occupy slot hash key value).occupied = insert slot buffer.occupied := by
  ext other
  rw [mem_occupied, isOccupied_occupy, Finset.mem_insert, mem_occupied]

theorem occupied_release (buffer : Buffer binding) (slot : binding.Slot) :
    (buffer.release slot).occupied = buffer.occupied.erase slot := by
  ext other
  rw [mem_occupied, isOccupied_release, Finset.mem_erase, mem_occupied]

theorem occupied_reset (buffer : Buffer binding) : buffer.reset.occupied = ∅ := by
  ext other
  rw [mem_occupied, isOccupied_reset]
  simp

theorem isOverflowed_of_overflow_eq {buffer other : Buffer binding} {group : binding.GroupIndex}
    {hash : UInt64} (same : other.overflow group = buffer.overflow group)
    (marked : (buffer.group group).isOverflowed hash = true) :
    (other.group group).isOverflowed hash = true := by
  simp only [Group.isOverflowed, Buffer.group] at marked ⊢
  rw [same]
  exact marked

end Buffer

namespace Table

def Has (table : Table binding) (key : shape.Key) : Prop :=
  ∃ slot, table.buffer.isOccupied slot = true ∧ table.buffer.key slot = key

def Holds (table : Table binding) (key : shape.Key) (value : shape.Value) : Prop :=
  ∃ slot, table.buffer.isOccupied slot = true ∧ table.buffer.key slot = key ∧
    table.buffer.value slot = value

instance (table : Table binding) (key : shape.Key) : Decidable (table.Has key) :=
  inferInstanceAs (Decidable (∃ slot, table.buffer.isOccupied slot = true ∧
    table.buffer.key slot = key))

theorem isOccupied_landing {table : Table binding} {hash : UInt64} {slot : binding.Slot}
    (lands : table.landing? hash = some slot) : table.buffer.isOccupied slot = false := by
  rw [Buffer.isOccupied, (Buffer.landing?_eq_some lands).1]
  exact Tag.isOccupied_empty

/-- The invariant of a table in use. -/
structure Sound (table : Table binding) : Prop where
  sentinel : ∀ group place, table.buffer.tag group place = Tag.sentinel ↔
    group = binding.lastGroup ∧ place = binding.lastPlace
  tagged : ∀ slot, table.buffer.isOccupied slot = true →
    table.buffer.slotTag slot = Tag.ofHash (table.hash (table.buffer.key slot))
  distinct : ∀ slot slot', table.buffer.isOccupied slot = true →
    table.buffer.isOccupied slot' = true → table.buffer.key slot = table.buffer.key slot' →
    slot = slot'
  reached : ∀ slot, table.buffer.isOccupied slot = true →
    binding.groupOf slot ∈ table.trail (table.hash (table.buffer.key slot))
  counted : table.buffer.occupied.card = table.size
  bounded : table.size ≤ table.maxLoad
  threshold : table.maxLoad ≤ binding.capacity

namespace Sound

variable {table : Table binding}

theorem slotTag_ne_sentinel (sound : table.Sound) (slot : binding.Slot) :
    table.buffer.slotTag slot ≠ Tag.sentinel := fun marked =>
  Binding.home_ne_last slot ((sound.sentinel _ _).1 marked)

theorem slotTag_eq_empty (sound : table.Sound) {slot : binding.Slot}
    (unoccupied : table.buffer.isOccupied slot ≠ true) : table.buffer.slotTag slot = Tag.empty :=
  Tag.empty_of_not_occupied (Bool.eq_false_iff.2 unoccupied) (sound.slotTag_ne_sentinel slot)

theorem size_lt_limit (sound : table.Sound) : table.size < Word.limit :=
  Nat.lt_of_le_of_lt (Nat.le_trans sound.bounded sound.threshold) binding.capacity_lt_limit

/-! ### Searching -/

theorem findWithHash_eq_some (sound : table.Sound) {key : shape.Key} {slot : binding.Slot} :
    table.findWithHash (table.hash key) (· == key) = some slot ↔
      table.buffer.isOccupied slot = true ∧ table.buffer.key slot = key := by
  constructor
  · intro found
    obtain ⟨tagged, same⟩ := findWithHash_sound found
    exact ⟨Buffer.isOccupied_of_slotTag tagged, by simpa using same⟩
  · rintro ⟨held, same⟩
    have reached := sound.reached slot held
    have tagged := sound.tagged slot held
    rw [same] at reached tagged
    have passes : (table.buffer.key slot == key) = true := by simpa using same
    have answers : (table.findWithHash (table.hash key) (· == key)).isSome = true :=
      findWithHash_isSome reached tagged passes
    obtain ⟨other, found⟩ := Option.isSome_iff_exists.1 answers
    obtain ⟨otherTagged, otherSame⟩ := findWithHash_sound found
    have keys : table.buffer.key other = table.buffer.key slot := by
      rw [same]
      simpa using otherSame
    rw [found, sound.distinct other slot (Buffer.isOccupied_of_slotTag otherTagged) held keys]

theorem findWithHash_eq_none (sound : table.Sound) {key : shape.Key} :
    table.findWithHash (table.hash key) (· == key) = none ↔ ¬table.Has key := by
  constructor
  · rintro missed ⟨slot, held, same⟩
    rw [sound.findWithHash_eq_some.2 ⟨held, same⟩] at missed
    cases missed
  · intro absent
    cases seen : table.findWithHash (table.hash key) (· == key) with
    | none => rfl
    | some slot => exact absurd ⟨slot, sound.findWithHash_eq_some.1 seen⟩ absent

theorem find_eq_findWithHash (sound : table.Sound) (key : shape.Key) :
    table.find key = table.findWithHash (table.hash key) (· == key) := by
  rw [find, findWhere]
  split
  case isFalse => rfl
  case isTrue empty =>
    symm
    rw [sound.findWithHash_eq_none]
    rintro ⟨slot, held, -⟩
    have none : table.buffer.occupied = ∅ := by
      rw [← Finset.card_eq_zero, sound.counted]
      simpa [isEmpty] using empty
    have member := Buffer.mem_occupied.2 held
    rw [none] at member
    exact Finset.notMem_empty slot member

theorem find_eq_some (sound : table.Sound) {key : shape.Key} {slot : binding.Slot} :
    table.find key = some slot ↔
      table.buffer.isOccupied slot = true ∧ table.buffer.key slot = key := by
  rw [sound.find_eq_findWithHash, sound.findWithHash_eq_some]

theorem find_eq_none (sound : table.Sound) {key : shape.Key} :
    table.find key = none ↔ ¬table.Has key := by
  rw [sound.find_eq_findWithHash, sound.findWithHash_eq_none]

/-! ### Changing values -/

theorem setValue (sound : table.Sound) (slot : binding.Slot) (value : shape.Value) :
    (table.setValue slot value).Sound where
  sentinel group place := by
    rw [Table.setValue, Buffer.tag_setValue]
    exact sound.sentinel group place
  tagged other held := by
    simp only [Table.setValue, Buffer.isOccupied_setValue, Buffer.slotTag_setValue,
      Buffer.key_setValue] at held ⊢
    exact sound.tagged other held
  distinct first second firstHeld secondHeld same := by
    simp only [Table.setValue, Buffer.isOccupied_setValue, Buffer.key_setValue] at *
    exact sound.distinct first second firstHeld secondHeld same
  reached other held := by
    simp only [Table.setValue, Buffer.isOccupied_setValue, Buffer.key_setValue] at held ⊢
    refine Buffer.trail_mono (fun group marked => ?_) (sound.reached other held)
    exact Buffer.isOverflowed_of_overflow_eq (Buffer.overflow_setValue _ _ _ _) marked
  counted := by
    rw [Table.setValue, Buffer.occupied_setValue]
    exact sound.counted
  bounded := sound.bounded
  threshold := sound.threshold

/-! ### Taking elements out -/

theorem size_removeSlot (sound : table.Sound) {slot : binding.Slot}
    (held : table.buffer.isOccupied slot = true) :
    (table.removeSlot slot).2.size + 1 = table.size := by
  have positive : 0 < table.buffer.occupied.card :=
    Finset.card_pos.2 ⟨slot, Buffer.mem_occupied.2 held⟩
  rw [sound.counted] at positive
  have exact := Word.sub_eq (show 1 ≤ table.size from positive) sound.size_lt_limit
  change Word.sub table.size 1 + 1 = table.size
  omega

theorem removeSlot (sound : table.Sound) {slot : binding.Slot}
    (held : table.buffer.isOccupied slot = true) : (table.removeSlot slot).2.Sound where
  sentinel group place := by
    rw [Table.removeSlot, Buffer.release, Buffer.tag_setTag]
    split
    case isTrue home =>
      rw [← home.1, ← home.2]
      exact ⟨fun reserved => absurd reserved (by decide), fun last =>
        absurd last (Binding.home_ne_last slot)⟩
    case isFalse => exact sound.sentinel group place
  tagged other kept := by
    rw [Table.removeSlot] at kept ⊢
    obtain ⟨apart, before⟩ := (Buffer.isOccupied_release _ _ _).1 kept
    rw [Buffer.release, Buffer.slotTag_setTag, if_neg (Ne.symm apart), Buffer.key_setTag]
    exact sound.tagged other before
  distinct first second firstKept secondKept same := by
    rw [Table.removeSlot] at *
    have firstBefore := ((Buffer.isOccupied_release _ _ _).1 firstKept).2
    have secondBefore := ((Buffer.isOccupied_release _ _ _).1 secondKept).2
    rw [Buffer.release, Buffer.key_setTag, Buffer.key_setTag] at same
    exact sound.distinct first second firstBefore secondBefore same
  reached other kept := by
    rw [Table.removeSlot] at kept ⊢
    have before := ((Buffer.isOccupied_release _ _ _).1 kept).2
    rw [Buffer.release, Buffer.key_setTag]
    refine Buffer.trail_mono (fun group marked => ?_) (sound.reached other before)
    exact Buffer.isOverflowed_of_overflow_eq (Buffer.overflow_setTag _ _ _ _ _) marked
  counted := by
    have left := sound.size_removeSlot held
    have total := sound.counted
    change (table.buffer.release slot).occupied.card = _
    rw [Buffer.occupied_release, Finset.card_erase_of_mem (Buffer.mem_occupied.2 held)]
    omega
  bounded := by
    have left := sound.size_removeSlot held
    have bound := sound.bounded
    change _ ≤ table.maxLoad
    omega
  threshold := sound.threshold

/-! ### Putting elements in -/

/-- Below the threshold there is a free slot on every route. -/
theorem landing?_isSome (sound : table.Sound) (room : table.size < table.maxLoad)
    (hash : UInt64) : (table.landing? hash).isSome = true := by
  cases lands : table.landing? hash with
  | some slot => rfl
  | none =>
    exfalso
    have everywhere : table.buffer.occupied = Finset.univ := by
      refine Finset.eq_univ_of_forall fun slot => Buffer.mem_occupied.2 ?_
      by_contra unoccupied
      exact Buffer.landing?_eq_none lands (Geometry.mem_route _ _ _)
        (sound.slotTag_eq_empty unoccupied)
    have total := sound.counted
    have bound := sound.threshold
    rw [everywhere, Finset.card_univ, Fintype.card_fin] at total
    omega

section

variable {key : shape.Key} {slot : binding.Slot} (value : shape.Value)

/-- An element of a table with a new one is that one, or it was there before. -/
theorem place_cases {hash : UInt64} {other : binding.Slot}
    (held : (table.place slot hash key value).buffer.isOccupied other = true) :
    let placed := (table.place slot hash key value).buffer
    (other = slot ∧ placed.key other = key ∧ placed.slotTag other = Tag.ofHash hash) ∨
      (table.buffer.isOccupied other = true ∧ placed.key other = table.buffer.key other ∧
        placed.slotTag other = table.buffer.slotTag other) := by
  simp only [Table.place] at held ⊢
  rw [Buffer.isOccupied_occupy, Buffer.isOccupied_markAll] at held
  rw [Buffer.key_occupy, Buffer.key_markAll, Buffer.slotTag_occupy, Buffer.slotTag_markAll]
  by_cases new : other = slot
  · rw [if_pos new.symm, if_pos new.symm]
    exact Or.inl ⟨new, rfl, rfl⟩
  · rw [if_neg (Ne.symm new), if_neg (Ne.symm new)]
    exact Or.inr ⟨held.resolve_left new, rfl, rfl⟩

theorem isOverflowed_place {hash hash' : UInt64} {group : binding.GroupIndex}
    (marked : (table.buffer.group group).isOverflowed hash' = true) :
    ((table.place slot hash key value).buffer.group group).isOverflowed hash' = true :=
  Buffer.isOverflowed_of_overflow_eq (Buffer.overflow_occupy _ _ _ _ _ _)
    (Buffer.isOverflowed_markAll_of _ _ marked)

theorem sentinel_place (sound : table.Sound) (hash : UInt64) (group : binding.GroupIndex)
    (place : binding.Place) :
    (table.place slot hash key value).buffer.tag group place = Tag.sentinel ↔
      group = binding.lastGroup ∧ place = binding.lastPlace := by
  rw [Table.place, Buffer.tag_occupy, Buffer.tag_markAll]
  split
  case isTrue home =>
    rw [← home.1, ← home.2]
    refine ⟨fun reserved => ?_, fun last => absurd last (Binding.home_ne_last slot)⟩
    have occupied := Tag.ofHash_occupied hash
    rw [reserved] at occupied
    exact absurd occupied (by decide)
  case isFalse => exact sound.sentinel group place

theorem distinct_place (sound : table.Sound) (absent : ¬table.Has key) (hash : UInt64)
    {first second : binding.Slot} :
    let placed := (table.place slot hash key value).buffer
    placed.isOccupied first = true → placed.isOccupied second = true →
      placed.key first = placed.key second → first = second := by
  intro placed firstHeld secondHeld same
  rcases place_cases value firstHeld with ⟨firstNew, firstKey, -⟩ | ⟨firstBefore, firstKey, -⟩ <;>
    rcases place_cases value secondHeld with ⟨secondNew, secondKey, -⟩ | ⟨before, secondKey, -⟩
  · rw [firstNew, secondNew]
  · exact absurd ⟨second, before, secondKey.symm.trans (same.symm.trans firstKey)⟩ absent
  · exact absurd ⟨first, firstBefore, firstKey.symm.trans (same.trans secondKey)⟩ absent
  · exact sound.distinct first second firstBefore before
      (firstKey.symm.trans (same.trans secondKey))

/-- The new element lies behind groups that have been marked for it. -/
theorem reached_place (sound : table.Sound)
    (lands : table.landing? (table.hash key) = some slot) {other : binding.Slot} :
    let placed := table.place slot (table.hash key) key value
    placed.buffer.isOccupied other = true →
      binding.groupOf other ∈ placed.trail (table.hash (placed.buffer.key other)) := by
  intro placed held
  rcases place_cases value held with ⟨rfl, newKey, -⟩ | ⟨before, sameKey, -⟩
  · rw [newKey]
    obtain ⟨-, after, split⟩ := Buffer.landing?_eq_some lands
    change binding.groupOf other ∈ Buffer.trail _ _ (binding.geometry.route (table.hash key))
    rw [split]
    refine Buffer.mem_trail_append fun passed member => ?_
    refine Buffer.isOverflowed_of_overflow_eq (Buffer.overflow_occupy _ _ _ _ _ _) ?_
    exact Buffer.isOverflowed_markAll _ _ member
  · rw [sameKey]
    exact Buffer.trail_mono (fun _ marked => isOverflowed_place value marked)
      (sound.reached other before)

theorem card_occupied_place {hash : UInt64} (unoccupied : table.buffer.isOccupied slot = false) :
    (table.place slot hash key value).buffer.occupied.card = table.buffer.occupied.card + 1 := by
  have new : slot ∉ table.buffer.occupied := by
    rw [Buffer.mem_occupied, unoccupied]
    exact Bool.false_ne_true
  change Finset.card (Buffer.occupied (Buffer.occupy _ _ _ _ _)) = _
  rw [Buffer.occupied_occupy, Buffer.occupied_markAll, Finset.card_insert_of_notMem new]

end

theorem place (sound : table.Sound) {key : shape.Key} {slot : binding.Slot}
    (lands : table.landing? (table.hash key) = some slot) (absent : ¬table.Has key)
    (room : table.size < table.maxLoad) (value : shape.Value) :
    (table.place slot (table.hash key) key value).Sound where
  sentinel := sound.sentinel_place value _
  tagged other held := by
    rcases place_cases value held with ⟨-, newKey, newTag⟩ | ⟨before, sameKey, sameTag⟩
    · rw [newKey, newTag]
      rfl
    · rw [sameKey, sameTag]
      exact sound.tagged other before
  distinct _ _ := sound.distinct_place value absent _
  reached _ := sound.reached_place value lands
  counted := by
    rw [card_occupied_place value (isOccupied_landing lands), sound.counted]
    rfl
  bounded := Nat.succ_le_of_lt room
  threshold := sound.threshold

end Sound

/-! ### Starting over -/

theorem Sound.ofReset (buffer : Buffer binding) (hash : shape.Key → UInt64) {maxLoad : Nat}
    (threshold : maxLoad ≤ binding.capacity) :
    (Table.mk buffer.reset hash 0 maxLoad).Sound where
  sentinel group place := by
    rw [Buffer.tag_reset]
    split
    case isTrue last => exact ⟨fun _ => ⟨last.1.symm, last.2.symm⟩, fun _ => rfl⟩
    case isFalse other =>
      exact ⟨fun reserved => absurd reserved (by decide), fun last =>
        absurd ⟨last.1.symm, last.2.symm⟩ other⟩
  tagged slot held := by
    rw [Buffer.isOccupied_reset] at held
    exact absurd held Bool.false_ne_true
  distinct slot _ held := by
    rw [Buffer.isOccupied_reset] at held
    exact absurd held Bool.false_ne_true
  reached slot held := by
    rw [Buffer.isOccupied_reset] at held
    exact absurd held Bool.false_ne_true
  counted := by rw [Buffer.occupied_reset, Finset.card_empty]
  bounded := Nat.zero_le _
  threshold := threshold

theorem threshold_le (capacity : Nat) (factor : LoadFactor) :
    Load.threshold capacity factor ≤ capacity := by
  unfold Load.threshold
  split
  · exact Nat.zero_le _
  · split
    · exact Nat.le_refl _
    · exact Nat.min_le_right _ _

theorem Sound.create (binding : Binding shape length) (bytes : Vector UInt8 length)
    (hash : shape.Key → UInt64) (factor : LoadFactor) :
    (Table.create binding bytes hash factor).Sound :=
  ofReset _ hash (threshold_le _ factor)

theorem Sound.clear {table : Table binding} (sound : table.Sound) : table.clear.Sound :=
  ofReset _ table.hash sound.threshold

end Table

end PackedTable
