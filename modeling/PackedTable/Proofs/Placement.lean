import PackedTable.Proofs.Search
import PackedTable.Table.Insert

/-!
Where an insertion puts a new element: into the first free slot on the route of its hash. It marks
every group in front of that slot and no other one, and if the whole route is full it marks all of
it and puts the element nowhere.
-/

namespace PackedTable

namespace Binding

variable {shape : Shape} {length : Nat} {binding : Binding shape length}

theorem home_inj {slot slot' : binding.Slot} (groups : binding.groupOf slot = binding.groupOf slot')
    (places : binding.placeOf slot = binding.placeOf slot') : slot = slot' := by
  have first := slotAt_home slot
  rw [groups, places, slotAt_home] at first
  exact (Option.some.inj first).symm

theorem lastPlace_succ (binding : Binding shape length) :
    binding.lastPlace.val + 1 = binding.slots :=
  Nat.sub_add_cancel binding.slots_pos

theorem slotNumber_last (binding : Binding shape length) :
    binding.slotNumber binding.lastGroup binding.lastPlace = binding.capacity := by
  have whole := binding.capacity_succ
  have column := binding.lastPlace_succ
  have rows : binding.groupCount * binding.slots =
      binding.lastGroup.val * binding.slots + binding.slots := by
    rw [← Nat.succ_mul]
    exact congrArg (· * binding.slots) binding.geometry.mask_succ.symm
  unfold slotNumber
  omega

theorem home_ne_last (slot : binding.Slot) :
    ¬(binding.groupOf slot = binding.lastGroup ∧ binding.placeOf slot = binding.lastPlace) := by
  rintro ⟨group, place⟩
  have number := binding.slotNumber_home slot
  rw [group, place, slotNumber_last] at number
  exact absurd slot.isLt (Nat.not_lt_of_le (Nat.le_of_eq number))

end Binding

namespace Buffer

variable {shape : Shape} {length : Nat} {binding : Binding shape length}

theorem slotTag_setTag (buffer : Buffer binding) (slot slot' : binding.Slot) (tag : UInt8) :
    (buffer.setTag (binding.groupOf slot) (binding.placeOf slot) tag).slotTag slot' =
      if slot = slot' then tag else buffer.slotTag slot' := by
  rw [slotTag, tag_setTag]
  by_cases same : slot = slot'
  · subst same
    rw [if_pos ⟨rfl, rfl⟩, if_pos rfl]
  · rw [if_neg fun home => same (Binding.home_inj home.1 home.2), if_neg same]
    rfl

theorem group_markOverflow (buffer : Buffer binding) (group group' : binding.GroupIndex)
    (hash : UInt64) :
    (buffer.markOverflow group hash).group group' =
      if group = group' then (buffer.group group').markOverflow hash else buffer.group group' := by
  simp only [Buffer.group, tag_markOverflow, overflow_markOverflow]
  split
  · next same => subst same; rfl
  · rfl

/-! ### The free slots of one group -/

theorem vacancy?_eq_some {buffer : Buffer binding} {group : binding.GroupIndex}
    {place : binding.Place} {slot : binding.Slot}
    (found : buffer.vacancy? group = some (place, slot)) :
    binding.groupOf slot = group ∧ binding.placeOf slot = place ∧
      buffer.slotTag slot = Tag.empty := by
  obtain ⟨free, member, stored⟩ := List.exists_of_findSome?_eq_some found
  rw [Option.map_eq_some_iff] at stored
  obtain ⟨other, lies, pair⟩ := stored
  obtain ⟨rfl, rfl⟩ := Prod.mk.inj pair
  have home := Binding.groupOf_slotAt lies
  rw [Group.freeSlots, Group.mem_slotsWithTag, tags_group] at member
  refine ⟨home.1, home.2, ?_⟩
  rw [slotTag, home.1, home.2, member]

theorem vacancy?_eq_none {buffer : Buffer binding} {group : binding.GroupIndex}
    (full : buffer.vacancy? group = none) {slot : binding.Slot}
    (inside : binding.groupOf slot = group) : buffer.slotTag slot ≠ Tag.empty := by
  intro free
  subst inside
  rw [vacancy?, List.findSome?_eq_none_iff] at full
  have member : binding.placeOf slot ∈ (buffer.group (binding.groupOf slot)).freeSlots := by
    rw [Group.freeSlots, Group.mem_slotsWithTag, tags_group]
    exact free
  have refused := full _ member
  rw [Binding.slotAt_home] at refused
  exact absurd refused (by simp)

theorem vacancy?_markOverflow (buffer : Buffer binding) (group group' : binding.GroupIndex)
    (hash : UInt64) :
    (buffer.markOverflow group hash).vacancy? group' = buffer.vacancy? group' := by
  have tags : ((buffer.markOverflow group hash).group group').freeSlots =
      (buffer.group group').freeSlots := by
    rw [group_markOverflow]
    split <;> rfl
  rw [vacancy?, vacancy?, tags]

/-! ### The changes that an insertion makes -/

def markAll (buffer : Buffer binding) (hash : UInt64) : List binding.GroupIndex → Buffer binding
  | [] => buffer
  | group :: rest => (buffer.markOverflow group hash).markAll hash rest

def occupy (buffer : Buffer binding) (slot : binding.Slot) (hash : UInt64) (key : shape.Key)
    (value : shape.Value) : Buffer binding :=
  (buffer.setTag (binding.groupOf slot) (binding.placeOf slot) (Tag.ofHash hash)).setEntry slot key
    value

theorem tag_markAll (buffer : Buffer binding) (hash : UInt64) (groups : List binding.GroupIndex)
    (group : binding.GroupIndex) (place : binding.Place) :
    (buffer.markAll hash groups).tag group place = buffer.tag group place := by
  induction groups generalizing buffer with
  | nil => rfl
  | cons first rest ih => rw [markAll, ih, tag_markOverflow]

theorem key_markAll (buffer : Buffer binding) (hash : UInt64) (groups : List binding.GroupIndex)
    (slot : binding.Slot) : (buffer.markAll hash groups).key slot = buffer.key slot := by
  induction groups generalizing buffer with
  | nil => rfl
  | cons first rest ih => rw [markAll, ih, key_markOverflow]

theorem value_markAll (buffer : Buffer binding) (hash : UInt64) (groups : List binding.GroupIndex)
    (slot : binding.Slot) : (buffer.markAll hash groups).value slot = buffer.value slot := by
  induction groups generalizing buffer with
  | nil => rfl
  | cons first rest ih => rw [markAll, ih, value_markOverflow]

theorem isOverflowed_markAll_of {buffer : Buffer binding} (hash : UInt64)
    (groups : List binding.GroupIndex) {group : binding.GroupIndex} {other : UInt64}
    (marked : (buffer.group group).isOverflowed other = true) :
    ((buffer.markAll hash groups).group group).isOverflowed other = true := by
  induction groups generalizing buffer with
  | nil => exact marked
  | cons first rest ih =>
    rw [markAll]
    refine ih ?_
    rw [group_markOverflow]
    split
    · exact Group.isOverflowed_markOverflow_of hash marked
    · exact marked

theorem isOverflowed_markAll (buffer : Buffer binding) (hash : UInt64)
    {groups : List binding.GroupIndex} {group : binding.GroupIndex} (member : group ∈ groups) :
    ((buffer.markAll hash groups).group group).isOverflowed hash = true := by
  induction groups generalizing buffer with
  | nil => exact absurd member List.not_mem_nil
  | cons first rest ih =>
    rw [markAll]
    rcases List.mem_cons.1 member with rfl | later
    · refine isOverflowed_markAll_of hash rest ?_
      rw [group_markOverflow, if_pos rfl]
      exact Group.isOverflowed_markOverflow _ _
    · exact ih _ later

theorem tag_occupy (buffer : Buffer binding) (slot : binding.Slot) (hash : UInt64)
    (key : shape.Key) (value : shape.Value) (group : binding.GroupIndex) (place : binding.Place) :
    (buffer.occupy slot hash key value).tag group place =
      if binding.groupOf slot = group ∧ binding.placeOf slot = place then Tag.ofHash hash
      else buffer.tag group place := by
  rw [occupy, setEntry, tag_setValue, tag_setKey, tag_setTag]

theorem slotTag_occupy (buffer : Buffer binding) (slot slot' : binding.Slot) (hash : UInt64)
    (key : shape.Key) (value : shape.Value) :
    (buffer.occupy slot hash key value).slotTag slot' =
      if slot = slot' then Tag.ofHash hash else buffer.slotTag slot' := by
  rw [occupy, setEntry, slotTag, tag_setValue, tag_setKey]
  exact slotTag_setTag buffer slot slot' _

theorem key_occupy (buffer : Buffer binding) (slot slot' : binding.Slot) (hash : UInt64)
    (key : shape.Key) (value : shape.Value) :
    (buffer.occupy slot hash key value).key slot' =
      if slot = slot' then key else buffer.key slot' := by
  rw [occupy, setEntry, key_setValue, key_setKey, key_setTag]

theorem value_occupy (buffer : Buffer binding) (slot slot' : binding.Slot) (hash : UInt64)
    (key : shape.Key) (value : shape.Value) :
    (buffer.occupy slot hash key value).value slot' =
      if slot = slot' then value else buffer.value slot' := by
  rw [occupy, setEntry, value_setValue, value_setKey, value_setTag]

theorem overflow_occupy (buffer : Buffer binding) (slot : binding.Slot) (hash : UInt64)
    (key : shape.Key) (value : shape.Value) (group : binding.GroupIndex) :
    (buffer.occupy slot hash key value).overflow group = buffer.overflow group := by
  rw [occupy, setEntry, overflow_setValue, overflow_setKey, overflow_setTag]

/-! ### The walk to the free slot -/

def fullAhead (buffer : Buffer binding) (groups : List binding.GroupIndex) :
    List binding.GroupIndex :=
  groups.takeWhile fun group => (buffer.vacancy? group).isNone

/-- The first free slot of the given groups. -/
def landing? (buffer : Buffer binding) (groups : List binding.GroupIndex) : Option binding.Slot :=
  (groups.findSome? buffer.vacancy?).map Prod.snd

theorem settle_eq (buffer : Buffer binding) (hash : UInt64) (key : shape.Key) (value : shape.Value)
    (remaining : Nat) (probe : Probe) :
    let groups := binding.geometry.groupsAlong remaining probe
    let marked := buffer.markAll hash (buffer.fullAhead groups)
    buffer.settle hash key value remaining probe =
      match buffer.landing? groups with
      | some slot => (marked.occupy slot hash key value, some slot)
      | none => (marked, none) := by
  induction remaining generalizing buffer probe with
  | zero => rfl
  | succ remaining ih =>
    have along : binding.geometry.groupsAlong (remaining + 1) probe =
        binding.geometry.groupAt probe.position ::
          binding.geometry.groupsAlong remaining probe.next := rfl
    have unmoved : ∀ groups : List binding.GroupIndex, ∀ group : binding.GroupIndex,
        (buffer.markOverflow group hash).fullAhead groups = buffer.fullAhead groups ∧
          (buffer.markOverflow group hash).landing? groups = buffer.landing? groups := by
      intro groups group
      simp only [fullAhead, landing?, funext (vacancy?_markOverflow buffer group · hash), and_self]
    rw [settle, along]
    dsimp only
    cases seen : buffer.vacancy? (binding.geometry.groupAt probe.position) with
    | some found =>
      obtain ⟨place, slot⟩ := found
      obtain ⟨group, column, -⟩ := vacancy?_eq_some seen
      simp only [landing?, fullAhead, List.findSome?_cons, seen, Option.map_some,
        List.takeWhile_cons, Option.isNone_some, Bool.false_eq_true, ↓reduceIte, markAll, occupy,
        group, column]
    | none =>
      dsimp only
      rw [ih, (unmoved _ _).1, (unmoved _ _).2]
      simp only [landing?, fullAhead, List.findSome?_cons, seen, List.takeWhile_cons,
        Option.isNone_none, ↓reduceIte, markAll]

theorem landing?_eq_some {buffer : Buffer binding} {groups : List binding.GroupIndex}
    {slot : binding.Slot} (found : buffer.landing? groups = some slot) :
    buffer.slotTag slot = Tag.empty ∧
      ∃ after, groups = buffer.fullAhead groups ++ binding.groupOf slot :: after := by
  rw [landing?, Option.map_eq_some_iff] at found
  obtain ⟨⟨place, other⟩, first, rfl⟩ := found
  obtain ⟨before, group, after, rfl, seen, full⟩ := List.findSome?_eq_some_iff.1 first
  obtain ⟨home, -, free⟩ := vacancy?_eq_some seen
  refine ⟨free, after, ?_⟩
  have prefixed : buffer.fullAhead (before ++ group :: after) = before := by
    rw [fullAhead, List.takeWhile_append_of_pos (fun passed member => by simp [full passed member]),
      List.takeWhile_cons_of_neg (by simp [seen]), List.append_nil]
  rw [prefixed, home]

theorem landing?_eq_none {buffer : Buffer binding} {groups : List binding.GroupIndex}
    (exhausted : buffer.landing? groups = none) {slot : binding.Slot}
    (member : binding.groupOf slot ∈ groups) : buffer.slotTag slot ≠ Tag.empty := by
  rw [landing?, Option.map_eq_none_iff, List.findSome?_eq_none_iff] at exhausted
  exact vacancy?_eq_none (exhausted _ member) rfl

end Buffer

namespace Table

variable {shape : Shape} {length : Nat} {binding : Binding shape length}

/-- The slot that a new key of a given hash would come to. -/
def landing? (table : Table binding) (hash : UInt64) : Option binding.Slot :=
  table.buffer.landing? (binding.geometry.route hash)

def passed (table : Table binding) (hash : UInt64) : List binding.GroupIndex :=
  table.buffer.fullAhead (binding.geometry.route hash)

def place (table : Table binding) (slot : binding.Slot) (hash : UInt64) (key : shape.Key)
    (value : shape.Value) : Table binding :=
  { table with
    buffer := (table.buffer.markAll hash (table.passed hash)).occupy slot hash key value
    size := table.size + 1 }

theorem insertUnique_of_landing {table : Table binding} {hash : UInt64} {slot : binding.Slot}
    (lands : table.landing? hash = some slot) (key : shape.Key) (value : shape.Value) :
    table.insertUnique hash key value = ⟨table.place slot hash key value, .ok (slot, true)⟩ := by
  have walk := table.buffer.settle_eq hash key value binding.groupCount
    (Probe.ofHash binding.geometry hash)
  dsimp only at walk
  change table.buffer.landing? (binding.geometry.groupsAlong _ _) = some slot at lands
  rw [lands] at walk
  rw [insertUnique, walk]
  rfl

end Table

end PackedTable
