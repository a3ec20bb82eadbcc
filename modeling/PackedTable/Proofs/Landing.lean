import PackedTable.Proofs.Containment

/-!
Where a new key goes, told without the walk that finds the place. A probe comes to the groups in a
fixed order, one place further at the first turn, two at the second one, and so on. The new element
goes to the first free slot in this order, from the lowest slot of a group up; and the groups that
were visited before, and no other ones, are marked.
-/

namespace PackedTable

namespace Geometry

/-- The number of the group that a probe of a hash comes to after so many turns. -/
def visited (geometry : Geometry) (hash : UInt64) (turn : Nat) : Nat :=
  (geometry.position hash + turn * (turn + 1) / 2) % geometry.groupCount

theorem map_val_route_eq (geometry : Geometry) (hash : UInt64) :
    (geometry.route hash).map Fin.val =
      (List.range geometry.groupCount).map (geometry.visited hash) := by
  have positions := Probe.positions_start (geometry.position_lt hash) geometry.groupCount
  change Probe.positions geometry.groupCount (Probe.ofHash geometry hash) = _ at positions
  rw [map_val_route, positions]
  refine List.map_congr_left fun turn _ => ?_
  have sum := Probe.two_mul_offset turn
  have half : turn * (turn + 1) / 2 = Probe.offset turn := by omega
  rw [visited, half]
  rfl

theorem length_route (geometry : Geometry) (hash : UInt64) :
    (geometry.route hash).length = geometry.groupCount := by
  have lengths := congrArg List.length (geometry.map_val_route_eq hash)
  rwa [List.length_map, List.length_map, List.length_range] at lengths

theorem getElem_route (geometry : Geometry) (hash : UInt64) {turn : Nat}
    (inside : turn < (geometry.route hash).length) :
    ((geometry.route hash)[turn]).val = geometry.visited hash turn := by
  have numbers := geometry.map_val_route_eq hash
  have small : turn < ((geometry.route hash).map Fin.val).length := by
    rwa [List.length_map]
  have read : ((geometry.route hash).map Fin.val)[turn] = geometry.visited hash turn := by
    simp only [numbers, List.getElem_map, List.getElem_range]
  rwa [List.getElem_map] at read

theorem mem_of_route_eq {geometry : Geometry} {hash : UInt64}
    {before after : List (Fin geometry.groupCount)} (parts : geometry.route hash = before ++ after)
    (group : Fin geometry.groupCount) :
    group ∈ before ↔ ∃ earlier < before.length, geometry.visited hash earlier = group.val := by
  have same : ∀ turn (inside : turn < before.length),
      (before[turn]).val = geometry.visited hash turn := by
    intro turn inside
    have within : turn < (geometry.route hash).length := by
      rw [parts, List.length_append]
      omega
    rw [← geometry.getElem_route hash within]
    simp only [parts, List.getElem_append_left inside]
  rw [List.mem_iff_getElem]
  constructor
  · rintro ⟨turn, inside, rfl⟩
    exact ⟨turn, inside, (same turn inside).symm⟩
  · rintro ⟨turn, inside, number⟩
    exact ⟨turn, inside, Fin.ext ((same turn inside).trans number)⟩

end Geometry

variable {shape : Shape} {length : Nat} {binding : Binding shape length}

theorem Group.pairwise_slotsWhere {width : Width} (group : Group width) (test : UInt8 → Bool) :
    (group.slotsWhere test).Pairwise (· < ·) :=
  List.Pairwise.filter _ (List.pairwise_lt_finRange _)

namespace Buffer

variable {buffer : Buffer binding}

theorem vacancy?_first {group : binding.GroupIndex} {place : binding.Place} {slot : binding.Slot}
    (found : buffer.vacancy? group = some (place, slot)) {other : binding.Slot}
    (inside : binding.groupOf other = group) (below : other < slot) :
    buffer.slotTag other ≠ Tag.empty := by
  intro free
  obtain ⟨home, column, -⟩ := vacancy?_eq_some found
  obtain ⟨before, chosen, after, split, stored, passed⟩ := List.findSome?_eq_some_iff.1 found
  have chosen_eq : chosen = place := by
    rw [Option.map_eq_some_iff] at stored
    obtain ⟨_, -, pair⟩ := stored
    exact (Prod.mk.inj pair).1
  have member : binding.placeOf other ∈ (buffer.group group).freeSlots := by
    subst inside
    rw [Group.freeSlots, Group.mem_slotsWithTag, tags_group]
    exact free
  have ascending : ((buffer.group group).freeSlots).Pairwise (· < ·) := by
    rw [Group.freeSlots, Group.slotsWithTag]
    exact Group.pairwise_slotsWhere _ _
  have smaller : binding.placeOf other < place := by
    have lower := binding.slotNumber_home other
    have upper := binding.slotNumber_home slot
    have order : other.val < slot.val := below
    rw [inside] at lower
    rw [home, column] at upper
    unfold Binding.slotNumber at lower upper
    exact Fin.lt_def.2 (by omega)
  rw [split] at member ascending
  rcases List.mem_append.1 member with skipped | later
  · -- a free slot with storage would have been taken
    have refused := passed _ skipped
    subst inside
    rw [Binding.slotAt_home] at refused
    cases refused
  · subst chosen_eq
    rcases List.mem_cons.1 later with same | behind
    · exact absurd (same ▸ smaller) (lt_irrefl _)
    · have above := (List.pairwise_cons.1 (List.pairwise_append.1 ascending).2.1).1 _ behind
      exact absurd (lt_trans smaller above) (lt_irrefl _)

/-- A free slot in the group that a probe comes to after `turn` turns, such that no group visited
before and no lower slot of the group has a free one. -/
structure FirstFree (buffer : Buffer binding) (hash : UInt64) (turn : Nat)
    (slot : binding.Slot) : Prop where
  turn_lt : turn < binding.groupCount
  visited : binding.geometry.visited hash turn = (binding.groupOf slot).val
  free : buffer.slotTag slot = Tag.empty
  passed : ∀ earlier < turn, ∀ other,
    binding.geometry.visited hash earlier = (binding.groupOf other).val →
    buffer.slotTag other ≠ Tag.empty
  lower : ∀ other < slot, binding.groupOf other = binding.groupOf slot →
    buffer.slotTag other ≠ Tag.empty

theorem FirstFree.unique {hash : UInt64} {turn turn' : Nat} {slot slot' : binding.Slot}
    (first : buffer.FirstFree hash turn slot) (second : buffer.FirstFree hash turn' slot') :
    turn = turn' ∧ slot = slot' := by
  have turns : turn = turn' := by
    rcases Nat.lt_trichotomy turn turn' with before | equal | after
    · exact absurd first.free (second.passed turn before slot first.visited)
    · exact equal
    · exact absurd second.free (first.passed turn' after slot' second.visited)
  subst turns
  have groups : binding.groupOf slot = binding.groupOf slot' :=
    Fin.ext (first.visited.symm.trans second.visited)
  rcases lt_trichotomy slot slot' with below | equal | above
  · exact absurd first.free (second.lower slot below groups)
  · exact ⟨rfl, equal⟩
  · exact absurd second.free (first.lower slot' above groups.symm)

theorem firstFree_of_landing? {hash : UInt64} {slot : binding.Slot}
    (lands : buffer.landing? (binding.geometry.route hash) = some slot) :
    buffer.FirstFree hash (buffer.fullAhead (binding.geometry.route hash)).length slot := by
  obtain ⟨free, after, parts⟩ := landing?_eq_some lands
  have vacant : ∃ place, buffer.vacancy? (binding.groupOf slot) = some (place, slot) := by
    rw [landing?, Option.map_eq_some_iff] at lands
    obtain ⟨⟨place, other⟩, first, rfl⟩ := lands
    obtain ⟨_, group, _, -, seen, -⟩ := List.findSome?_eq_some_iff.1 first
    rw [(vacancy?_eq_some seen).1]
    exact ⟨place, seen⟩
  obtain ⟨place, seen⟩ := vacant
  generalize full_eq : buffer.fullAhead (binding.geometry.route hash) = full at parts ⊢
  have inside : full.length < (binding.geometry.route hash).length := by
    rw [parts, List.length_append, List.length_cons]
    omega
  refine ⟨?_, ?_, free, ?_, ?_⟩
  · exact Nat.lt_of_lt_of_eq inside (binding.geometry.length_route hash)
  · rw [← binding.geometry.getElem_route hash inside]
    simp only [parts, List.getElem_append_right (Nat.le_refl _), Nat.sub_self,
      List.getElem_cons_zero]
  · intro earlier before other number
    have member : binding.groupOf other ∈ full :=
      (Geometry.mem_of_route_eq parts _).2 ⟨earlier, before, number⟩
    rw [← full_eq] at member
    have taken : (buffer.vacancy? (binding.groupOf other)).isNone = true :=
      List.mem_takeWhile_imp (p := fun group => (buffer.vacancy? group).isNone) member
    exact vacancy?_eq_none (Option.isNone_iff_eq_none.1 taken) rfl
  · intro other below inGroup
    exact vacancy?_first seen inGroup below

end Buffer

namespace Table

variable {table : Table binding} {hash : UInt64} {slot : binding.Slot} {turn : Nat}

/-- A place is found for a new element, and it is the first free slot. -/
theorem landing?_eq_some_iff :
    table.landing? hash = some slot ↔ ∃ turn, table.buffer.FirstFree hash turn slot := by
  constructor
  · intro lands
    exact ⟨_, Buffer.firstFree_of_landing? lands⟩
  · rintro ⟨turn, first⟩
    cases lands : table.landing? hash with
    | none =>
      exact absurd first.free (Buffer.landing?_eq_none lands (Geometry.mem_route _ _ _))
    | some other => rw [(first.unique (Buffer.firstFree_of_landing? lands)).2]

theorem overflow_place (first : table.buffer.FirstFree hash turn slot) (key : shape.Key)
    (value : shape.Value) (group : binding.GroupIndex) :
    (table.place slot hash key value).buffer.overflow group =
      if ∃ earlier < turn, binding.geometry.visited hash earlier = group.val then
        table.buffer.overflow group ||| Tag.overflowBit hash
      else table.buffer.overflow group := by
  have lands : table.landing? hash = some slot := landing?_eq_some_iff.2 ⟨turn, first⟩
  obtain ⟨-, after, parts⟩ := Buffer.landing?_eq_some lands
  have turns : (table.passed hash).length = turn :=
    ((Buffer.firstFree_of_landing? lands).unique first).1
  have member := Geometry.mem_of_route_eq parts group
  change group ∈ table.passed hash ↔ ∃ earlier < (table.passed hash).length, _ at member
  rw [turns] at member
  rw [place, Buffer.overflow_occupy, Buffer.overflow_markAll]
  simp only [member]

end Table

end PackedTable
