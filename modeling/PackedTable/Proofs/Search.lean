import Mathlib.Data.Nat.Bitwise
import PackedTable.Buffer.Lemmas
import PackedTable.Proofs.Probe.Coverage
import PackedTable.Table.Lookup

/-!
What a search finds. It looks at the groups of a trail, which is the part of the route of its hash
that ends with the first group without the overflow bit of the hash. It answers with a slot of one
of them that has the tag and passes the test, and it answers if there is such a slot.
-/

namespace PackedTable

theorem Tag.overflowBit_ne_zero (hash : UInt64) : overflowBit hash ≠ 0 := by
  intro zero
  have value := Tag.toNat_overflowBit hash
  rw [zero] at value
  exact absurd value (Nat.ne_of_lt (Nat.two_pow_pos _))

theorem Tag.or_and (bits added chosen : UInt8) :
    (bits ||| added) &&& chosen = bits &&& chosen ||| added &&& chosen :=
  UInt8.toBitVec_inj.1 BitVec.and_or_distrib_right

theorem Tag.isOccupied_empty : isOccupied empty = false := by decide

theorem Tag.isOccupied_sentinel : isOccupied sentinel = false := by decide

theorem Tag.empty_of_not_occupied {tag : UInt8} (unoccupied : isOccupied tag = false)
    (plain : tag ≠ sentinel) : tag = empty := by
  simp only [isOccupied, sentinel, empty, decide_eq_false_iff_not, UInt8.lt_iff_toNat_lt,
    UInt8.reduceToNat, ne_eq, ← UInt8.toNat_inj] at *
  omega

namespace Group

variable {width : Width}

theorem mem_slotsWhere {group : Group width} {test : UInt8 → Bool} {place : Fin width.slots} :
    place ∈ group.slotsWhere test ↔ test (group.tags.get place) = true := by
  rw [slotsWhere, List.mem_filter]
  exact and_iff_right (List.mem_finRange place)

theorem mem_slotsWithTag {group : Group width} {tag : UInt8} {place : Fin width.slots} :
    place ∈ group.slotsWithTag tag ↔ group.tags.get place = tag := by
  rw [slotsWithTag, mem_slotsWhere, beq_iff_eq]

theorem isOverflowed_eq_testBit (group : Group width) (hash : UInt64) :
    group.isOverflowed hash = group.overflow.toNat.testBit (hash.toNat % 8) := by
  have positive := Nat.two_pow_pos (hash.toNat % 8)
  rw [Bool.eq_iff_iff, isOverflowed, bne_iff_ne, ne_eq, ← UInt8.toNat_inj, UInt8.toNat_and,
    Tag.toNat_overflowBit, Nat.and_two_pow]
  cases group.overflow.toNat.testBit (hash.toNat % 8) with
  | false => simp
  | true => simp

theorem isOverflowed_markOverflow_of {group : Group width} {hash : UInt64} (other : UInt64)
    (marked : group.isOverflowed hash = true) :
    (group.markOverflow other).isOverflowed hash = true := by
  simp only [isOverflowed, markOverflow, bne_iff_ne, ne_eq] at *
  intro zero
  rw [Tag.or_and, UInt8.or_eq_zero_iff] at zero
  exact marked zero.1

theorem isOverflowed_markOverflow (group : Group width) (hash : UInt64) :
    (group.markOverflow hash).isOverflowed hash = true := by
  simp only [isOverflowed, markOverflow, bne_iff_ne, ne_eq]
  intro zero
  rw [Tag.or_and, UInt8.or_eq_zero_iff, UInt8.and_self] at zero
  exact Tag.overflowBit_ne_zero hash zero.2

end Group

namespace Buffer

variable {shape : Shape} {length : Nat} {binding : Binding shape length}

theorem tags_group (buffer : Buffer binding) (group : binding.GroupIndex) (place : binding.Place) :
    (buffer.group group).tags.get place = buffer.tag group place := by
  have read : (Vector.ofFn fun place => buffer.tag group place)[place.val] =
      buffer.tag group place := Vector.getElem_ofFn place.isLt
  exact read

theorem isOccupied_of_slotTag {buffer : Buffer binding} {slot : binding.Slot} {hash : UInt64}
    (tagged : buffer.slotTag slot = Tag.ofHash hash) : buffer.isOccupied slot = true := by
  rw [isOccupied, tagged]
  exact Tag.ofHash_occupied hash

/-! ### One group -/

theorem hit?_eq_some {buffer : Buffer binding} {group : binding.GroupIndex} {hash : UInt64}
    {test : shape.Key → Bool} {slot : binding.Slot}
    (found : buffer.hit? group hash test = some slot) :
    binding.groupOf slot = group ∧ buffer.slotTag slot = Tag.ofHash hash ∧
      test (buffer.key slot) = true := by
  obtain ⟨place, member, hit⟩ := List.exists_of_findSome?_eq_some found
  rw [Option.filter_eq_some_iff] at hit
  have home := Binding.groupOf_slotAt hit.1
  rw [Group.mem_slotsWithTag, tags_group] at member
  refine ⟨home.1, ?_, hit.2⟩
  rw [slotTag, home.1, home.2, member]

theorem hit?_isSome {buffer : Buffer binding} {hash : UInt64} {test : shape.Key → Bool}
    {slot : binding.Slot} (tagged : buffer.slotTag slot = Tag.ofHash hash)
    (passes : test (buffer.key slot) = true) :
    (buffer.hit? (binding.groupOf slot) hash test).isSome = true := by
  rw [hit?, List.findSome?_isSome_iff]
  refine ⟨binding.placeOf slot, ?_, ?_⟩
  · rw [Group.mem_slotsWithTag, tags_group]
    exact tagged
  · rw [Binding.slotAt_home, Option.filter_some, if_pos passes]
    rfl

/-! ### The trail of a search -/

/-- The first of the given groups, up to the one where a search for a hash ends. -/
def trail (buffer : Buffer binding) (hash : UInt64) :
    List binding.GroupIndex → List binding.GroupIndex
  | [] => []
  | group :: rest =>
    group :: if (buffer.group group).isOverflowed hash then trail buffer hash rest else []

theorem seek_eq (buffer : Buffer binding) (hash : UInt64) (test : shape.Key → Bool)
    (remaining : Nat) (probe : Probe) :
    buffer.seek hash test remaining probe =
      (buffer.trail hash (binding.geometry.groupsAlong remaining probe)).findSome? fun group =>
        buffer.hit? group hash test := by
  induction remaining generalizing probe with
  | zero => rfl
  | succ remaining ih =>
    have along : binding.geometry.groupsAlong (remaining + 1) probe =
        binding.geometry.groupAt probe.position ::
          binding.geometry.groupsAlong remaining probe.next := rfl
    rw [seek, along, trail, List.findSome?_cons]
    cases buffer.hit? (binding.geometry.groupAt probe.position) hash test with
    | some slot => rfl
    | none =>
      dsimp only
      split
      · exact ih probe.next
      · rfl

theorem mem_trail_append {buffer : Buffer binding} {hash : UInt64}
    {before after : List binding.GroupIndex} {group : binding.GroupIndex}
    (marked : ∀ passed ∈ before, (buffer.group passed).isOverflowed hash = true) :
    group ∈ buffer.trail hash (before ++ group :: after) := by
  induction before with
  | nil => exact List.mem_cons_self
  | cons first before ih =>
    rw [List.cons_append, trail, if_pos (marked first List.mem_cons_self)]
    exact List.mem_cons_of_mem _
      (ih fun passed member => marked passed (List.mem_cons_of_mem _ member))

/-- Everything that a trail comes to before a group of its own is marked. -/
theorem isOverflowed_of_mem_trail {buffer : Buffer binding} {hash : UInt64}
    {groups : List binding.GroupIndex} {group passed : binding.GroupIndex}
    (member : group ∈ buffer.trail hash groups)
    (before : passed ∈ groups.takeWhile fun other => other ≠ group) :
    (buffer.group passed).isOverflowed hash = true := by
  induction groups with
  | nil => exact absurd before List.not_mem_nil
  | cons first rest ih =>
    by_cases same : first = group
    · rw [List.takeWhile_cons_of_neg (by simpa using same)] at before
      exact absurd before List.not_mem_nil
    · rw [List.takeWhile_cons_of_pos (by simpa using same)] at before
      rw [trail] at member
      have later := List.mem_of_ne_of_mem (Ne.symm same) member
      split at later
      case isTrue overflowed =>
        rcases List.mem_cons.1 before with rfl | inside
        · exact overflowed
        · exact ih later inside
      case isFalse => exact absurd later List.not_mem_nil

theorem trail_mono {buffer grown : Buffer binding} {hash : UInt64}
    (keeps : ∀ group, (buffer.group group).isOverflowed hash = true →
      (grown.group group).isOverflowed hash = true)
    {groups : List binding.GroupIndex} {group : binding.GroupIndex}
    (member : group ∈ buffer.trail hash groups) : group ∈ grown.trail hash groups := by
  induction groups with
  | nil => exact absurd member List.not_mem_nil
  | cons first rest ih =>
    rw [trail] at member ⊢
    rcases List.mem_cons.1 member with rfl | later
    · exact List.mem_cons_self
    · split at later
      case isTrue overflowed =>
        rw [if_pos (keeps first overflowed)]
        exact List.mem_cons_of_mem _ (ih later)
      case isFalse => exact absurd later List.not_mem_nil

end Buffer

namespace Table

variable {shape : Shape} {length : Nat} {binding : Binding shape length}

/-- The groups that a search of a table for a hash looks at. -/
def trail (table : Table binding) (hash : UInt64) : List binding.GroupIndex :=
  table.buffer.trail hash (binding.geometry.route hash)

theorem findWithHash_eq (table : Table binding) (hash : UInt64) (test : shape.Key → Bool) :
    table.findWithHash hash test =
      (table.trail hash).findSome? fun group => table.buffer.hit? group hash test :=
  table.buffer.seek_eq hash test _ _

theorem findWithHash_sound {table : Table binding} {hash : UInt64} {test : shape.Key → Bool}
    {slot : binding.Slot} (found : table.findWithHash hash test = some slot) :
    table.buffer.slotTag slot = Tag.ofHash hash ∧ test (table.buffer.key slot) = true := by
  rw [findWithHash_eq] at found
  obtain ⟨group, -, hit⟩ := List.exists_of_findSome?_eq_some found
  exact (Buffer.hit?_eq_some hit).2

theorem findWithHash_isSome {table : Table binding} {hash : UInt64} {test : shape.Key → Bool}
    {slot : binding.Slot} (reached : binding.groupOf slot ∈ table.trail hash)
    (tagged : table.buffer.slotTag slot = Tag.ofHash hash)
    (passes : test (table.buffer.key slot) = true) :
    (table.findWithHash hash test).isSome = true := by
  rw [findWithHash_eq, List.findSome?_isSome_iff]
  exact ⟨binding.groupOf slot, reached, Buffer.hit?_isSome tagged passes⟩

end Table

end PackedTable
