import PackedTable.Proofs.Reachability

/-!
What the bytes of a table in use look like, whatever session has led to them: one sentinel, tags
that belong to the keys, no key twice, an unbroken chain of overflow marks in front of every
element, and as many elements as the size control says.
-/

namespace PackedTable

variable {shape : Shape} {length : Nat} {binding : Binding shape length}

theorem Table.isOverflowed_before {table : Table binding} {hash : UInt64}
    {group : binding.GroupIndex} (reached : group ∈ table.trail hash) {position : Nat}
    (before : position ∈ (Probe.positions binding.groupCount
      (Probe.ofHash binding.geometry hash)).takeWhile (· ≠ group.val)) :
    (table.buffer.group (binding.geometry.groupAt position)).isOverflowed hash = true := by
  rw [← Geometry.map_val_route, List.takeWhile_map, List.mem_map] at before
  obtain ⟨passed, member, rfl⟩ := before
  rw [Geometry.groupAt_of_lt _ passed.isLt]
  refine Buffer.isOverflowed_of_mem_trail reached ?_
  have tests : ((fun n : Nat => decide (n ≠ group.val)) ∘ Fin.val) =
      fun other : binding.GroupIndex => decide (other ≠ group) := by
    funext other
    simp [Fin.ext_iff]
  rwa [tests] at member

/-- The representation invariant. -/
theorem Mounted.Reachable.representation {mounted : Mounted shape} (reachable : mounted.Reachable) :
    let binding := mounted.binding
    let table := mounted.table
    let buffer := table.buffer
    (∀ group place, buffer.tag group place = Tag.sentinel ↔
      group.val + 1 = binding.groupCount ∧ place.val + 1 = binding.slots) ∧
    (∀ slot, buffer.isOccupied slot = true →
      buffer.slotTag slot = Tag.ofHash (table.hash (buffer.key slot))) ∧
    (∀ slot slot', buffer.isOccupied slot = true → buffer.isOccupied slot' = true →
      buffer.key slot = buffer.key slot' → slot = slot') ∧
    (∀ slot, buffer.isOccupied slot = true →
      let hash := table.hash (buffer.key slot)
      ∀ position ∈ (Probe.positions binding.groupCount
          (Probe.ofHash binding.geometry hash)).takeWhile (· ≠ (binding.groupOf slot).val),
        (buffer.overflow (binding.geometry.groupAt position)).toNat.testBit (hash.toNat % 8) =
          true) ∧
    buffer.occupied.card = table.size ∧ table.size ≤ table.maxLoad ∧
      table.maxLoad ≤ binding.capacity := by
  have sound := reachable.sound
  refine ⟨?_, sound.tagged, sound.distinct, ?_, sound.counted, sound.bounded, sound.threshold⟩
  · intro group place
    rw [sound.sentinel]
    have lastGroup : mounted.binding.lastGroup.val + 1 = mounted.binding.groupCount :=
      mounted.binding.geometry.mask_succ
    have lastPlace := mounted.binding.lastPlace_succ
    rw [Fin.ext_iff, Fin.ext_iff]
    omega
  · intro slot held hash position before
    have marked := Table.isOverflowed_before (sound.reached slot held) before
    rwa [Group.isOverflowed_eq_testBit] at marked

/-- The third key of the small table starts at the second group and lies in the first one, so the
second group is marked. The tags are the keys, but for the first one, which would be reserved. -/
theorem Mounted.filled_marked :
    Mounted.filled.Reachable ∧
      Mounted.filled.table.buffer.used = #[9, 3, 0, 2, 1, 8, 1, 10, 3, 30, 2, 20] ∧
      (Mounted.filled.table.buffer.overflow
        (Mounted.filled.binding.geometry.groupAt 1)).toNat.testBit 3 = true := by
  obtain ⟨-, -, -, chains, -⟩ := Mounted.Reachable.representation Mounted.reachable_filled
  have marked := chains ⟨1, by decide⟩ (by decide +kernel) 1 (by decide +kernel)
  exact ⟨Mounted.reachable_filled, by decide +kernel, marked⟩

end PackedTable
