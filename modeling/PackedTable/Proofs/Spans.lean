import Mathlib.Data.Set.Lattice
import Mathlib.Order.CompletePartialOrder
import Mathlib.Order.Interval.Set.Basic
import PackedTable.Binding.Regions

/-!
Which positions of a bound buffer belong to what. The groups lie one behind the other from the
first byte on and fill their region, the entries do the same from their offset up to the end of the
table, and the key and the value of a slot lie apart within its entry. Every position in the region
of the groups is the tag of some place or the overflow byte of some group.
-/

namespace PackedTable

structure Span where
  start : Nat
  length : Nat
deriving DecidableEq

namespace Span

def stop (span : Span) : Nat := span.start + span.length

def positions (span : Span) : Set Nat := Set.Ico span.start span.stop

def row (base width number : Nat) : Span := ⟨base + number * width, width⟩

theorem disjoint_of_stop_le {first second : Span} (ordered : first.stop ≤ second.start) :
    Disjoint first.positions second.positions := by
  rw [Set.disjoint_left]
  intro i inFirst inSecond
  have before : i < first.stop := inFirst.2
  have behind : second.start ≤ i := inSecond.1
  omega

theorem positions_subset {inner outer : Span} (starts : outer.start ≤ inner.start)
    (stops : inner.stop ≤ outer.stop) : inner.positions ⊆ outer.positions :=
  Set.Ico_subset_Ico starts stops

theorem row_disjoint (base width : Nat) {number number' : Nat} (apart : number ≠ number') :
    Disjoint (row base width number).positions (row base width number').positions := by
  have ordered {first second : Nat} (before : first < second) :
      (row base width first).stop ≤ (row base width second).start := by
    have step := Nat.mul_le_mul_right width (Nat.succ_le_of_lt before)
    rw [Nat.succ_mul] at step
    simp only [row, stop]
    omega
  rcases Nat.lt_or_gt_of_ne apart with before | behind
  · exact disjoint_of_stop_le (ordered before)
  · exact (disjoint_of_stop_le (ordered behind)).symm

theorem iUnion_row (base width count : Nat) :
    ⋃ number : Fin count, (row base width number.val).positions =
      Set.Ico base (base + count * width) := by
  ext i
  rw [Set.mem_iUnion]
  constructor
  · rintro ⟨number, starts, stops⟩
    have step := Nat.mul_le_mul_right width (Nat.succ_le_of_lt number.isLt)
    rw [Nat.succ_mul] at step
    simp only [row, stop] at starts stops
    exact ⟨by omega, by omega⟩
  · rintro ⟨starts, stops⟩
    have wide : 0 < width := by
      apply Nat.pos_of_ne_zero
      rintro rfl
      omega
    have inside : (i - base) / width < count := (Nat.div_lt_iff_lt_mul wide).2 (by omega)
    have whole := Nat.div_add_mod (i - base) width
    have rest := Nat.mod_lt (i - base) wide
    rw [Nat.mul_comm] at whole
    refine ⟨⟨_, inside⟩, ?_, ?_⟩ <;> simp only [row, stop] <;> omega

end Span

namespace Binding

variable {shape : Shape} {length : Nat} (binding : Binding shape length)

def groupSpan (group : binding.GroupIndex) : Span := ⟨binding.groupStart group, binding.slots + 1⟩

def entrySpan (slot : binding.Slot) : Span := ⟨binding.entryStart slot, shape.entry.size⟩

def keySpan (slot : binding.Slot) : Span := ⟨binding.entryStart slot, shape.key.size⟩

def valueSpan (slot : binding.Slot) : Span := ⟨binding.valueStart slot, shape.value.size⟩

def tagPosition (group : binding.GroupIndex) (place : binding.Place) : Nat :=
  binding.groupStart group + place.val

def overflowPosition (group : binding.GroupIndex) : Nat :=
  binding.groupStart group + binding.slots

def slotPosition (slot : binding.Slot) : Nat :=
  binding.tagPosition (binding.groupOf slot) (binding.placeOf slot)

def groupRegion : Set Nat := Set.Ico 0 binding.groupsLength

def entryRegion : Set Nat := Set.Ico binding.entriesOffset binding.size

variable {binding}

/-! ### Groups -/

theorem groupSpan_eq_row (group : binding.GroupIndex) :
    binding.groupSpan group = .row 0 (binding.slots + 1) group.val := by
  rw [groupSpan, Span.row, Nat.zero_add]
  rfl

theorem groupSpan_disjoint {group group' : binding.GroupIndex} (apart : group ≠ group') :
    Disjoint (binding.groupSpan group).positions (binding.groupSpan group').positions := by
  rw [groupSpan_eq_row, groupSpan_eq_row]
  exact Span.row_disjoint _ _ fun same => apart (Fin.ext same)

theorem iUnion_groupSpan (binding : Binding shape length) :
    ⋃ group, (binding.groupSpan group).positions = binding.groupRegion := by
  simp only [groupSpan_eq_row]
  rw [Span.iUnion_row, groupRegion, groupsLength_eq, Nat.zero_add]

theorem tagPosition_lt (group : binding.GroupIndex) (place : binding.Place) :
    binding.tagPosition group place < binding.groupsLength := by
  have last := binding.group_end_le group
  unfold tagPosition
  omega

theorem overflowPosition_lt (group : binding.GroupIndex) :
    binding.overflowPosition group < binding.groupsLength := by
  have last := binding.group_end_le group
  unfold overflowPosition
  omega

theorem tag_or_overflow {i : Nat} (inside : i < binding.groupsLength) :
    (∃ group place, binding.tagPosition group place = i) ∨
      ∃ group, binding.overflowPosition group = i := by
  have region : i ∈ ⋃ group, (binding.groupSpan group).positions := by
    rw [iUnion_groupSpan]
    exact ⟨Nat.zero_le i, inside⟩
  obtain ⟨group, starts, stops⟩ := Set.mem_iUnion.1 region
  simp only [groupSpan, Span.stop] at starts stops
  by_cases tagged : i - binding.groupStart group < binding.slots
  · refine Or.inl ⟨group, ⟨_, tagged⟩, ?_⟩
    simp only [tagPosition]
    omega
  · refine Or.inr ⟨group, ?_⟩
    unfold overflowPosition
    omega

/-! ### Entries -/

theorem entry_size_pos (binding : Binding shape length) : 0 < shape.entry.size := by
  have keyed := binding.keyed
  have keyEnd := shape.key_end_le
  have valueEnd := shape.value_end_le
  omega

theorem capacity_pos (binding : Binding shape length) : 0 < binding.capacity := by
  have whole := binding.capacity_succ
  have places : 1 * 2 ≤ binding.groupCount * binding.slots :=
    Nat.mul_le_mul binding.geometry.groupCount_pos binding.width.two_le
  omega

theorem entrySpan_disjoint {slot slot' : binding.Slot} (apart : slot ≠ slot') :
    Disjoint (binding.entrySpan slot).positions (binding.entrySpan slot').positions :=
  Span.row_disjoint _ _ fun same => apart (Fin.ext same)

theorem iUnion_entrySpan (binding : Binding shape length) :
    ⋃ slot, (binding.entrySpan slot).positions = binding.entryRegion := by
  rw [entryRegion, size_eq]
  exact Span.iUnion_row _ _ _

theorem keySpan_subset (slot : binding.Slot) :
    (binding.keySpan slot).positions ⊆ (binding.entrySpan slot).positions := by
  have keyEnd := shape.key_end_le
  have valueEnd := shape.value_end_le
  refine Span.positions_subset (Nat.le_refl _) ?_
  simp only [Span.stop, keySpan, entrySpan]
  omega

theorem valueSpan_subset (slot : binding.Slot) :
    (binding.valueSpan slot).positions ⊆ (binding.entrySpan slot).positions := by
  have valueEnd := shape.value_end_le
  refine Span.positions_subset (Nat.le_add_right _ _) ?_
  simp only [Span.stop, valueSpan, entrySpan, valueStart]
  omega

theorem keySpan_disjoint_valueSpan (slot : binding.Slot) :
    Disjoint (binding.keySpan slot).positions (binding.valueSpan slot).positions := by
  have keyEnd := shape.key_end_le
  apply Span.disjoint_of_stop_le
  simp only [Span.stop, keySpan, valueSpan, valueStart]
  omega

theorem groupRegion_disjoint_entryRegion (binding : Binding shape length) :
    Disjoint binding.groupRegion binding.entryRegion := by
  have padded := binding.groupsLength_le_entriesOffset
  rw [Set.disjoint_left]
  intro i inGroups inEntries
  have before : i < binding.groupsLength := inGroups.2
  have behind : binding.entriesOffset ≤ i := inEntries.1
  omega

end Binding

end PackedTable
