import Mathlib.Order.Bounds.Defs
import PackedTable.Proofs.Holding

/-!
Which sizes a word can hold. A size is computed in steps, each of them checked, and a size that fits
should not be refused because a step on the way to it does not. For the size of a buffer this is so:
it has a byte of metadata for each slot and one for each group, and so no number on the way exceeds
it. For a capacity it is not so: the last slot is subtracted only when all slots have been counted.
The capacity of `2 ^ 64` slots is a word, while the number of slots is none, and this capacity, the
largest one that fits, is the only one that is refused. The planner, which asks for capacities,
gives up a step too early for the same reason and in no other case.
-/

namespace PackedTable

theorem Word.isLeast_roundUp (n : Nat) {unit : Nat} (positive : 0 < unit) :
    IsLeast {m | n ≤ m ∧ unit ∣ m} (roundUp n unit) := by
  refine ⟨⟨le_roundUp n positive, dvd_roundUp n unit⟩, ?_⟩
  rintro m ⟨above, divides⟩
  by_contra smaller
  have gap := Nat.le_of_dvd (by omega) (Nat.dvd_sub (dvd_roundUp n unit) divides)
  have close := roundUp_lt n positive
  omega

namespace Extent

variable {slots mask : Nat} {entry : EntryLayout}

theorem bufferSize?_eq_none_iff (aligned : 0 < entry.align) :
    bufferSize? slots mask entry = none ↔
      slots = 0 ∨ Word.limit ≤ bufferSize slots mask entry := by
  rw [Option.eq_none_iff_forall_ne_some]
  constructor
  · intro refused
    by_contra fits
    rw [not_or, Nat.not_le] at fits
    exact refused _ (bufferSize?_of_lt (Nat.pos_of_ne_zero fits.1) aligned fits.2)
  · intro wrong size found
    obtain ⟨positive, small, -⟩ := (bufferSize?_eq_some_iff aligned).1 found
    omega

/-- The size of a buffer: all metadata, rounded up to the alignment, and a slot of storage for every
place but the last one. It is given if there are slots and it fits into a word, and not otherwise;
what is rounded up is the least multiple, and no step on the way fails where the size fits. -/
theorem bufferSize_exact (power : entry.align.isPowerOfTwo) (slots mask : Nat) :
    let metadata := (mask + 1) * (slots + 1)
    let size := Word.roundUp metadata entry.align + ((mask + 1) * slots - 1) * entry.size
    IsLeast {m | metadata ≤ m ∧ entry.align ∣ m} (Word.roundUp metadata entry.align) ∧
    (∀ n, bufferSize? slots mask entry = some n ↔ 1 ≤ slots ∧ size < Word.limit ∧ n = size) ∧
    (bufferSize? slots mask entry = none ↔ slots = 0 ∨ Word.limit ≤ size) ∧
    (size < Word.limit → StepsFit slots mask entry) := by
  have aligned := Nat.pos_of_isPowerOfTwo power
  exact ⟨Word.isLeast_roundUp _ aligned, fun n => bufferSize?_eq_some_iff aligned,
    bufferSize?_eq_none_iff aligned, StepsFit.of_lt aligned⟩

/-- Without storage the size can be the largest word there is. One slot more in a group, or as many
groups as a word has values, and there is no size. -/
theorem largest_bufferSize_exact :
    let entry : EntryLayout := ⟨0, 1, 0⟩
    entry.align.isPowerOfTwo ∧
      bufferSize? (Word.limit - 2) 0 entry = some (Word.limit - 1) ∧
      StepsFit (Word.limit - 2) 0 entry ∧
      bufferSize? (Word.limit - 1) 0 entry = none ∧
      bufferSize? 1 (Word.limit - 1) entry = none := by
  intro entry
  have power : entry.align.isPowerOfTwo := ⟨0, rfl⟩
  obtain ⟨-, given, -, steps⟩ := bufferSize_exact power (Word.limit - 2) 0
  obtain ⟨-, -, refused, -⟩ := bufferSize_exact power (Word.limit - 1) 0
  obtain ⟨-, -, refused', -⟩ := bufferSize_exact power 1 (Word.limit - 1)
  exact ⟨power, (given _).2 (by decide +kernel), steps (by decide +kernel),
    refused.2 (by decide +kernel), refused'.2 (by decide +kernel)⟩

/-! ### Capacities -/

theorem capacity?_eq (positive : 0 < slots) (mask : Nat) :
    capacity? slots mask =
      if (mask + 1) * slots < Word.limit then some ((mask + 1) * slots - 1) else none := by
  have fewer : mask + 1 ≤ (mask + 1) * slots := Nat.le_mul_of_pos_right _ positive
  split
  case isTrue small =>
    exact capacity?_eq_some_iff.2 ⟨⟨by omega, small, by omega⟩, rfl⟩
  case isFalse large =>
    rw [Option.eq_none_iff_forall_ne_some]
    intro count found
    exact large (capacity?_eq_some_iff.1 found).1.2.1

theorem capacity?_refuses_fitting_iff (positive : 0 < slots) (mask : Nat) :
    capacity? slots mask = none ∧ (mask + 1) * slots - 1 < Word.limit ↔
      (mask + 1) * slots = Word.limit := by
  have some : 0 < (mask + 1) * slots := Nat.mul_pos (Nat.succ_pos mask) positive
  rw [capacity?_eq positive]
  split
  case isTrue small => exact iff_of_false nofun (Nat.ne_of_lt small)
  case isFalse large =>
    rw [and_iff_right rfl]
    omega

theorem exists_mask_iff (positive : 0 < slots) :
    (∃ mask, (mask + 1) * slots = Word.limit) ↔ slots.isPowerOfTwo ∧ slots ≤ Word.limit := by
  constructor
  · rintro ⟨mask, same⟩
    obtain ⟨k, bound, rfl⟩ := (Nat.dvd_prime_pow Nat.prime_two).1 (Dvd.intro_left _ same)
    exact ⟨⟨k, rfl⟩, Nat.pow_le_pow_right Nat.two_pos bound⟩
  · rintro ⟨⟨k, rfl⟩, bound⟩
    have exponent : k ≤ 64 := (Nat.pow_le_pow_iff_right (by decide)).1 bound
    refine ⟨2 ^ (64 - k) - 1, ?_⟩
    rw [Nat.sub_add_cancel (Nat.two_pow_pos _), ← Nat.pow_add, Nat.sub_add_cancel exponent]
    rfl

end Extent

namespace Plan

variable {slots items : Nat} {factor : LoadFactor}

theorem capacity_eq (positive : 0 < slots) (mask : Nat) :
    capacity slots mask =
      if (mask + 1) * slots < Word.limit then .ok ((mask + 1) * slots - 1)
      else .error .capacityNotAddressable := by
  rw [capacity, Extent.capacity?_eq positive]
  by_cases small : (mask + 1) * slots < Word.limit
  · rw [if_pos small, if_pos small]
  · rw [if_neg small, if_neg small]

theorem holds_iff (positive : 0 < slots) {groups : Nat} (some : 0 < groups) :
    Holds slots items factor groups ↔
      groups * slots < Word.limit ∧ items ≤ Load.threshold (groups * slots - 1) factor := by
  rw [Holds, capacity_eq positive, Nat.sub_add_cancel some]
  constructor
  · rintro ⟨count, counted, enough⟩
    split at counted
    case isTrue small =>
      cases counted
      exact ⟨small, enough⟩
    case isFalse => cases counted
  · rintro ⟨small, enough⟩
    exact ⟨_, if_pos small, enough⟩

theorem not_holds_iff (positive : 0 < slots) {groups : Nat} (some : 0 < groups) :
    ¬Holds slots items factor groups ↔
      (groups * slots - 1 < Word.limit → items ≤ Load.threshold (groups * slots - 1) factor →
        groups * slots = Word.limit) := by
  rw [holds_iff positive some]
  constructor
  · intro none fits enough
    by_contra differs
    exact none ⟨by omega, enough⟩
  · rintro last ⟨small, enough⟩
    exact Nat.ne_of_lt small (last (by omega) enough)

/-- Capacities, where they are given and where they are not. With at least one slot in a group, a
capacity is given exactly if all slots are a word, and so the only capacity that fits and is refused
is the largest word; the groups for it exist exactly if the slots of a group are a power of two. The
planner gives up exactly if, but for this one capacity, no power of two has a capacity that fits and
reaches the items: none from two on, and as long as two groups have a capacity, not one either. -/
theorem capacity_boundary (positive : 1 ≤ slots) :
    (∀ mask, Extent.capacity? slots mask =
      if (mask + 1) * slots < Word.limit then some ((mask + 1) * slots - 1) else none) ∧
    (∀ mask, capacity slots mask =
      if (mask + 1) * slots < Word.limit then .ok ((mask + 1) * slots - 1)
      else .error .capacityNotAddressable) ∧
    (∀ mask, Extent.capacity? slots mask = none ∧ (mask + 1) * slots - 1 < Word.limit ↔
      (mask + 1) * slots = Word.limit) ∧
    ((∃ mask, (mask + 1) * slots = Word.limit) ↔ slots.isPowerOfTwo ∧ slots ≤ Word.limit) ∧
    (∀ items factor, (∃ fault, forItems slots items factor = .error fault) ↔
      ∀ groups, groups.isPowerOfTwo → 2 ≤ groups → groups * slots - 1 < Word.limit →
        items ≤ Load.threshold (groups * slots - 1) factor → groups * slots = Word.limit) ∧
    (2 * slots < Word.limit → ∀ items factor,
      (∃ fault, forItems slots items factor = .error fault) ↔
        ∀ groups, groups.isPowerOfTwo → groups * slots - 1 < Word.limit →
          items ≤ Load.threshold (groups * slots - 1) factor → groups * slots = Word.limit) := by
  refine ⟨Extent.capacity?_eq positive, capacity_eq positive,
    Extent.capacity?_refuses_fitting_iff positive, Extent.exists_mask_iff positive, ?_, ?_⟩
  · intro items factor
    rw [forItems_refuses_iff positive]
    exact forall₃_congr fun _ _ two => not_holds_iff positive (Nat.lt_of_lt_of_le Nat.two_pos two)
  · intro few items factor
    rw [forItems_refuses_iff_of_few positive few]
    exact forall₂_congr fun _ power => not_holds_iff positive (Nat.pos_of_isPowerOfTwo power)

/-- Groups of two slots come to the largest word, which is refused as a capacity and as what the
items of a full table need. Groups of fifteen slots do not come to it. -/
theorem narrow_capacity_boundary :
    (1 ≤ 2 ∧ Extent.capacity? 2 (2 ^ 62 - 1) = some (2 ^ 63 - 1) ∧
      Extent.capacity? 2 (2 ^ 63 - 1) = none ∧
      (∃ fault, forItems 2 (Word.limit - 1) .one = .error fault) ∧
      ∀ groups, groups.isPowerOfTwo → groups * 2 - 1 < Word.limit →
        Word.limit - 1 ≤ Load.threshold (groups * 2 - 1) .one → groups * 2 = Word.limit) ∧
    1 ≤ 15 ∧ ¬∃ mask, (mask + 1) * 15 = Word.limit := by
  obtain ⟨given, -, wrongly, -, -, planner⟩ := capacity_boundary (show 1 ≤ 2 by decide)
  obtain ⟨-, -, -, widths, -⟩ := capacity_boundary (show 1 ≤ 15 by decide)
  have refused : forItems 2 (Word.limit - 1) .one = .error .capacityNotAddressable := by
    decide +kernel
  have last := (planner (by decide) (Word.limit - 1) .one).1 ⟨_, refused⟩
  refine ⟨⟨by decide, given _, ((wrongly _).2 rfl).1, ⟨_, refused⟩, last⟩, by decide, ?_⟩
  rw [widths]
  decide

/-- A capacity that fits is not always given: with groups of one or two slots the largest word is
refused, though it is the capacity; and the planner refuses the items that it would hold. -/
theorem fitting_capacity_refused :
    let most := Word.limit - 1
    ((Word.limit - 1 + 1) * 1 - 1 = most ∧ Extent.capacity? 1 (Word.limit - 1) = none) ∧
      (2 ^ 63 - 1 + 1) * 2 - 1 = most ∧ Extent.capacity? 2 (2 ^ 63 - 1) = none ∧
      capacity 2 (2 ^ 63 - 1) = .error .capacityNotAddressable ∧
      most ≤ Load.threshold (2 ^ 63 * 2 - 1) .one ∧
      forItems 2 most .one = .error .capacityNotAddressable := by
  decide +kernel

end Plan

end PackedTable
