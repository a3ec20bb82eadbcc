import PackedTable.Binding

/-!
Binding the same table at another place. A bound table has a checked size, so binding a buffer for
its shape, width and geometry can only fail on the length and the address of the new buffer.
-/

namespace PackedTable

namespace Word

theorem fit?_of_lt {n : Nat} (small : n < limit) : fit? n = some n := if_pos small

theorem sub?_of_le {a b : Nat} (ordered : b ≤ a) : sub? a b = some (a - b) := if_pos ordered

theorem roundUp?_of_lt {n unit : Nat} (positive : 0 < unit) (small : roundUp n unit < limit) :
    roundUp? n unit = some (roundUp n unit) := by
  rw [roundUp?, if_neg (Nat.ne_of_gt positive), fit?_of_lt small]

end Word

namespace Extent

variable {slots mask : Nat} {entry : EntryLayout}

/-! A byte of metadata for each slot and one for each group: what the metadata are counted from is
not more than they are. -/

theorem groups_lt (small : groupsLength slots mask < Word.limit) : mask + 1 < Word.limit :=
  Nat.lt_of_le_of_lt (Nat.le_mul_of_pos_right _ (Nat.succ_pos slots)) small

theorem width_lt (small : groupsLength slots mask < Word.limit) : slots + 1 < Word.limit :=
  Nat.lt_of_le_of_lt (Nat.le_mul_of_pos_left _ (Nat.succ_pos mask)) small

theorem places_lt (small : groupsLength slots mask < Word.limit) :
    (mask + 1) * slots < Word.limit :=
  Nat.lt_of_le_of_lt (Nat.mul_le_mul_left _ (Nat.le_succ slots)) small

theorem groupsLength?_of_lt (small : groupsLength slots mask < Word.limit) :
    groupsLength? slots mask = some (groupsLength slots mask) := by
  simp only [groupsLength?, Word.add?, Word.mul?, Word.fit?_of_lt (groups_lt small),
    Word.fit?_of_lt (width_lt small), Option.bind_eq_bind, Option.bind_some]
  exact Word.fit?_of_lt small

theorem capacity?_of_lt (positive : 0 < slots) (small : groupsLength slots mask < Word.limit) :
    capacity? slots mask = some (capacity slots mask) := by
  have some : 1 ≤ (mask + 1) * slots := Nat.mul_pos (Nat.succ_pos mask) positive
  simp only [capacity?, Word.add?, Word.mul?, Word.fit?_of_lt (groups_lt small),
    Word.fit?_of_lt (places_lt small), Option.bind_eq_bind, Option.bind_some]
  exact Word.sub?_of_le some

/-- All numbers on the way to the size of a buffer are words. -/
structure StepsFit (slots mask : Nat) (entry : EntryLayout) : Prop where
  groups : mask + 1 < Word.limit
  places : (mask + 1) * slots < Word.limit
  stored : capacity slots mask < Word.limit
  width : slots + 1 < Word.limit
  metadata : groupsLength slots mask < Word.limit
  offset : entriesOffset slots mask entry < Word.limit
  storage : capacity slots mask * entry.size < Word.limit
  total : bufferSize slots mask entry < Word.limit

/-- No number on the way is larger than the last one. -/
theorem StepsFit.of_lt (aligned : 0 < entry.align)
    (total : bufferSize slots mask entry < Word.limit) : StepsFit slots mask entry := by
  have offset : entriesOffset slots mask entry < Word.limit :=
    Nat.lt_of_le_of_lt (Nat.le_add_right _ _) total
  have metadata : groupsLength slots mask < Word.limit :=
    Nat.lt_of_le_of_lt (Word.le_roundUp _ aligned) offset
  exact {
    groups := groups_lt metadata
    places := places_lt metadata
    stored := Nat.lt_of_le_of_lt (Nat.sub_le _ _) (places_lt metadata)
    width := width_lt metadata
    metadata
    offset
    storage := Nat.lt_of_le_of_lt (Nat.le_add_left _ _) total
    total }

theorem bufferSize?_of_lt (positive : 0 < slots) (aligned : 0 < entry.align)
    (small : bufferSize slots mask entry < Word.limit) :
    bufferSize? slots mask entry = some (bufferSize slots mask entry) := by
  have steps := StepsFit.of_lt aligned small
  have placed : entriesOffset? slots mask entry = some (entriesOffset slots mask entry) := by
    simp only [entriesOffset?, groupsLength?_of_lt steps.metadata, Option.bind_eq_bind,
      Option.bind_some]
    exact Word.roundUp?_of_lt aligned steps.offset
  simp only [bufferSize?, capacity?_of_lt positive steps.metadata, placed, Word.mul?, Word.add?,
    Word.fit?_of_lt steps.storage, Option.bind_eq_bind, Option.bind_some]
  exact Word.fit?_of_lt steps.total

end Extent

namespace Binding

variable {shape : Shape} {length length' : Nat}

/-- Another place for a bound table: an aligned address with enough bytes behind it. -/
structure Site (binding : Binding shape length) (length' : Nat) where
  address : Nat
  fits : binding.size ≤ length'
  aligned : address % shape.entry.align = 0

/-- The binding of the same table at another place. It has the same groups and slots. -/
@[reducible] def Site.binding {binding : Binding shape length} (site : Site binding length') :
    Binding shape length' where
  width := binding.width
  geometry := binding.geometry
  address := site.address
  keyed := binding.keyed
  addressable := binding.addressable
  fits := site.fits
  aligned := site.aligned

def here (binding : Binding shape length) : Site binding length :=
  ⟨binding.address, binding.fits, binding.aligned⟩

theorem bufferSize?_eq (binding : Binding shape length) :
    Extent.bufferSize? binding.width.slots binding.geometry.mask shape.entry =
      some binding.size :=
  Extent.bufferSize?_of_lt binding.slots_pos shape.entry_align_pos binding.addressable

theorem bind_site {binding : Binding shape length} (site : Site binding length') :
    bind shape binding.width binding.geometry site.address length' = .ok site.binding := by
  have found := binding.bufferSize?_eq
  unfold bind
  rw [dif_pos binding.keyed]
  split
  case h_1 missing =>
    rw [found] at missing
    cases missing
  case h_2 required seen =>
    have exact := Option.some.inj (found.symm.trans seen)
    subst exact
    rw [dif_pos site.fits, dif_pos site.aligned]

theorem bind_misaligned {binding : Binding shape length} {address : Nat}
    (fits : binding.size ≤ length') (misaligned : ¬address % shape.entry.align = 0) :
    bind shape binding.width binding.geometry address length' =
      .error (.error (.misalignedBuffer shape.entry.align)) := by
  have found := binding.bufferSize?_eq
  unfold bind
  rw [dif_pos binding.keyed]
  split
  case h_1 missing =>
    rw [found] at missing
    cases missing
  case h_2 required seen =>
    have exact := Option.some.inj (found.symm.trans seen)
    subst exact
    rw [dif_pos fits, dif_neg misaligned]

theorem bind_eq_ok {width : Width} {geometry : Geometry} {address : Nat}
    {binding : Binding shape length}
    (bound : bind shape width geometry address length = .ok binding) :
    binding.width = width ∧ binding.geometry = geometry ∧ binding.address = address := by
  unfold bind at bound
  split at bound
  case isFalse => cases bound
  case isTrue =>
    split at bound
    case h_1 => cases bound
    case h_2 =>
      split at bound
      case isFalse => cases bound
      case isTrue =>
        split at bound
        case isFalse => cases bound
        case isTrue =>
          cases bound
          exact ⟨rfl, rfl, rfl⟩

end Binding

end PackedTable
