import PackedTable.Proofs.Invariant
import PackedTable.Proofs.Relocation

/-!
Tables that differ only in what no operation looks at: where they lie, and what the bytes of free
slots, padding and the rest of the buffer are. Alike tables answer alike, and stay alike under each
change that an operation makes. In particular a table is alike to its copy at another place.
-/

namespace PackedTable

variable {shape : Shape} {length length' : Nat} {binding : Binding shape length}
  {site : binding.Site length'}

namespace Buffer

/-- The same metadata, and the same elements in the slots that hold one. -/
structure Alike (left : Buffer binding) (right : Buffer site.binding) : Prop where
  tag : ∀ group place, right.tag group place = left.tag group place
  overflow : ∀ group, right.overflow group = left.overflow group
  key : ∀ slot, left.isOccupied slot = true → right.key slot = left.key slot
  value : ∀ slot, left.isOccupied slot = true → right.value slot = left.value slot

namespace Alike

variable {left : Buffer binding} {right : Buffer site.binding}

theorem slotTag (alike : left.Alike right) (slot : binding.Slot) :
    right.slotTag slot = left.slotTag slot :=
  alike.tag _ _

theorem isOccupied (alike : left.Alike right) (slot : binding.Slot) :
    right.isOccupied slot = left.isOccupied slot := by
  rw [Buffer.isOccupied, alike.slotTag]
  rfl

theorem occupied (alike : left.Alike right) :
    right.occupied = left.occupied := by
  ext slot
  rw [mem_occupied, mem_occupied]
  exact iff_of_eq (congrArg (· = true) (alike.isOccupied slot))

theorem group (alike : left.Alike right) (index : binding.GroupIndex) :
    right.group index = left.group index := by
  unfold Buffer.group
  congr 1
  · exact congrArg Vector.ofFn (funext fun place => alike.tag index place)
  · exact alike.overflow index

theorem vacancy? (alike : left.Alike right) (index : binding.GroupIndex) :
    right.vacancy? index = left.vacancy? index := by
  unfold Buffer.vacancy?
  rw [alike.group]
  rfl

theorem landing? (alike : left.Alike right) (groups : List binding.GroupIndex) :
    right.landing? groups = left.landing? groups := by
  unfold Buffer.landing?
  exact congrArg (fun search => (groups.findSome? search).map Prod.snd) (funext alike.vacancy?)

theorem fullAhead (alike : left.Alike right) (groups : List binding.GroupIndex) :
    right.fullAhead groups = left.fullAhead groups := by
  unfold Buffer.fullAhead
  refine congrArg (fun test => groups.takeWhile test) (funext fun index => ?_)
  exact congrArg Option.isNone (alike.vacancy? index)

theorem trail (alike : left.Alike right) (hash : UInt64) (groups : List binding.GroupIndex) :
    right.trail hash groups = left.trail hash groups := by
  induction groups with
  | nil => rfl
  | cons first rest ih =>
    rw [Buffer.trail, Buffer.trail, ih, alike.group]

theorem hit? (alike : left.Alike right) (group : binding.GroupIndex) (hash : UInt64)
    (test : shape.Key → Bool) : right.hit? group hash test = left.hit? group hash test := by
  have compared : ∀ place ∈ (left.group group).slotsWithTag (Tag.ofHash hash),
      ((binding.slotAt? group place).filter fun slot => test (right.key slot)) =
        (binding.slotAt? group place).filter fun slot => test (left.key slot) := by
    intro place member
    cases lies : binding.slotAt? group place with
    | none => rfl
    | some slot =>
      obtain ⟨home, column⟩ := Binding.groupOf_slotAt lies
      rw [Group.mem_slotsWithTag, tags_group, ← home, ← column] at member
      rw [Option.filter_some, Option.filter_some, alike.key slot (isOccupied_of_slotTag member)]
  unfold Buffer.hit?
  rw [alike.group]
  calc
    _ = _ := List.findSome?_map.symm
    _ = _ := congrArg (List.findSome? id) (List.map_congr_left compared)
    _ = _ := List.findSome?_map

theorem seek (alike : left.Alike right) (hash : UInt64) (test : shape.Key → Bool) (turns : Nat)
    (probe : Probe) : right.seek hash test turns probe = left.seek hash test turns probe := by
  rw [seek_eq, seek_eq, alike.trail]
  exact congrArg (fun search => List.findSome? search _)
    (funext fun group => alike.hit? group hash test)

/-! ### Changes that keep a likeness -/

theorem setValue (alike : left.Alike right) (slot : binding.Slot) (value : shape.Value) :
    (left.setValue slot value).Alike (right.setValue slot value) where
  tag group place := by
    rw [tag_setValue, tag_setValue]
    exact alike.tag group place
  overflow group := by
    rw [overflow_setValue, overflow_setValue]
    exact alike.overflow group
  key other held := by
    rw [isOccupied_setValue] at held
    rw [key_setValue, key_setValue]
    exact alike.key other held
  value other held := by
    rw [isOccupied_setValue] at held
    rw [value_setValue, value_setValue, alike.value other held]

theorem release (alike : left.Alike right) (slot : binding.Slot) :
    (left.release slot).Alike (right.release slot) where
  tag group place := by
    rw [Buffer.release, Buffer.release, tag_setTag, tag_setTag, alike.tag]
    rfl
  overflow group := by
    rw [Buffer.release, Buffer.release, overflow_setTag, overflow_setTag]
    exact alike.overflow group
  key other kept := by
    have held := ((isOccupied_release left slot other).1 kept).2
    rw [Buffer.release, Buffer.release, key_setTag, key_setTag]
    exact alike.key other held
  value other kept := by
    have held := ((isOccupied_release left slot other).1 kept).2
    rw [Buffer.release, Buffer.release, value_setTag, value_setTag]
    exact alike.value other held

theorem reset (left : Buffer binding) (right : Buffer site.binding) :
    left.reset.Alike right.reset where
  tag group place := by
    rw [tag_reset, tag_reset]
    rfl
  overflow group := by rw [overflow_reset, overflow_reset]
  key slot held := by
    rw [isOccupied_reset] at held
    exact absurd held Bool.false_ne_true
  value slot held := by
    rw [isOccupied_reset] at held
    exact absurd held Bool.false_ne_true

theorem markOverflow (alike : left.Alike right) (group : binding.GroupIndex) (hash : UInt64) :
    (left.markOverflow group hash).Alike (right.markOverflow group hash) where
  tag other place := by
    rw [tag_markOverflow, tag_markOverflow]
    exact alike.tag other place
  overflow other := by
    rw [overflow_markOverflow, overflow_markOverflow, alike.overflow, alike.overflow]
  key slot held := by
    rw [key_markOverflow, key_markOverflow]
    exact alike.key slot ((isOccupied_markAll left hash [group] slot).symm.trans held)
  value slot held := by
    rw [value_markOverflow, value_markOverflow]
    exact alike.value slot ((isOccupied_markAll left hash [group] slot).symm.trans held)

theorem markAll {left : Buffer binding} {right : Buffer site.binding} (alike : left.Alike right)
    (hash : UInt64) (groups : List binding.GroupIndex) :
    (left.markAll hash groups).Alike (right.markAll hash groups) := by
  induction groups generalizing left right with
  | nil => exact alike
  | cons first rest ih => exact ih (alike.markOverflow first hash)

theorem occupy (alike : left.Alike right) (slot : binding.Slot) (hash : UInt64) (key : shape.Key)
    (value : shape.Value) :
    (left.occupy slot hash key value).Alike (right.occupy slot hash key value) where
  tag group place := by
    rw [tag_occupy, tag_occupy, alike.tag]
    rfl
  overflow group := by
    rw [overflow_occupy, overflow_occupy]
    exact alike.overflow group
  key other held := by
    rw [key_occupy, key_occupy]
    by_cases same : slot = other
    · rw [if_pos same, if_pos same]
    · rw [if_neg same, if_neg same]
      rw [isOccupied_occupy, or_iff_right (Ne.symm same)] at held
      exact alike.key other held
  value other held := by
    rw [value_occupy, value_occupy]
    by_cases same : slot = other
    · rw [if_pos same, if_pos same]
    · rw [if_neg same, if_neg same]
      rw [isOccupied_occupy, or_iff_right (Ne.symm same)] at held
      exact alike.value other held

/-! ### Copies -/

theorem getElem_of_used {left : Buffer binding} {right : Buffer site.binding}
    (same : right.used = left.used) {i : Nat} (inside : i < binding.size) (small : i < length)
    (small' : i < length') : right.bytes[i] = left.bytes[i] := by
  have read := congrArg (·[i]?) same
  have inside' : i < site.binding.size := inside
  simpa [used, Array.getElem?_extract, inside, inside', small, small'] using read

theorem read_of_used {left : Buffer binding} {right : Buffer site.binding}
    (same : right.used = left.used) {start count : Nat} (inside : start + count ≤ binding.size)
    (within : start + count ≤ length) (within' : start + count ≤ length') :
    Bytes.read right.bytes start count within' = Bytes.read left.bytes start count within := by
  apply Vector.ext
  intro i small
  rw [Bytes.getElem_read, Bytes.getElem_read]
  exact getElem_of_used same (by omega) (by omega) (by omega)

/-- Equal used bytes are all that it takes. -/
theorem of_used {left : Buffer binding} {right : Buffer site.binding}
    (same : right.used = left.used) : left.Alike right where
  tag group place := by
    have last := binding.group_end_le group
    have padded := binding.groupsLength_le_entriesOffset
    have whole := binding.size_eq
    exact getElem_of_used same (by omega) (binding.tag_lt group place)
      (site.binding.tag_lt group place)
  overflow group := by
    have last := binding.group_end_le group
    have padded := binding.groupsLength_le_entriesOffset
    have whole := binding.size_eq
    exact getElem_of_used same (by omega) (binding.overflow_lt group)
      (site.binding.overflow_lt group)
  key slot _ := by
    have last := binding.entry_end_le slot
    have keyEnd := shape.key_end_le
    have valueEnd := shape.value_end_le
    exact read_of_used same (by omega) (binding.key_end_le slot) (site.binding.key_end_le slot)
  value slot _ := by
    have last := binding.entry_end_le slot
    have valueEnd := shape.value_end_le
    have start : binding.valueStart slot = binding.entryStart slot + shape.entry.valueOffset := rfl
    exact read_of_used same (by omega) (binding.value_end_le slot) (site.binding.value_end_le slot)

end Alike

end Buffer

namespace Table

structure Like (likeness : Buffer binding → Buffer site.binding → Prop) (left : Table binding)
    (right : Table site.binding) : Prop where
  buffer : likeness left.buffer right.buffer
  hash : right.hash = left.hash
  size : right.size = left.size
  maxLoad : right.maxLoad = left.maxLoad

abbrev Alike (left : Table binding) (right : Table site.binding) : Prop :=
  Like (fun left right => left.Alike right) left right

namespace Alike

variable {left : Table binding} {right : Table site.binding}

theorem trail (alike : left.Alike right) (hash : UInt64) : right.trail hash = left.trail hash :=
  alike.buffer.trail hash _

theorem landing? (alike : left.Alike right) (hash : UInt64) :
    right.landing? hash = left.landing? hash :=
  alike.buffer.landing? _

theorem passed (alike : left.Alike right) (hash : UInt64) : right.passed hash = left.passed hash :=
  alike.buffer.fullAhead _

theorem sound (alike : left.Alike right) (sound : left.Sound) : right.Sound where
  sentinel group place := by
    rw [alike.buffer.tag]
    exact sound.sentinel group place
  tagged slot held := by
    rw [alike.buffer.isOccupied] at held
    rw [alike.buffer.slotTag, alike.hash, alike.buffer.key slot held]
    exact sound.tagged slot held
  distinct slot slot' held held' same := by
    rw [alike.buffer.isOccupied] at held held'
    rw [alike.buffer.key slot held, alike.buffer.key slot' held'] at same
    exact sound.distinct slot slot' held held' same
  reached slot held := by
    rw [alike.buffer.isOccupied] at held
    rw [alike.hash, alike.buffer.key slot held, alike.trail]
    exact sound.reached slot held
  counted := by
    rw [alike.buffer.occupied, alike.size]
    exact sound.counted
  bounded := by
    rw [alike.size, alike.maxLoad]
    exact sound.bounded
  threshold := by
    rw [alike.maxLoad]
    exact sound.threshold

theorem findWithHash (alike : left.Alike right) (hash : UInt64) (test : shape.Key → Bool) :
    right.findWithHash hash test = left.findWithHash hash test :=
  alike.buffer.seek hash test _ _

theorem find (alike : left.Alike right) (key : shape.Key) : right.find key = left.find key := by
  unfold Table.find Table.findWhere Table.isEmpty
  rw [alike.size, alike.hash, alike.findWithHash]

theorem holds (alike : left.Alike right) {key : shape.Key} {value : shape.Value} :
    right.Holds key value ↔ left.Holds key value := by
  apply exists_congr
  intro slot
  rw [alike.buffer.isOccupied]
  refine and_congr_right fun held => ?_
  rw [alike.buffer.key slot held, alike.buffer.value slot held]

end Alike

end Table

end PackedTable
