import PackedTable.Proofs.Lockstep
import PackedTable.Proofs.Reachability

/-!
Copies of a table. Two tables of one geometry whose used bytes are the same are the same table to
every caller: whatever is done to both of them, the answers are the same, and so are the used bytes
afterwards. Addresses and the bytes behind the table may differ.
-/

namespace PackedTable

variable {shape : Shape} {length length' : Nat} {binding : Binding shape length}
  {site : binding.Site length'} {σ : Type}

namespace Bytes

variable {n n' count size : Nat}

/-- The same bytes up to a position. -/
def AgreeTo (size : Nat) (left : Vector UInt8 n) (right : Vector UInt8 n') : Prop :=
  ∀ i, i < size → ∀ (inside : i < n) (inside' : i < n'), right[i] = left[i]

namespace AgreeTo

variable {left : Vector UInt8 n} {right : Vector UInt8 n'}

theorem set (agree : AgreeTo size left right) (position : Nat) (byte : UInt8)
    (inside : position < n) (inside' : position < n') :
    AgreeTo size (left.set position byte) (right.set position byte) := by
  intro i small _ _
  rw [Vector.getElem_set, Vector.getElem_set, agree i small]

theorem write (agree : AgreeTo size left right) (offset : Nat) (run : Vector UInt8 count)
    (within : offset + count ≤ n) (within' : offset + count ≤ n') :
    AgreeTo size (Bytes.write left offset run within) (Bytes.write right offset run within') := by
  intro i small _ _
  rw [getElem_write, getElem_write, agree i small]

theorem clear (agree : AgreeTo size left right) (within : count ≤ n) (within' : count ≤ n') :
    AgreeTo size (Bytes.clear left count within) (Bytes.clear right count within') := by
  intro i small _ _
  rw [getElem_clear, getElem_clear, agree i small]

end AgreeTo

end Bytes

namespace Buffer

variable {left : Buffer binding} {right : Buffer site.binding}

theorem used_eq_iff :
    right.used = left.used ↔ Bytes.AgreeTo binding.size left.bytes right.bytes := by
  constructor
  case mp =>
    intro same i inside small small'
    exact Alike.getElem_of_used same inside small small'
  case mpr =>
    intro agree
    have bound := binding.size_le
    have bound' : binding.size ≤ length' := site.fits
    apply Array.ext
    · rw [size_used, size_used]
      rfl
    · intro i inside' inside
      rw [size_used] at inside
      have small : i < length := by omega
      have small' : i < length' := by omega
      simp only [used, Array.getElem_extract, Nat.zero_add, Vector.getElem_toArray]
      exact agree i inside small small'

/-! ### Changes of both buffers -/

theorem used_setTag (same : right.used = left.used) (group : binding.GroupIndex)
    (place : binding.Place) (tag : UInt8) :
    (right.setTag group place tag).used = (left.setTag group place tag).used :=
  used_eq_iff.2 ((used_eq_iff.1 same).set _ tag (binding.tag_lt group place)
    (site.binding.tag_lt group place))

theorem used_markOverflow (same : right.used = left.used) (group : binding.GroupIndex)
    (hash : UInt64) :
    (right.markOverflow group hash).used = (left.markOverflow group hash).used := by
  have marked : right.overflow group = left.overflow group := (Alike.of_used same).overflow group
  unfold markOverflow
  rw [marked]
  exact used_eq_iff.2 ((used_eq_iff.1 same).set _ _ (binding.overflow_lt group)
    (site.binding.overflow_lt group))

theorem used_markAll (same : right.used = left.used) (hash : UInt64)
    (groups : List binding.GroupIndex) :
    (right.markAll hash groups).used = (left.markAll hash groups).used := by
  induction groups generalizing left right with
  | nil => exact same
  | cons first rest ih => exact ih (used_markOverflow same first hash)

theorem used_setKey (same : right.used = left.used) (slot : binding.Slot) (key : shape.Key) :
    (right.setKey slot key).used = (left.setKey slot key).used :=
  used_eq_iff.2 ((used_eq_iff.1 same).write _ key (binding.key_end_le slot)
    (site.binding.key_end_le slot))

theorem used_setValue (same : right.used = left.used) (slot : binding.Slot)
    (value : shape.Value) : (right.setValue slot value).used = (left.setValue slot value).used :=
  used_eq_iff.2 ((used_eq_iff.1 same).write _ value (binding.value_end_le slot)
    (site.binding.value_end_le slot))

theorem used_occupy (same : right.used = left.used) (slot : binding.Slot) (hash : UInt64)
    (key : shape.Key) (value : shape.Value) :
    (right.occupy slot hash key value).used = (left.occupy slot hash key value).used := by
  have tagged := used_setTag same (binding.groupOf slot) (binding.placeOf slot) (Tag.ofHash hash)
  exact used_setValue (used_setKey tagged slot key) slot value

theorem used_reset (same : right.used = left.used) : right.reset.used = left.reset.used := by
  have blank : right.blank.used = left.blank.used :=
    used_eq_iff.2 ((used_eq_iff.1 same).clear binding.groupsLength_le site.binding.groupsLength_le)
  exact used_setTag blank binding.lastGroup binding.lastPlace Tag.sentinel

theorem used_lockstep :
    Lockstep fun (left : Buffer binding) (right : Buffer site.binding) =>
      right.used = left.used where
  alike := .of_used
  setValue same := used_setValue same
  release same _ := used_setTag same _ _ _
  markAll same := used_markAll same
  occupy same := used_occupy same
  reset := used_reset

end Buffer

abbrev Table.Copy (left : Table binding) (right : Table site.binding) : Prop :=
  Table.Like (fun left right => right.used = left.used) left right

namespace Mounted

/-- The same table, wherever the two buffers lie and whatever is behind their used bytes. -/
structure Copy (left right : Mounted shape) : Prop where
  width : right.binding.width = left.binding.width
  geometry : right.binding.geometry = left.binding.geometry
  used : right.table.buffer.used = left.table.buffer.used
  hash : right.table.hash = left.table.hash
  size : right.table.size = left.table.size
  maxLoad : right.table.maxLoad = left.table.maxLoad

namespace Copy

theorem refl (mounted : Mounted shape) : mounted.Copy mounted := ⟨rfl, rfl, rfl, rfl, rfl, rfl⟩

theorem of_table {left : Table binding} {right : Table site.binding} (copy : left.Copy right) :
    Copy ⟨binding, left⟩ ⟨site.binding, right⟩ :=
  ⟨rfl, rfl, copy.buffer, copy.hash, copy.size, copy.maxLoad⟩

theorem exists_site {left right : Mounted shape} (copy : left.Copy right) :
    ∃ (length : Nat) (site : left.binding.Site length) (table : Table site.binding),
      right = ⟨site.binding, table⟩ ∧ left.table.Copy table := by
  obtain ⟨length, site, table, rfl⟩ := Mounted.exists_site copy.width copy.geometry
  exact ⟨length, site, table, rfl, copy.used, copy.hash, copy.size, copy.maxLoad⟩

theorem reopen {left right : Mounted shape} (copy : left.Copy right) (address : Nat)
    (rest : Array UInt8) (maxLoad : Nat) :
    right.reopen address rest maxLoad = left.reopen address rest maxLoad := by
  rw [Mounted.reopen, Mounted.reopen, copy.width, copy.geometry, copy.used, copy.hash, copy.size]

theorem act {left right : Mounted shape} (copy : left.Copy right) (action : Action shape σ)
    (state : σ) :
    (left.act action state).mounted.Copy (right.act action state).mounted ∧
      (right.act action state).state = (left.act action state).state ∧
      (right.act action state).reply = (left.act action state).reply := by
  rcases (Step.act action).inPlace_or_reopen with inPlace | ⟨address, rest, maxLoad, moves⟩
  · obtain ⟨length, site, table, rfl, same⟩ := copy.exists_site
    obtain ⟨after, after', next, reply, stepped, stepped', like⟩ :=
      Buffer.used_lockstep.step same inPlace state
    change left.act action state = _ at stepped
    change Mounted.act ⟨site.binding, table⟩ action state = _ at stepped'
    rw [stepped, stepped']
    exact ⟨of_table like, rfl, rfl⟩
  · cases moves
    simp only [Mounted.act, copy.reopen]
    cases left.reopen address rest maxLoad with
    | ok after => exact ⟨refl after, rfl, rfl⟩
    | error cause => exact ⟨copy, rfl, rfl⟩

theorem run {left right : Mounted shape} (sound : left.table.Sound) (copy : left.Copy right)
    (actions : List (Action shape σ)) (state : σ) :
    (left.run actions state).1.Copy (right.run actions state).1 ∧
      (right.run actions state).2 = (left.run actions state).2 := by
  induction actions generalizing left right state with
  | nil => exact ⟨copy, rfl⟩
  | cons action rest ih =>
    obtain ⟨after, next, reply⟩ := copy.act action state
    have further := ih (sound_act sound action state) after (left.act action state).state
    simp only [Mounted.run, next, reply]
    refine ⟨further.1, ?_⟩
    exact congrArg (fun last => (last.1, (left.act action state).reply :: last.2)) further.2

end Copy

end Mounted

end PackedTable
