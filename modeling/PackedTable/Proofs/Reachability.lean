import PackedTable.Proofs.Likeness
import PackedTable.Proofs.Operations

/-!
The invariant holds of every table that a session leads to. Opening a copy of the bytes at another
place gives a table that is alike to the old one, up to the threshold.
-/

namespace PackedTable

variable {shape : Shape} {length : Nat} {binding : Binding shape length} {σ : Type}

theorem Buffer.size_used (buffer : Buffer binding) : buffer.used.size = binding.size := by
  rw [Buffer.used, Array.size_extract, Vector.size_toArray]
  have bound := binding.size_le
  omega

namespace Table

theorem held?_eq_some {table : Table binding} {number : Nat} {slot : binding.Slot}
    (named : table.held? number = some slot) :
    table.buffer.isOccupied slot = true ∧ slot.val = number := by
  rw [held?, Option.filter_eq_some_iff] at named
  refine ⟨named.2, ?_⟩
  have seen := named.1
  unfold Binding.slot at seen
  split at seen
  · exact congrArg Fin.val (Option.some.inj seen).symm
  · cases seen

def withThreshold (table : Table binding) (maxLoad : Nat) : Table binding := { table with maxLoad }

theorem Sound.withThreshold {table : Table binding} (sound : table.Sound) {maxLoad : Nat}
    (bounded : table.size ≤ maxLoad) (threshold : maxLoad ≤ binding.capacity) :
    (table.withThreshold maxLoad).Sound :=
  ⟨sound.sentinel, sound.tagged, sound.distinct, sound.reached, sound.counted, bounded, threshold⟩

end Table

namespace Mounted

/-- A region in which the used bytes of a table stand, as a site of its binding. -/
def siteOf (mounted : Mounted shape) (region : Region)
    (copied : region.bytes.extract 0 mounted.binding.size = mounted.table.buffer.used)
    (aligned : region.address % shape.entry.align = 0) :
    mounted.binding.Site region.bytes.size where
  address := region.address
  fits := by
    have size := congrArg Array.size copied
    rw [Array.size_extract, Buffer.size_used] at size
    omega
  aligned := aligned

def copyAt (mounted : Mounted shape) (region : Region)
    (site : mounted.binding.Site region.bytes.size) (maxLoad : Nat) : Mounted shape :=
  ⟨site.binding, ⟨⟨region.bytes.toVector⟩, mounted.table.hash, mounted.table.size, maxLoad⟩⟩

theorem alike_copyAt {mounted : Mounted shape} {region : Region}
    (copied : region.bytes.extract 0 mounted.binding.size = mounted.table.buffer.used)
    (site : mounted.binding.Site region.bytes.size) (maxLoad : Nat) :
    (mounted.table.withThreshold maxLoad).Alike (mounted.copyAt region site maxLoad).table :=
  ⟨.of_used copied, rfl, rfl, rfl⟩

theorem attach_copy {mounted : Mounted shape} {region : Region}
    (copied : region.bytes.extract 0 mounted.binding.size = mounted.table.buffer.used)
    (aligned : region.address % shape.entry.align = 0) (maxLoad : Nat) :
    attach mounted.binding.width mounted.binding.geometry region mounted.table.hash
        mounted.table.size maxLoad =
      if mounted.table.size ≤ maxLoad ∧ maxLoad ≤ mounted.binding.capacity then
        .ok (mounted.copyAt region (mounted.siteOf region copied aligned) maxLoad)
      else
        .error (.error
          (.invalidSizeControl mounted.table.size maxLoad mounted.binding.capacity)) := by
  have bound := Binding.bind_site (mounted.siteOf region copied aligned)
  change Binding.bind shape _ _ region.address region.bytes.size = _ at bound
  rw [attach, bound]
  simp only [bind, Except.bind, Table.attach]
  by_cases inOrder : mounted.table.size ≤ maxLoad ∧ maxLoad ≤ mounted.binding.capacity
  · rw [if_pos inOrder, if_pos inOrder]
    rfl
  · rw [if_neg inOrder, if_neg inOrder]
    rfl

theorem extract_append_used (mounted : Mounted shape) (rest : Array UInt8) :
    (mounted.table.buffer.used ++ rest).extract 0 mounted.binding.size =
      mounted.table.buffer.used := by
  rw [← mounted.table.buffer.size_used, Array.extract_append_left, Array.extract_size]

/-- The table after a successful move. -/
def moved (mounted : Mounted shape) (address : Nat) (rest : Array UInt8) (maxLoad : Nat)
    (aligned : address % shape.entry.align = 0) : Mounted shape :=
  mounted.copyAt ⟨address, mounted.table.buffer.used ++ rest⟩
    (mounted.siteOf _ (mounted.extract_append_used rest) aligned) maxLoad

theorem reopen_eq (mounted : Mounted shape) (address : Nat) (rest : Array UInt8) (maxLoad : Nat) :
    mounted.reopen address rest maxLoad =
      if aligned : address % shape.entry.align = 0 then
        if mounted.table.size ≤ maxLoad ∧ maxLoad ≤ mounted.binding.capacity then
          .ok (mounted.moved address rest maxLoad aligned)
        else
          .error (.error
            (.invalidSizeControl mounted.table.size maxLoad mounted.binding.capacity))
      else .error (.error (.misalignedBuffer shape.entry.align)) := by
  by_cases aligned : address % shape.entry.align = 0
  · rw [dif_pos aligned]
    exact attach_copy (mounted.extract_append_used rest) aligned maxLoad
  · have fits : mounted.binding.size ≤ (mounted.table.buffer.used ++ rest).size := by
      rw [Array.size_append, Buffer.size_used]
      exact Nat.le_add_right _ _
    rw [dif_neg aligned, reopen, attach, Binding.bind_misaligned fits aligned]
    rfl

theorem reopen_eq_ok {mounted after : Mounted shape} {address : Nat} {rest : Array UInt8}
    {maxLoad : Nat} (reopened : mounted.reopen address rest maxLoad = .ok after) :
    ∃ aligned : address % shape.entry.align = 0,
      (mounted.table.size ≤ maxLoad ∧ maxLoad ≤ mounted.binding.capacity) ∧
        after = mounted.moved address rest maxLoad aligned := by
  rw [reopen_eq] at reopened
  split at reopened
  case isFalse => cases reopened
  case isTrue aligned =>
    split at reopened
    case isFalse => cases reopened
    case isTrue inOrder => exact ⟨aligned, inOrder, (Except.ok.inj reopened).symm⟩

theorem sound_moved {mounted : Mounted shape} (sound : mounted.table.Sound) {address : Nat}
    {rest : Array UInt8} {maxLoad : Nat} (aligned : address % shape.entry.align = 0)
    (inOrder : mounted.table.size ≤ maxLoad ∧ maxLoad ≤ mounted.binding.capacity) :
    (mounted.moved address rest maxLoad aligned).table.Sound :=
  (alike_copyAt (mounted.extract_append_used rest) _ maxLoad).sound
    (sound.withThreshold inOrder.1 inOrder.2)

/-- Whatever the changes that an action may come down to keep, the action keeps: a request, a value
that is written, an element that is taken out by its slot, or a move of the bytes. -/
theorem act_keeps (holds : Mounted shape → Prop) {mounted : Mounted shape} (begins : holds mounted)
    (action : Action shape σ) (state : σ)
    (ask : ∀ request, action = .ask request →
      holds ⟨mounted.binding, (mounted.table.serve request state).table⟩)
    (setValue : ∀ slot value, holds ⟨mounted.binding, mounted.table.setValue slot value⟩)
    (removeSlot : ∀ number slot, action = .removeAt number →
      mounted.table.held? number = some slot →
      holds ⟨mounted.binding, (mounted.table.removeSlot slot).2⟩)
    (moved : ∀ address rest maxLoad aligned,
      mounted.table.size ≤ maxLoad ∧ maxLoad ≤ mounted.binding.capacity →
      holds (mounted.moved address rest maxLoad aligned)) :
    holds (mounted.act action state).mounted := by
  cases action with
  | ask request => exact ask request rfl
  | find key => exact begins
  | entryAt number => exact begins
  | updateAt number write =>
    simp only [act]
    split
    · exact setValue _ _
    · exact begins
  | removeAt number =>
    simp only [act]
    split
    case h_1 slot named => exact removeSlot number slot rfl named
    case h_2 => exact begins
  | reopen address rest maxLoad =>
    simp only [act]
    cases reopened : mounted.reopen address rest maxLoad with
    | error cause => exact begins
    | ok after =>
      obtain ⟨aligned, inOrder, rfl⟩ := reopen_eq_ok reopened
      exact moved address rest maxLoad aligned inOrder

theorem capacity_act (mounted : Mounted shape) (action : Action shape σ) (state : σ) :
    (mounted.act action state).mounted.binding.capacity = mounted.binding.capacity :=
  act_keeps (·.binding.capacity = mounted.binding.capacity) rfl action state (fun _ _ => rfl)
    (fun _ _ => rfl) (fun _ _ _ _ => rfl) (fun _ _ _ _ _ => rfl)

theorem sound_act {mounted : Mounted shape} (sound : mounted.table.Sound) (action : Action shape σ)
    (state : σ) : (mounted.act action state).mounted.table.Sound := by
  apply act_keeps (·.table.Sound) sound action state
  · intro request _
    exact sound.serve request state
  · intro slot value
    exact sound.setValue slot value
  · intro number slot _ named
    exact sound.removeSlot (Table.held?_eq_some named).1
  · intro address rest maxLoad aligned inOrder
    exact sound_moved sound aligned inOrder

theorem exists_of_create {width : Width} {geometry : Geometry} {region : Region}
    {hash : shape.Key → UInt64} {factor : LoadFactor} {opened : Mounted shape}
    (created : create width geometry region hash factor = .ok opened) :
    ∃ binding : Binding shape region.bytes.size,
      Binding.bind shape width geometry region.address region.bytes.size = .ok binding ∧
        opened = ⟨binding, Table.create binding region.bytes.toVector hash factor⟩ := by
  unfold create at created
  cases bound : Binding.bind shape width geometry region.address region.bytes.size with
  | error cause =>
    rw [bound] at created
    cases created
  | ok binding =>
    rw [bound] at created
    exact ⟨binding, rfl, (Except.ok.inj created).symm⟩

theorem create_eq_ok {width : Width} {geometry : Geometry} {region : Region}
    {hash : shape.Key → UInt64} {factor : LoadFactor} {opened : Mounted shape}
    (created : create width geometry region hash factor = .ok opened) :
    opened.binding.width = width ∧ opened.binding.geometry = geometry ∧
      opened.table.hash = hash ∧ opened.table.size = 0 ∧
      opened.table.maxLoad = Load.threshold opened.binding.capacity factor ∧
      ∀ key, ¬opened.table.Has key := by
  obtain ⟨binding, bound, rfl⟩ := exists_of_create created
  obtain ⟨sameWidth, sameGeometry, -⟩ := Binding.bind_eq_ok bound
  refine ⟨sameWidth, sameGeometry, rfl, rfl, rfl, ?_⟩
  rintro key ⟨slot, held, -⟩
  rw [Table.create, Buffer.isOccupied_reset] at held
  exact Bool.false_ne_true held

theorem sound_create {width : Width} {geometry : Geometry} {region : Region}
    {hash : shape.Key → UInt64} {factor : LoadFactor} {opened : Mounted shape}
    (created : create width geometry region hash factor = .ok opened) : opened.table.Sound := by
  obtain ⟨binding, -, rfl⟩ := exists_of_create created
  exact Table.Sound.create binding _ hash factor

theorem Reachable.sound {mounted : Mounted shape} (reachable : Reachable mounted) :
    mounted.table.Sound := by
  induction reachable with
  | create created => exact sound_create created
  | act _ action state ih => exact sound_act ih action state

end Mounted

end PackedTable
