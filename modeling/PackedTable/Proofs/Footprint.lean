import PackedTable.Proofs.Spans
import PackedTable.Proofs.Steps

/-!
Which bytes an operation may change. Every write keeps to the region of the groups and to the keys
and values of slots, and none of them touches the sentinel; so the bytes between the regions, those
between the parts of an entry, and those behind the table stay what they were through every session.
What is changed by each operation on its own is told position by position.
-/

namespace PackedTable

variable {shape : Shape} {length : Nat} {binding : Binding shape length} {σ : Type}

namespace Binding

/-- Key and value of a slot. -/
def elementSpan (binding : Binding shape length) (slot : binding.Slot) : Set Nat :=
  (binding.keySpan slot).positions ∪ (binding.valueSpan slot).positions

/-- The overflow bytes of the given groups. -/
def marks (binding : Binding shape length) (groups : List binding.GroupIndex) : Set Nat :=
  {i | ∃ group ∈ groups, binding.overflowPosition group = i}

/-- The groups that a search for a hash meets before it comes to the group of a slot. -/
def ahead (binding : Binding shape length) (hash : UInt64) (slot : binding.Slot) :
    List binding.GroupIndex :=
  (binding.geometry.route hash).takeWhile (· ≠ binding.groupOf slot)

/-- The positions that a table may write to. -/
def Live (binding : Binding shape length) : Set Nat :=
  binding.groupRegion ∪ ⋃ slot, binding.elementSpan slot

/-- The positions of the table that it never writes to: those between the two regions, and those of
an entry that belong neither to its key nor to its value. -/
inductive Padding (binding : Binding shape length) (i : Nat) : Prop
  | between (behind : binding.groupsLength ≤ i) (before : i < binding.entriesOffset)
  | inside (slot : binding.Slot) (entry : i ∈ (binding.entrySpan slot).positions)
      (key : i ∉ (binding.keySpan slot).positions) (value : i ∉ (binding.valueSpan slot).positions)

theorem elementSpan_subset (slot : binding.Slot) :
    binding.elementSpan slot ⊆ (binding.entrySpan slot).positions :=
  Set.union_subset (keySpan_subset slot) (valueSpan_subset slot)

theorem entrySpan_subset (slot : binding.Slot) :
    (binding.entrySpan slot).positions ⊆ binding.entryRegion := by
  rw [← iUnion_entrySpan]
  exact Set.subset_iUnion (fun slot => (binding.entrySpan slot).positions) slot

theorem elementSpan_disjoint {slot slot' : binding.Slot} (apart : slot ≠ slot') :
    Disjoint (binding.elementSpan slot) (binding.elementSpan slot') :=
  (entrySpan_disjoint apart).mono (elementSpan_subset slot) (elementSpan_subset slot')

theorem elementSpan_disjoint_groupRegion (slot : binding.Slot) :
    Disjoint (binding.elementSpan slot) binding.groupRegion := by
  have inEntries := (elementSpan_subset slot).trans (entrySpan_subset slot)
  exact (binding.groupRegion_disjoint_entryRegion.mono_right inEntries).symm

theorem slotPosition_mem (slot : binding.Slot) : binding.slotPosition slot ∈ binding.groupRegion :=
  ⟨Nat.zero_le _, tagPosition_lt _ _⟩

theorem marks_subset (groups : List binding.GroupIndex) :
    binding.marks groups ⊆ binding.groupRegion := by
  rintro i ⟨group, -, rfl⟩
  exact ⟨Nat.zero_le _, overflowPosition_lt group⟩

theorem slotPosition_inj {slot slot' : binding.Slot}
    (same : binding.slotPosition slot = binding.slotPosition slot') : slot = slot' := by
  obtain ⟨groups, places⟩ := tag_position_inj same
  exact home_inj groups places

theorem Padding.lt_size {i : Nat} (padding : binding.Padding i) : i < binding.size := by
  cases padding with
  | between _ before =>
    have whole := binding.size_eq
    omega
  | inside slot entry => exact (entrySpan_subset slot entry).2

def sentinelPosition (binding : Binding shape length) : Nat :=
  binding.tagPosition binding.lastGroup binding.lastPlace

theorem not_live_of_padding {i : Nat} (padding : binding.Padding i) : i ∉ binding.Live := by
  rintro (inGroups | inElements)
  · have before : i < binding.groupsLength := inGroups.2
    cases padding with
    | between behind => omega
    | inside slot entry =>
      have inEntries := entrySpan_subset slot entry
      exact Set.disjoint_left.1 binding.groupRegion_disjoint_entryRegion inGroups inEntries
  · obtain ⟨other, member⟩ := Set.mem_iUnion.1 inElements
    have inEntry := elementSpan_subset other member
    cases padding with
    | between _ before =>
      have behind : binding.entriesOffset ≤ i := (entrySpan_subset other inEntry).1
      omega
    | inside slot entry key value =>
      by_cases same : slot = other
      · subst same
        exact member.elim key value
      · exact Set.disjoint_left.1 (entrySpan_disjoint same) entry inEntry

theorem not_live_of_behind {i : Nat} (behind : binding.size ≤ i) : i ∉ binding.Live := by
  have padded := binding.groupsLength_le_entriesOffset
  have whole := binding.size_eq
  rintro (inGroups | inElements)
  · have before : i < binding.groupsLength := inGroups.2
    omega
  · obtain ⟨slot, member⟩ := Set.mem_iUnion.1 inElements
    have before : i < binding.size := (entrySpan_subset slot (elementSpan_subset slot member)).2
    omega

end Binding

namespace Buffer

/-- Outside of the given positions all bytes are what they were. -/
def ChangesOnly (before after : Buffer binding) (places : Set Nat) : Prop :=
  ∀ i (inside : i < length), i ∉ places → after.bytes[i] = before.bytes[i]

namespace ChangesOnly

variable {before between after : Buffer binding} {places : Set Nat}

theorem refl (buffer : Buffer binding) (places : Set Nat) : buffer.ChangesOnly buffer places :=
  fun _ _ _ => rfl

theorem mono {wider : Set Nat} (changes : before.ChangesOnly after places)
    (within : places ⊆ wider) : before.ChangesOnly after wider :=
  fun i inside outside => changes i inside fun member => outside (within member)

theorem trans (first : before.ChangesOnly between places)
    (second : between.ChangesOnly after places) : before.ChangesOnly after places := by
  intro i inside outside
  rw [second i inside outside, first i inside outside]

theorem append {further : Set Nat} (first : before.ChangesOnly between places)
    (second : between.ChangesOnly after further) : before.ChangesOnly after (places ∪ further) :=
  (first.mono Set.subset_union_left).trans (second.mono Set.subset_union_right)

/-! ### What is read outside of the positions -/

theorem getElem? (changes : before.ChangesOnly after places) {i : Nat} (outside : i ∉ places) :
    after.bytes[i]? = before.bytes[i]? := by
  by_cases inside : i < length
  · rw [Vector.getElem?_eq_getElem inside, Vector.getElem?_eq_getElem inside]
    exact congrArg some (changes i inside outside)
  · have behind : length ≤ i := Nat.le_of_not_lt inside
    rw [Vector.getElem?_eq_none behind, Vector.getElem?_eq_none behind]

theorem tag (changes : before.ChangesOnly after places) {group : binding.GroupIndex}
    {place : binding.Place} (outside : binding.tagPosition group place ∉ places) :
    after.tag group place = before.tag group place :=
  changes _ (binding.tag_lt group place) outside

theorem slotTag (changes : before.ChangesOnly after places) {slot : binding.Slot}
    (outside : binding.slotPosition slot ∉ places) : after.slotTag slot = before.slotTag slot :=
  changes.tag outside

theorem key (changes : before.ChangesOnly after places) {slot : binding.Slot}
    (apart : Disjoint (binding.elementSpan slot) places) : after.key slot = before.key slot := by
  refine Vector.ext fun i inside => ?_
  have bound := binding.key_end_le slot
  rw [Buffer.key, Buffer.key, Bytes.getElem_read, Bytes.getElem_read]
  apply changes _ (by omega)
  apply Set.disjoint_left.1 apart
  exact Or.inl ⟨Nat.le_add_right _ _, Nat.add_lt_add_left inside _⟩

theorem value (changes : before.ChangesOnly after places) {slot : binding.Slot}
    (apart : Disjoint (binding.elementSpan slot) places) :
    after.value slot = before.value slot := by
  refine Vector.ext fun i inside => ?_
  have bound := binding.value_end_le slot
  rw [Buffer.value, Buffer.value, Bytes.getElem_read, Bytes.getElem_read]
  apply changes _ (by omega)
  apply Set.disjoint_left.1 apart
  exact Or.inr ⟨Nat.le_add_right _ _, Nat.add_lt_add_left inside _⟩

/-! ### The positions of each write -/

theorem set (buffer : Buffer binding) {position : Nat} (inside : position < length) (byte : UInt8) :
    buffer.ChangesOnly ⟨buffer.bytes.set position byte⟩ {position} := by
  intro i small outside
  have apart : position ≠ i := fun same => outside same.symm
  rw [Vector.getElem_set, if_neg apart]

theorem write (buffer : Buffer binding) {start count : Nat} (run : Vector UInt8 count)
    (within : start + count ≤ length) :
    buffer.ChangesOnly ⟨Bytes.write buffer.bytes start run within⟩
      (Span.mk start count).positions := by
  intro i small outside
  have apart : ¬(start ≤ i ∧ i < start + count) := outside
  rw [Bytes.getElem_write, dif_neg apart]

theorem setTag (buffer : Buffer binding) (group : binding.GroupIndex) (place : binding.Place)
    (tag : UInt8) :
    buffer.ChangesOnly (buffer.setTag group place tag) {binding.tagPosition group place} :=
  set buffer (binding.tag_lt group place) tag

theorem release (buffer : Buffer binding) (slot : binding.Slot) :
    buffer.ChangesOnly (buffer.release slot) {binding.slotPosition slot} :=
  setTag buffer _ _ _

theorem setValue (buffer : Buffer binding) (slot : binding.Slot) (value : shape.Value) :
    buffer.ChangesOnly (buffer.setValue slot value) (binding.valueSpan slot).positions :=
  write buffer value (binding.value_end_le slot)

theorem markAll (buffer : Buffer binding) (hash : UInt64) (groups : List binding.GroupIndex) :
    buffer.ChangesOnly (buffer.markAll hash groups) (binding.marks groups) := by
  induction groups generalizing buffer with
  | nil => exact refl _ _
  | cons first rest ih =>
    have marked : buffer.ChangesOnly (buffer.markOverflow first hash)
        {binding.overflowPosition first} := set buffer (binding.overflow_lt first) _
    apply (marked.append (ih (buffer.markOverflow first hash))).mono
    rintro i (here | ⟨group, member, there⟩)
    · exact ⟨first, List.mem_cons_self, here.symm⟩
    · exact ⟨group, List.mem_cons_of_mem _ member, there⟩

theorem occupy (buffer : Buffer binding) (slot : binding.Slot) (hash : UInt64) (key : shape.Key)
    (value : shape.Value) :
    buffer.ChangesOnly (buffer.occupy slot hash key value)
      ({binding.slotPosition slot} ∪ binding.elementSpan slot) := by
  have tagged := setTag buffer (binding.groupOf slot) (binding.placeOf slot) (Tag.ofHash hash)
  have keyed := write (buffer.setTag (binding.groupOf slot) (binding.placeOf slot)
    (Tag.ofHash hash)) key (binding.key_end_le slot)
  exact tagged.append (keyed.append (setValue _ slot value))

theorem reset (buffer : Buffer binding) : buffer.ChangesOnly buffer.reset binding.groupRegion := by
  have blank : buffer.ChangesOnly buffer.blank binding.groupRegion := by
    intro i small outside
    have behind : ¬i < binding.groupsLength := fun inside => outside ⟨Nat.zero_le i, inside⟩
    rw [Buffer.blank, Bytes.getElem_clear, if_neg behind]
  have last : binding.sentinelPosition ∈ binding.groupRegion :=
    ⟨Nat.zero_le _, Binding.tagPosition_lt _ _⟩
  apply blank.trans
  exact (setTag buffer.blank _ _ _).mono (Set.singleton_subset_iff.2 last)

end ChangesOnly

/-! ### Runs of writes -/

variable {before after : Buffer binding}

theorem Write.changesOnly (write : Write before after) :
    before.ChangesOnly after binding.Live := by
  have element (slot : binding.Slot) : binding.elementSpan slot ⊆ binding.Live := by
    intro i member
    exact Or.inr (Set.mem_iUnion.2 ⟨slot, member⟩)
  have tag (slot : binding.Slot) : {binding.slotPosition slot} ⊆ binding.Live := by
    apply Set.singleton_subset_iff.2
    exact Or.inl (Binding.slotPosition_mem slot)
  cases write with
  | setValue slot value =>
    exact (ChangesOnly.setValue before slot value).mono
      (Set.subset_union_right.trans (element slot))
  | release slot => exact (ChangesOnly.release before slot).mono (tag slot)
  | markAll hash groups =>
    exact (ChangesOnly.markAll before hash groups).mono
      ((Binding.marks_subset groups).trans Set.subset_union_left)
  | occupy slot hash key value =>
    exact (ChangesOnly.occupy before slot hash key value).mono
      (Set.union_subset (tag slot) (element slot))
  | reset => exact (ChangesOnly.reset before).mono Set.subset_union_left

theorem Writes.changesOnly (writes : Writes before after) :
    before.ChangesOnly after binding.Live := by
  induction writes with
  | refl => exact ChangesOnly.refl _ _
  | tail _ write ih => exact ih.trans write.changesOnly

theorem Write.sentinel (write : Write before after)
    (kept : before.tag binding.lastGroup binding.lastPlace = Tag.sentinel) :
    after.tag binding.lastGroup binding.lastPlace = Tag.sentinel := by
  cases write with
  | setValue slot value => rw [tag_setValue, kept]
  | release slot => rw [Buffer.release, tag_setTag, if_neg (Binding.home_ne_last slot), kept]
  | markAll hash groups => rw [tag_markAll, kept]
  | occupy slot hash key value => rw [tag_occupy, if_neg (Binding.home_ne_last slot), kept]
  | reset => rw [tag_reset, if_pos ⟨rfl, rfl⟩]

theorem Writes.sentinel (writes : Writes before after)
    (kept : before.tag binding.lastGroup binding.lastPlace = Tag.sentinel) :
    after.tag binding.lastGroup binding.lastPlace = Tag.sentinel := by
  induction writes with
  | refl => exact kept
  | tail _ write ih => exact write.sentinel ih

end Buffer

namespace Mounted

def byte? (mounted : Mounted shape) (i : Nat) : Option UInt8 := mounted.table.buffer.bytes[i]?

theorem byte?_sentinel (table : Table binding) :
    byte? ⟨binding, table⟩ binding.sentinelPosition =
      some (table.buffer.tag binding.lastGroup binding.lastPlace) :=
  Vector.getElem?_eq_getElem (binding.tag_lt _ _)

/-- The padding of the table and its sentinel are what they were, although the table may lie
somewhere else. -/
structure Spares (before after : Mounted shape) : Prop where
  padding : ∀ i, before.binding.Padding i →
    after.binding.Padding i ∧ after.byte? i = before.byte? i
  position : after.binding.sentinelPosition = before.binding.sentinelPosition
  sentinel : before.byte? before.binding.sentinelPosition = some Tag.sentinel →
    after.byte? after.binding.sentinelPosition = some Tag.sentinel

namespace Spares

theorem refl (mounted : Mounted shape) : mounted.Spares mounted :=
  ⟨fun _ padding => ⟨padding, rfl⟩, rfl, id⟩

theorem trans {before between after : Mounted shape} (first : before.Spares between)
    (second : between.Spares after) : before.Spares after where
  padding i inBefore := by
    obtain ⟨inBetween, same⟩ := first.padding i inBefore
    obtain ⟨inAfter, same'⟩ := second.padding i inBetween
    exact ⟨inAfter, same'.trans same⟩
  position := second.position.trans first.position
  sentinel kept := second.sentinel (first.sentinel kept)

theorem of_writes {before after : Table binding} (writes : before.buffer.Writes after.buffer) :
    Spares ⟨binding, before⟩ ⟨binding, after⟩ where
  padding _ inPadding :=
    ⟨inPadding, writes.changesOnly.getElem? (Binding.not_live_of_padding inPadding)⟩
  position := rfl
  sentinel kept := by
    dsimp only at kept ⊢
    rw [byte?_sentinel] at kept ⊢
    exact congrArg some (writes.sentinel (Option.some.inj kept))

end Spares

theorem byte?_moved (mounted : Mounted shape) {address : Nat} {rest : Array UInt8} {maxLoad : Nat}
    (aligned : address % shape.entry.align = 0) {i : Nat} (inside : i < mounted.binding.size) :
    (mounted.moved address rest maxLoad aligned).byte? i = mounted.byte? i := by
  have small : i < mounted.table.buffer.used.size := by rwa [Buffer.size_used]
  have bound := mounted.binding.size_le
  change (mounted.table.buffer.used ++ rest).toVector[i]? = mounted.table.buffer.bytes[i]?
  rw [← Vector.getElem?_toArray, ← Vector.getElem?_toArray]
  change (mounted.table.buffer.used ++ rest)[i]? = mounted.table.buffer.bytes.toArray[i]?
  rw [Array.getElem?_append_left small, Buffer.used, Array.getElem?_extract, Nat.zero_add,
    Vector.size_toArray]
  exact if_pos (by omega)

theorem moved_spares (mounted : Mounted shape) {address : Nat} {rest : Array UInt8} {maxLoad : Nat}
    (aligned : address % shape.entry.align = 0) :
    mounted.Spares (mounted.moved address rest maxLoad aligned) where
  padding i inPadding := by
    refine ⟨?_, mounted.byte?_moved aligned inPadding.lt_size⟩
    cases inPadding with
    | between behind before => exact .between behind before
    | inside slot entry key value => exact .inside slot entry key value
  position := rfl
  sentinel kept := by
    have inside : mounted.binding.sentinelPosition < mounted.binding.size := by
      have metadata := Binding.tagPosition_lt mounted.binding.lastGroup mounted.binding.lastPlace
      have padded := mounted.binding.groupsLength_le_entriesOffset
      have whole := mounted.binding.size_eq
      unfold Binding.sentinelPosition
      omega
    exact (mounted.byte?_moved aligned inside).trans kept

theorem step_spares (mounted : Mounted shape) (step : Step shape σ) (state : σ) :
    mounted.Spares (mounted.step step state).mounted := by
  rcases step.inPlace_or_reopen with inPlace | ⟨address, rest, maxLoad, rfl⟩
  · obtain ⟨after, left, writes⟩ := mounted.step_writes inPlace state
    rw [left]
    exact .of_writes writes
  · simp only [Mounted.step, act]
    cases reopened : mounted.reopen address rest maxLoad with
    | error cause => exact .refl mounted
    | ok after =>
      obtain ⟨aligned, -, rfl⟩ := reopen_eq_ok reopened
      exact mounted.moved_spares aligned

theorem follow_spares (mounted : Mounted shape) (steps : List (Step shape σ)) (state : σ) :
    mounted.Spares (mounted.follow steps state).1 := by
  induction steps generalizing mounted state with
  | nil => exact .refl mounted
  | cons step rest ih => exact (mounted.step_spares step state).trans (ih _ _)

theorem follow_writes (mounted : Mounted shape) {steps : List (Step shape σ)}
    (inPlace : ∀ step ∈ steps, step.InPlace) (state : σ) :
    ∃ after : Table mounted.binding, (mounted.follow steps state).1 = ⟨mounted.binding, after⟩ ∧
      mounted.table.buffer.Writes after.buffer := by
  induction steps generalizing mounted state with
  | nil => exact ⟨mounted.table, rfl, .refl⟩
  | cons step rest ih =>
    obtain ⟨first, others⟩ := List.forall_mem_cons.1 inPlace
    obtain ⟨between, left, writes⟩ := mounted.step_writes first state
    obtain ⟨after, last, further⟩ := ih ⟨mounted.binding, between⟩ others
      (mounted.step step state).state
    refine ⟨after, ?_, writes.trans further⟩
    rw [← last, ← left]
    rfl

end Mounted

end PackedTable
