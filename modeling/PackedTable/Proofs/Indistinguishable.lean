import PackedTable.Proofs.Footprint
import PackedTable.Proofs.Lockstep

/-!
Bytes that a table has not written are of no account to it. Two tables that start over, each in a
region with bytes of its own, have the same metadata and no elements, and what they then read of
their entries they have written themselves. So no session tells one from the other: the replies are
the same, and after each step so are the metadata and everything else that can be asked of them.
-/

namespace PackedTable

variable {shape : Shape} {length length' : Nat} {binding : Binding shape length}
  {site : binding.Site length'} {σ : Type}

def Stored.answer (stored : Stored binding) : Nat × shape.Value × Bool :=
  (stored.slot.val, stored.value, stored.isNew)

theorem Stored.map_answer (outcome : Except Fault (Stored binding)) :
    outcome.map answer = (outcome.map content).map fun (slot, seen) => (slot.val, seen) := by
  cases outcome <;> rfl

namespace Buffer

theorem size_metadata (buffer : Buffer binding) : buffer.metadata.size = binding.groupsLength := by
  have bound := binding.groupsLength_le
  rw [metadata, Array.size_extract, Vector.size_toArray]
  omega

namespace Alike

variable {left : Buffer binding} {right : Buffer site.binding}

theorem metadata (alike : left.Alike right) : right.metadata = left.metadata := by
  have sizes : right.metadata.size = left.metadata.size :=
    right.size_metadata.trans left.size_metadata.symm
  apply Array.ext sizes
  intro i inside' inside
  have before : i < binding.groupsLength := left.size_metadata ▸ inside
  simp only [Buffer.metadata, Array.getElem_extract, Nat.zero_add, Vector.getElem_toArray]
  rcases Binding.tag_or_overflow before with ⟨group, place, rfl⟩ | ⟨group, rfl⟩
  · exact alike.tag group place
  · exact alike.overflow group

theorem overflowedGroups (alike : left.Alike right) :
    right.overflowedGroups = left.overflowedGroups := by
  unfold Buffer.overflowedGroups
  apply congrArg fun test => List.countP test binding.allGroups
  funext group
  exact congrArg (· != 0) (alike.overflow group)

theorem take (alike : left.Alike right) (count : Nat) (ahead : List binding.Slot)
    (remaining : Nat) :
    ((Cursor.mk ahead remaining : Cursor site.binding).take right count).1.map
        (Option.map Fin.val) =
      ((Cursor.mk ahead remaining : Cursor binding).take left count).1.map
        (Option.map Fin.val) := by
  have free : (fun slot : binding.Slot => !right.isOccupied slot) =
      fun slot => !left.isOccupied slot := by
    funext slot
    exact congrArg not (alike.isOccupied slot)
  induction count generalizing ahead remaining with
  | zero => rfl
  | succ count ih =>
    unfold Cursor.take Cursor.next
    by_cases spent : remaining = 0
    · simp only [spent, ↓reduceIte, List.map_cons]
      exact congrArg _ (ih ahead 0)
    · simp only [spent, ↓reduceIte, free]
      cases List.dropWhile (fun slot => !left.isOccupied slot) ahead with
      | nil => exact congrArg (none :: ·) (ih [] remaining)
      | cons slot later => exact congrArg (some slot.val :: ·) (ih later (remaining - 1))

theorem across {first second : Nat} {leftSite : binding.Site first}
    {rightSite : site.binding.Site second} {leftMoved : Buffer leftSite.binding}
    {rightMoved : Buffer rightSite.binding} (alike : left.Alike right)
    (toLeft : left.Alike leftMoved) (toRight : right.Alike rightMoved) :
    @Alike _ _ _ leftSite.binding ⟨rightSite.address, rightSite.fits, rightSite.aligned⟩
      leftMoved rightMoved where
  tag group place :=
    (toRight.tag group place).trans ((alike.tag group place).trans (toLeft.tag group place).symm)
  overflow group :=
    (toRight.overflow group).trans ((alike.overflow group).trans (toLeft.overflow group).symm)
  key slot held := by
    have kept := (toLeft.isOccupied slot).symm.trans held
    have kept' := (alike.isOccupied slot).trans kept
    exact (toRight.key slot kept').trans ((alike.key slot kept).trans (toLeft.key slot kept).symm)
  value slot held := by
    have kept := (toLeft.isOccupied slot).symm.trans held
    have kept' := (alike.isOccupied slot).trans kept
    exact (toRight.value slot kept').trans
      ((alike.value slot kept).trans (toLeft.value slot kept).symm)

end Alike

end Buffer

namespace Mounted

def Alike (left right : Mounted shape) : Prop :=
  ∃ (length : Nat) (site : left.binding.Site length) (table : Table site.binding),
    right = ⟨site.binding, table⟩ ∧ left.table.Alike table

/-- All that can be asked of a table in one step, and its metadata. -/
structure Indistinguishable (left right : Mounted shape) : Prop where
  metadata : right.table.buffer.metadata = left.table.buffer.metadata
  stats : right.table.stats = left.table.stats
  entries : right.table.entries = left.table.entries
  /-- Walks come to the same slots, whether they are cut short or not. -/
  slots : right.table.elementSlots.map Fin.val = left.table.elementSlots.map Fin.val
  walk : ∀ count,
    (right.table.cursor.take right.table.buffer count).1.map (Option.map Fin.val) =
      (left.table.cursor.take left.table.buffer count).1.map (Option.map Fin.val)
  findWithHash : ∀ hash test, (right.table.findWithHash hash test).map Fin.val =
    (left.table.findWithHash hash test).map Fin.val
  find : ∀ key, (right.table.find key).map Fin.val = (left.table.find key).map Fin.val
  getEntry : ∀ key, right.table.getEntry? key = left.table.getEntry? key
  insert : ∀ {σ : Type} (insertion : Insertion shape σ) (state : σ),
    (insertion.attempt right.table state).1.outcome.map Stored.answer =
      (insertion.attempt left.table state).1.outcome.map Stored.answer
  remove : ∀ key, (right.table.remove key).1 = (left.table.remove key).1
  /-- A visitor may note down what it is shown, so it is shown the same elements in the same
  order. -/
  retain : ∀ {σ : Type} (visit : Visitor shape σ) (state : σ),
    (right.table.retain visit state).state = (left.table.retain visit state).state ∧
      (right.table.retain visit state).finished = (left.table.retain visit state).finished

/-- No session tells the tables apart: it has the same replies, and it leaves its caller in the same
state and the tables indistinguishable. Since a session may end anywhere, this is so after every
step. -/
def Twins (left right : Mounted shape) : Prop :=
  ∀ (σ : Type) (steps : List (Step shape σ)) (state : σ),
    (right.follow steps state).2 = (left.follow steps state).2 ∧
      (left.follow steps state).1.Indistinguishable (right.follow steps state).1

namespace Alike

theorem of_table {left : Table binding} {right : Table site.binding} (alike : left.Alike right) :
    Alike ⟨binding, left⟩ ⟨site.binding, right⟩ :=
  ⟨length', site, right, rfl, alike⟩

theorem indistinguishable {left right : Mounted shape} (alike : left.Alike right) :
    left.Indistinguishable right := by
  obtain ⟨length', site, table, rfl, same⟩ := alike
  have lockstep : Buffer.Lockstep fun (left : Buffer left.binding) (right : Buffer site.binding) =>
    left.Alike right := Buffer.Alike.lockstep
  refine
    { metadata := same.buffer.metadata
      stats := ?_
      entries := same.entries
      slots := congrArg (List.map Fin.val) same.elementSlots
      walk := ?_
      findWithHash := fun hash test => congrArg (Option.map Fin.val) (same.findWithHash hash test)
      find := fun key => congrArg (Option.map Fin.val) (same.find key)
      getEntry := same.getEntry
      insert := ?_
      remove := fun key => (lockstep.remove same key).1
      retain := fun visit state => (lockstep.retain same visit state).2 }
  · unfold Table.stats
    rw [same.size, same.maxLoad, same.buffer.overflowedGroups]
  · intro count
    unfold Table.cursor
    rw [same.size]
    exact same.buffer.take count left.binding.allSlots left.table.size
  · intro σ insertion state
    have outcome := (lockstep.attempt same insertion state).1.outcome
    rw [Stored.map_answer, outcome, Stored.map_answer]

theorem moved {left right : Mounted shape} (alike : left.Alike right) (address : Nat)
    (rest : Array UInt8) (maxLoad : Nat) (aligned : address % shape.entry.align = 0) :
    (left.moved address rest maxLoad aligned).Alike (right.moved address rest maxLoad aligned) := by
  obtain ⟨length', site, table, rfl, same⟩ := alike
  have copied := extract_append_used left rest
  have copied' := extract_append_used ⟨site.binding, table⟩ rest
  have first := alike_copyAt copied (left.siteOf ⟨address, _⟩ copied aligned) maxLoad
  have second := alike_copyAt copied' (siteOf _ ⟨address, _⟩ copied' aligned) maxLoad
  exact ⟨_, _, _, rfl, same.buffer.across first.buffer second.buffer, same.hash, same.size, rfl⟩

theorem reopen {left right : Mounted shape} (alike : left.Alike right) (address : Nat)
    (rest : Array UInt8) (maxLoad : Nat) :
    (∃ cause, left.reopen address rest maxLoad = .error cause ∧
      right.reopen address rest maxLoad = .error cause) ∨
    (∃ after after', left.reopen address rest maxLoad = .ok after ∧
      right.reopen address rest maxLoad = .ok after' ∧ after.Alike after') := by
  have after := alike.moved address rest maxLoad
  obtain ⟨length', site, table, rfl, same⟩ := alike
  have size := same.size
  rw [reopen_eq, reopen_eq]
  by_cases aligned : address % shape.entry.align = 0
  · rw [dif_pos aligned, dif_pos aligned, size]
    by_cases inOrder : left.table.size ≤ maxLoad ∧ maxLoad ≤ left.binding.capacity
    · rw [if_pos inOrder]
      exact Or.inr ⟨_, _, rfl, if_pos inOrder, after aligned⟩
    · rw [if_neg inOrder]
      exact Or.inl ⟨_, rfl, if_neg inOrder⟩
  · rw [dif_neg aligned, dif_neg aligned]
    exact Or.inl ⟨_, rfl, rfl⟩

theorem step {left right : Mounted shape} (alike : left.Alike right) (step : Step shape σ)
    (state : σ) :
    (left.step step state).mounted.Alike (right.step step state).mounted ∧
      (right.step step state).state = (left.step step state).state ∧
      (right.step step state).reply = (left.step step state).reply := by
  rcases step.inPlace_or_reopen with inPlace | ⟨address, rest, maxLoad, rfl⟩
  · obtain ⟨length', site, table, rfl, same⟩ := alike
    obtain ⟨after, after', next, reply, stepped, stepped', like⟩ :=
      Buffer.Alike.lockstep.step same inPlace state
    change left.step step state = _ at stepped
    rw [stepped, stepped']
    exact ⟨of_table like, rfl, rfl⟩
  · simp only [Mounted.step, act]
    rcases alike.reopen address rest maxLoad with
      ⟨cause, refused, refused'⟩ | ⟨after, after', opened, opened', still⟩
    · rw [refused, refused']
      exact ⟨alike, rfl, rfl⟩
    · rw [opened, opened']
      exact ⟨still, rfl, rfl⟩

theorem follow {left right : Mounted shape} (alike : left.Alike right)
    (steps : List (Step shape σ)) (state : σ) :
    (left.follow steps state).1.Alike (right.follow steps state).1 ∧
      (right.follow steps state).2 = (left.follow steps state).2 := by
  induction steps generalizing left right state with
  | nil => exact ⟨alike, rfl⟩
  | cons step rest ih =>
    obtain ⟨after, next, reply⟩ := alike.step step state
    obtain ⟨last, replies⟩ := ih after (left.step step state).state
    simp only [Mounted.follow, next, reply]
    refine ⟨last, ?_⟩
    exact congrArg (fun rest => (rest.1, (left.step step state).reply :: rest.2)) replies

theorem twins {left right : Mounted shape} (alike : left.Alike right) : left.Twins right := by
  intro σ steps state
  obtain ⟨last, replies⟩ := alike.follow steps state
  exact ⟨replies, last.indistinguishable⟩

/-- Tables that start over are alike, whatever either of them went through. -/
theorem clear (left right : Mounted shape) (width : right.binding.width = left.binding.width)
    (geometry : right.binding.geometry = left.binding.geometry)
    (hash : right.table.hash = left.table.hash)
    (maxLoad : right.table.maxLoad = left.table.maxLoad) :
    Alike ⟨left.binding, left.table.clear⟩ ⟨right.binding, right.table.clear⟩ := by
  obtain ⟨length', site, table, rfl⟩ := exists_site width geometry
  exact of_table ⟨.reset _ _, hash, rfl, maxLoad⟩

end Alike

theorem exists_clear_of_create {width : Width} {geometry : Geometry} {region : Region}
    {hash : shape.Key → UInt64} {factor : LoadFactor} {opened : Mounted shape}
    (created : create width geometry region hash factor = .ok opened) :
    ∃ stale : Table opened.binding, opened = ⟨opened.binding, stale.clear⟩ := by
  obtain ⟨binding, -, rfl⟩ := exists_of_create created
  exact ⟨⟨⟨region.bytes.toVector⟩, hash, 0, Load.threshold binding.capacity factor⟩, rfl⟩

theorem alike_clear_of_create {width : Width} {geometry : Geometry} {region : Region}
    {hash : shape.Key → UInt64} {factor : LoadFactor} {fresh : Mounted shape}
    (created : create width geometry region hash factor = .ok fresh) (used : Mounted shape)
    (sameWidth : used.binding.width = width) (sameGeometry : used.binding.geometry = geometry)
    (sameHash : used.table.hash = hash) (sameMaxLoad : used.table.maxLoad = fresh.table.maxLoad) :
    fresh.Alike ⟨used.binding, used.table.clear⟩ := by
  obtain ⟨freshWidth, freshGeometry, freshHash, -⟩ := create_eq_ok created
  obtain ⟨stale, started⟩ := exists_clear_of_create created
  rw [started] at freshHash sameMaxLoad ⊢
  apply Alike.clear ⟨fresh.binding, stale⟩ used
  · exact sameWidth.trans freshWidth.symm
  · exact sameGeometry.trans freshGeometry.symm
  · exact sameHash.trans freshHash.symm
  · exact sameMaxLoad

/-- What a region held before a table was created in it does not matter, and neither does what a
table went through before it was cleared. -/
theorem stale_bytes_unseen {width : Width} {geometry : Geometry} {region : Region}
    {hash : shape.Key → UInt64} {factor : LoadFactor} {fresh : Mounted shape}
    (created : create width geometry region hash factor = .ok fresh) :
    (∀ (region' : Region) (other : Mounted shape),
      create width geometry region' hash factor = .ok other → fresh.Twins other) ∧
    ∀ used : Mounted shape, used.binding.width = width → used.binding.geometry = geometry →
      used.table.hash = hash → used.table.maxLoad = fresh.table.maxLoad →
      fresh.Twins ⟨used.binding, used.table.clear⟩ := by
  constructor
  · intro region' other created'
    obtain ⟨freshWidth, freshGeometry, -, -, freshMaxLoad, -⟩ := create_eq_ok created
    obtain ⟨width', geometry', hash', -, maxLoad', -⟩ := create_eq_ok created'
    have capacity : other.binding.capacity = fresh.binding.capacity := by
      simp only [Binding.capacity, Binding.slots, freshWidth, freshGeometry, width', geometry']
    have maxLoad : other.table.maxLoad = fresh.table.maxLoad := by
      rw [maxLoad', freshMaxLoad, capacity]
    obtain ⟨stale, started⟩ := exists_clear_of_create created'
    rw [started] at hash' maxLoad ⊢
    apply Alike.twins
    exact alike_clear_of_create created ⟨other.binding, stale⟩ width' geometry' hash' maxLoad
  · intro used sameWidth sameGeometry sameHash sameMaxLoad
    exact (alike_clear_of_create created used sameWidth sameGeometry sameHash sameMaxLoad).twins

end Mounted

/-! ### The small table over bytes that read as keys -/

def Region.noisy : Region := ⟨128, Array.replicate 20 1⟩

def Binding.noisy : Binding.small.Site Region.noisy.bytes.size where
  address := 128
  fits := by decide
  aligned := by decide

def Mounted.noisy : Mounted Shape.bytes :=
  ⟨Binding.noisy.binding,
    Table.create Binding.noisy.binding Region.noisy.bytes.toVector Shape.byteHash .standard⟩

theorem Mounted.create_noisy :
    create .narrow ⟨63, 1⟩ Region.noisy Shape.byteHash .standard = .ok noisy := rfl

/-- The key one is looked for where it seems to stand, comes second, and is taken out again. The
cleared table has held it before. -/
theorem Mounted.noisy_bytes_unseen :
    let key := Shape.byteKey
    let steps : List (Step Shape.bytes Unit) := [.act (.ask (.get (key 1))),
      .act (.insertByte 2 20), .act (.insertByte 1 10), .act (.find (key 1)), .act (.ask .list),
      .act (.ask (.remove (key 1))), .act (.find (key 1))]
    create .narrow ⟨63, 1⟩ Region.small Shape.byteHash .standard = .ok small ∧
    (small.byte? 7 = some 0xAA ∧ noisy.byte? 7 = some 1) ∧
    small.Twins noisy ∧ small.Twins ⟨filled.binding, filled.table.clear⟩ ∧
    (noisy.follow steps ()).2 = ((), [.value none, .stored #v[20] true, .stored #v[10] true,
      .slot (some 0), .entries [(#v[1], #v[10]), (#v[2], #v[20])], .value (some #v[10]),
      .slot none]) := by
  intro key steps
  obtain ⟨created, cleared⟩ := stale_bytes_unseen create_small
  have maxLoad : filled.table.maxLoad = small.table.maxLoad := by decide +kernel
  refine ⟨create_small, ⟨rfl, rfl⟩, created Region.noisy noisy create_noisy,
    cleared filled rfl rfl rfl maxLoad, ?_⟩
  decide +kernel

end PackedTable
