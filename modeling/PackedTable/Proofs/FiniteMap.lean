import PackedTable.Proofs.Contents
import PackedTable.Proofs.Ideal
import PackedTable.Proofs.Reachability

/-!
A table answers as a finite map does. The relation between the two is that the slots of the table
hold the elements of the map; every edit changes both sides alike, so that every request gets the
same reply on both, and with it every session.
-/

namespace PackedTable

variable {shape : Shape} {length : Nat} {binding : Binding shape length} {σ : Type}

namespace Contents

theorem lookup_insert_eq (contents : Contents shape) (key other : shape.Key) (value : shape.Value) :
    (contents.insert key value).lookup other =
      if other = key then some value else contents.lookup other := by
  by_cases same : other = key
  · subst same
    rw [if_pos rfl, Finmap.lookup_insert]
  · rw [if_neg same, Finmap.lookup_insert_of_ne _ same]

theorem lookup_erase_eq (contents : Contents shape) (key other : shape.Key) :
    (contents.erase key).lookup other = if other = key then none else contents.lookup other := by
  by_cases same : other = key
  · subst same
    rw [if_pos rfl, Finmap.lookup_erase]
  · rw [if_neg same, Finmap.lookup_erase_ne same]

theorem visit_of_keeps {judge : σ → shape.Key → shape.Value → Bool × shape.Value × σ} {state : σ}
    {key : shape.Key} {value : shape.Value} (contents : Contents shape)
    (keeps : (judge state key value).1 = true) :
    visit judge (contents, state) (key, value) =
      (contents.insert key (judge state key value).2.1, (judge state key value).2.2) := by
  simp only [visit, keeps, ↓reduceIte]

theorem visit_of_drops {judge : σ → shape.Key → shape.Value → Bool × shape.Value × σ} {state : σ}
    {key : shape.Key} {value : shape.Value} (contents : Contents shape)
    (drops : ¬(judge state key value).1 = true) :
    visit judge (contents, state) (key, value) =
      (contents.erase key, (judge state key value).2.2) := by
  simp only [visit, drops, Bool.false_eq_true, ↓reduceIte]

theorem foldl_revise (change : shape.Key → shape.Value → shape.Value)
    (order : List (shape.Key × shape.Value)) (contents : Contents shape) :
    order.foldl (fun contents (key, value) => contents.insert key (change key value)) contents =
      (order.foldl (visit fun _ key value => (true, change key value, ())) (contents, ())).1 := by
  induction order generalizing contents with
  | nil => rfl
  | cons element rest ih => exact ih _

end Contents

theorem Ideal.without_withValue (ideal : Ideal shape) (key : shape.Key) (value : shape.Value) :
    (ideal.withValue key value).without key = ideal.without key := by
  have same : (ideal.contents.insert key value).erase key = ideal.contents.erase key := by
    apply Finmap.ext_lookup
    intro other
    rw [Contents.lookup_erase_eq, Contents.lookup_insert_eq, Contents.lookup_erase_eq]
    split <;> rfl
  simp only [without, withValue, same]

namespace Table

/-- The slots hold the elements of a finite map. -/
structure Represents (table : Table binding) (ideal : Ideal shape) : Prop where
  sound : table.Sound
  holds : ∀ key value, ideal.contents.lookup key = some value ↔ table.Holds key value
  limit : table.maxLoad = ideal.limit

namespace Represents

variable {table : Table binding} {ideal : Ideal shape}

theorem lookup_of_held (represents : table.Represents ideal) {key : shape.Key}
    {slot : binding.Slot} (held : table.buffer.isOccupied slot = true)
    (same : table.buffer.key slot = key) :
    ideal.contents.lookup key = some (table.buffer.value slot) :=
  (represents.holds _ _).2 ⟨slot, held, same, rfl⟩

theorem lookup_of_absent (represents : table.Represents ideal) {key : shape.Key}
    (absent : ¬table.Has key) : ideal.contents.lookup key = none := by
  cases found : ideal.contents.lookup key with
  | none => rfl
  | some value =>
    exact absurd (has_iff_exists_holds.2 ⟨value, (represents.holds _ _).1 found⟩) absent

theorem size_eq (represents : table.Represents ideal) : ideal.size = table.size := by
  have keys : ideal.contents.keys = table.heldKeys := by
    ext key
    rw [Finmap.mem_keys, Finmap.mem_iff, mem_heldKeys, has_iff_exists_holds]
    simp only [represents.holds]
  rw [Ideal.size, keys, represents.sound.card_heldKeys]

/-! ### Edits -/

theorem setValue (represents : table.Represents ideal) {key : shape.Key} {slot : binding.Slot}
    (held : table.buffer.isOccupied slot = true) (same : table.buffer.key slot = key)
    (value : shape.Value) : (table.setValue slot value).Represents (ideal.withValue key value) where
  sound := represents.sound.setValue slot value
  holds other found := by
    rw [represents.sound.holds_setValue held same, Ideal.withValue, Contents.lookup_insert_eq]
    split
    · exact Option.some_inj
    · exact represents.holds other found
  limit := represents.limit

theorem place (represents : table.Represents ideal) {key : shape.Key} {slot : binding.Slot}
    (lands : table.landing? (table.hash key) = some slot) (absent : ¬table.Has key)
    (room : table.size < table.maxLoad) (value : shape.Value) :
    (table.place slot (table.hash key) key value).Represents (ideal.withValue key value) where
  sound := represents.sound.place lands absent room value
  holds other found := by
    rw [represents.sound.holds_place lands absent room, Ideal.withValue,
      Contents.lookup_insert_eq]
    split
    · exact Option.some_inj
    · exact represents.holds other found
  limit := represents.limit

theorem removeSlot (represents : table.Represents ideal) {key : shape.Key} {slot : binding.Slot}
    (held : table.buffer.isOccupied slot = true) (same : table.buffer.key slot = key) :
    (table.removeSlot slot).2.Represents (ideal.without key) where
  sound := represents.sound.removeSlot held
  holds other found := by
    rw [represents.sound.holds_removeSlot held same, Ideal.without, Contents.lookup_erase_eq]
    by_cases chosen : other = key
    · simp [chosen]
    · rw [if_neg chosen, and_iff_right chosen]
      exact represents.holds other found
  limit := represents.limit

theorem without_absent (represents : table.Represents ideal) {key : shape.Key}
    (absent : ¬table.Has key) : table.Represents (ideal.without key) where
  sound := represents.sound
  holds other found := by
    rw [Ideal.without, Contents.lookup_erase_eq]
    by_cases chosen : other = key
    · subst chosen
      rw [if_pos rfl, ← represents.holds, represents.lookup_of_absent absent]
    · rw [if_neg chosen]
      exact represents.holds other found
  limit := represents.limit

theorem clear (represents : table.Represents ideal) :
    table.clear.Represents { ideal with contents := ∅ } where
  sound := represents.sound.clear
  holds key value := by
    rw [Finmap.lookup_empty]
    exact iff_of_false nofun (Sound.not_holds_clear table key value)
  limit := represents.limit

/-! ### Passes over all elements -/

theorem enumerates_entries (represents : table.Represents ideal) :
    ideal.contents.Enumerates table.entries := by
  have sound := represents.sound
  constructor
  · rw [entries, List.map_map]
    refine List.Nodup.map_on ?_ sound.elementSlots_nodup
    intro slot member slot' member' same
    exact sound.distinct slot slot' (sound.mem_elementSlots.1 member)
      (sound.mem_elementSlots.1 member') same
  · intro key value
    rw [represents.holds]
    exact sound.mem_entries

theorem visit {swept : Table binding × σ} (represents : swept.1.Represents ideal)
    {slot : binding.Slot} (held : swept.1.buffer.isOccupied slot = true)
    (judge : σ → shape.Key → shape.Value → Bool × shape.Value × σ) :
    let after := Contents.visit judge (ideal.contents, swept.2) (swept.1.buffer.entry slot)
    (Table.visit judge swept slot).1.Represents { ideal with contents := after.1 } ∧
      (Table.visit judge swept slot).2 = after.2 := by
  refine ⟨?_, rfl⟩
  have shown := represents.setValue held rfl
    (judge swept.2 (swept.1.buffer.key slot) (swept.1.buffer.value slot)).2.1
  by_cases keeps :
      (judge swept.2 (swept.1.buffer.key slot) (swept.1.buffer.value slot)).1 = true
  · rw [Buffer.entry, Contents.visit_of_keeps _ keeps, Table.visit_of_keeps keeps]
    exact shown
  · have left := shown.removeSlot ((Buffer.isOccupied_setValue _ _ _ _).trans held)
      (Buffer.key_setValue _ _ _ _)
    rw [Ideal.without_withValue] at left
    rw [Buffer.entry, Contents.visit_of_drops _ keeps, Table.visit_of_drops keeps]
    exact left

theorem map_entry_visit (judge : σ → shape.Key → shape.Value → Bool × shape.Value × σ)
    {swept : Table binding × σ} {slot : binding.Slot} {rest : List binding.Slot}
    (fresh : slot ∉ rest) :
    rest.map (Table.visit judge swept slot).1.buffer.entry = rest.map swept.1.buffer.entry := by
  apply List.map_congr_left
  intro other member
  have apart : other ≠ slot := fun same => fresh (same ▸ member)
  rw [Buffer.entry, Buffer.entry, key_visit, value_visit apart]

theorem foldl_visit (judge : σ → shape.Key → shape.Value → Bool × shape.Value × σ)
    {slots : List binding.Slot} (nodup : slots.Nodup) (swept : Table binding × σ)
    (represents : swept.1.Represents ideal)
    (held : ∀ slot ∈ slots, swept.1.buffer.isOccupied slot = true) :
    let after := (slots.map swept.1.buffer.entry).foldl (Contents.visit judge)
      (ideal.contents, swept.2)
    (slots.foldl (Table.visit judge) swept).1.Represents { ideal with contents := after.1 } ∧
      (slots.foldl (Table.visit judge) swept).2 = after.2 := by
  induction slots generalizing swept ideal with
  | nil => exact ⟨represents, rfl⟩
  | cons slot rest ih =>
    obtain ⟨fresh, nodup⟩ := List.nodup_cons.1 nodup
    obtain ⟨first, others⟩ := List.forall_mem_cons.1 held
    obtain ⟨step, state⟩ := represents.visit first judge
    have further := ih nodup (Table.visit judge swept slot) step (held_visit fresh others)
    rw [map_entry_visit judge fresh, state] at further
    exact further

theorem foldl_elements (represents : table.Represents ideal)
    (judge : σ → shape.Key → shape.Value → Bool × shape.Value × σ) (state : σ) :
    let after := table.entries.foldl (Contents.visit judge) (ideal.contents, state)
    let swept := table.elementSlots.foldl (Table.visit judge) (table, state)
    swept.1.Represents { ideal with contents := after.1 } ∧ swept.2 = after.2 :=
  foldl_visit judge represents.sound.elementSlots_nodup (table, state) represents
    fun _ => represents.sound.mem_elementSlots.1

/-! ### Requests -/

theorem extend (represents : table.Represents ideal) (pairs : List (shape.Key × shape.Value)) :
    (table.extend pairs).table.Represents (ideal.extend pairs).1 ∧
      (match (table.extend pairs).outcome with
        | .ok () => .done
        | .error fault => .refused (.fault fault)) = (ideal.extend pairs).2 := by
  induction pairs generalizing table ideal with
  | nil => exact ⟨represents, rfl⟩
  | cons pair rest ih =>
    obtain ⟨key, value⟩ := pair
    have sound := represents.sound
    rcases sound.key_cases key with
      ⟨slot, held, same⟩ | ⟨absent, room, slot, lands⟩ | ⟨absent, full⟩
    · simp only [sound.extend_present held same, Ideal.extend,
        represents.lookup_of_held held same]
      exact ih represents
    · have below : table.size < ideal.limit := represents.limit ▸ room
      simp only [sound.extend_absent absent room lands, Ideal.extend, represents.size_eq,
        represents.lookup_of_absent absent, if_pos below]
      exact ih (represents.place lands absent room value)
    · have above : ¬table.size < ideal.limit := represents.limit ▸ full
      simp only [sound.extend_full absent full, Ideal.extend, represents.size_eq,
        represents.lookup_of_absent absent, if_neg above, represents.limit]
      exact ⟨represents, trivial⟩

theorem getEntry?_eq (represents : table.Represents ideal) (key : shape.Key) :
    table.getEntry? key = (ideal.contents.lookup key).map fun value => (key, value) := by
  unfold getEntry?
  rcases represents.sound.find_cases key with ⟨slot, held, same, found⟩ | ⟨absent, missed⟩
  · rw [found, represents.lookup_of_held held same, Option.map_some, Option.map_some,
      Buffer.entry, same]
  · rw [missed, represents.lookup_of_absent absent, Option.map_none, Option.map_none]

theorem get?_eq (represents : table.Represents ideal) (key : shape.Key) :
    table.get? key = ideal.contents.lookup key := by
  rw [get?, represents.getEntry?_eq, Option.map_map]
  exact Option.map_id'

theorem contains_eq (represents : table.Represents ideal) (key : shape.Key) :
    table.contains key = (ideal.contents.lookup key).isSome := by
  rw [← represents.get?_eq, contains, get?, getEntry?, Option.isSome_map, Option.isSome_map]

theorem remove (represents : table.Represents ideal) (key : shape.Key) :
    (table.remove key).1 = (ideal.contents.lookup key).map (fun value => (key, value)) ∧
      (table.remove key).2.Represents (ideal.without key) := by
  rcases represents.sound.find_cases key with ⟨slot, held, same, -⟩ | ⟨absent, -⟩
  · rw [represents.sound.remove_present held same, represents.lookup_of_held held same]
    exact ⟨congrArg some (congrArg (·, _) same), represents.removeSlot held same⟩
  · rw [represents.sound.remove_absent absent, represents.lookup_of_absent absent]
    exact ⟨rfl, represents.without_absent absent⟩

theorem put (represents : table.Represents ideal) (order : List (shape.Key × shape.Value))
    (insertion : Insertion shape σ) (write : shape.Value → shape.Value) (state : σ) :
    let served := table.serve (.put insertion write) state
    let answer := ideal.serve order (.put insertion write) state
    served.table.Represents answer.ideal ∧ served.state = answer.state ∧
      served.reply = answer.reply := by
  have sound := represents.sound
  rcases sound.key_cases insertion.key with
    ⟨slot, held, same⟩ | ⟨absent, room, slot, lands⟩ | ⟨absent, full⟩
  · simp only [sound.serve_put_present held same, Ideal.serve,
      represents.lookup_of_held held same]
    exact ⟨represents.setValue held same _, trivial, trivial⟩
  · have below : table.size < ideal.limit := represents.limit ▸ room
    simp only [sound.serve_put_absent absent room lands, Ideal.serve, represents.size_eq,
      represents.lookup_of_absent absent, if_pos below]
    exact ⟨represents.place lands absent room _, trivial, trivial⟩
  · have above : ¬table.size < ideal.limit := represents.limit ▸ full
    simp only [sound.serve_put_full absent full, Ideal.serve, represents.size_eq,
      represents.lookup_of_absent absent, if_neg above, represents.limit]
    exact ⟨represents, trivial, trivial⟩

theorem update (represents : table.Represents ideal) (order : List (shape.Key × shape.Value))
    (key : shape.Key) (write : shape.Value → shape.Value) (state : σ) :
    let served := table.serve (.update key write) state
    let answer := ideal.serve order (.update key write) state
    served.table.Represents answer.ideal ∧ served.state = answer.state ∧
      served.reply = answer.reply := by
  rcases represents.sound.find_cases key with ⟨slot, held, same, -⟩ | ⟨absent, -⟩
  · simp only [Table.serve, Ideal.serve, represents.sound.update_present held same,
      represents.lookup_of_held held same]
    exact ⟨represents.setValue held same _, trivial, trivial⟩
  · simp only [Table.serve, Ideal.serve, represents.sound.update_absent absent,
      represents.lookup_of_absent absent]
    exact ⟨represents, trivial, trivial⟩

/-- A request gets the same reply from a table and from the finite map that it represents, if the
map goes over its elements in the order of the table. -/
theorem serve (represents : table.Represents ideal) (request : Request shape σ) (state : σ) :
    let served := table.serve request state
    let answer := ideal.serve table.entries request state
    served.table.Represents answer.ideal ∧ served.state = answer.state ∧
      served.reply = answer.reply := by
  cases request with
  | put insertion write => exact represents.put table.entries insertion write state
  | update key write => exact represents.update table.entries key write state
  | get key => exact ⟨represents, rfl, congrArg Reply.value (represents.get?_eq key)⟩
  | getEntry key => exact ⟨represents, rfl, congrArg Reply.entry (represents.getEntry?_eq key)⟩
  | contains key => exact ⟨represents, rfl, congrArg Reply.present (represents.contains_eq key)⟩
  | require key =>
    have found := represents.get?_eq key
    refine ⟨represents, rfl, congrArg Reply.required ?_⟩
    cases stored : ideal.contents.lookup key with
    | none => rw [Table.get, found, stored]
    | some value => rw [Table.get, found, stored]
  | erase key =>
    obtain ⟨found, after⟩ := represents.remove key
    refine ⟨after, rfl, ?_⟩
    simp only [Table.serve, Ideal.serve, eraseCount, Table.erase, found, Option.isSome_map]
  | remove key =>
    obtain ⟨found, after⟩ := represents.remove key
    refine ⟨after, rfl, ?_⟩
    simp only [Table.serve, Ideal.serve, removeValue, found, Option.map_map]
    exact congrArg Reply.value (Option.map_id')
  | removeEntry key =>
    obtain ⟨found, after⟩ := represents.remove key
    exact ⟨after, rfl, congrArg Reply.entry found⟩
  | retain judge =>
    simp only [Table.serve, Ideal.serve, represents.sound.retain_eq]
    obtain ⟨after, last⟩ := represents.foldl_elements judge state
    exact ⟨after, last, trivial⟩
  | extend pairs =>
    obtain ⟨after, reply⟩ := represents.extend pairs
    exact ⟨after, rfl, reply⟩
  | revise change =>
    simp only [Table.serve, Ideal.serve, updateValues_eq, Contents.foldl_revise]
    exact ⟨(represents.foldl_elements _ ()).1, trivial, trivial⟩
  | clear => exact ⟨represents.clear, rfl, rfl⟩
  | size => exact ⟨represents, rfl, congrArg Reply.count represents.size_eq.symm⟩
  | list => exact ⟨represents, rfl, rfl⟩

end Represents

end Table

namespace Mounted

variable {mounted : Mounted shape} {ideal : Ideal shape}

theorem represents_moved (represents : mounted.table.Represents ideal) {address : Nat}
    {rest : Array UInt8} {maxLoad : Nat} (aligned : address % shape.entry.align = 0)
    (inOrder : mounted.table.size ≤ maxLoad ∧ maxLoad ≤ mounted.binding.capacity) :
    (mounted.moved address rest maxLoad aligned).table.Represents
      { ideal with limit := maxLoad } where
  sound := sound_moved represents.sound aligned inOrder
  holds key value := by
    rw [represents.holds]
    exact (alike_copyAt (mounted.extract_append_used rest) _ maxLoad).holds.symm
  limit := rfl

theorem represents_act (represents : mounted.table.Represents ideal)
    (action : KeyedAction shape σ) (state : σ) :
    let turn := mounted.act action.action state
    let answer := ideal.act mounted.binding.capacity mounted.table.entries action state
    turn.mounted.table.Represents answer.ideal ∧ turn.state = answer.state ∧
      turn.reply = answer.reply := by
  cases action with
  | ask request => exact represents.serve request state
  | reopen address rest maxLoad =>
    by_cases aligned : address % shape.entry.align = 0
    · by_cases inOrder : mounted.table.size ≤ maxLoad ∧ maxLoad ≤ mounted.binding.capacity
      · have turn : mounted.act (.reopen address rest maxLoad) state =
            ⟨mounted.moved address rest maxLoad aligned, state, .done⟩ := by
          simp only [act, reopen_eq, dif_pos aligned, if_pos inOrder]
        simp only [KeyedAction.action, Ideal.act, represents.size_eq, if_pos aligned,
          if_pos inOrder]
        rw [turn]
        exact ⟨represents_moved represents aligned inOrder, rfl, rfl⟩
      · have turn : mounted.act (.reopen address rest maxLoad) state =
            ⟨mounted, state, .refused (.error (.invalidSizeControl mounted.table.size maxLoad
              mounted.binding.capacity))⟩ := by
          simp only [act, reopen_eq, dif_pos aligned, if_neg inOrder]
        simp only [KeyedAction.action, Ideal.act, represents.size_eq, if_pos aligned,
          if_neg inOrder]
        rw [turn]
        exact ⟨represents, rfl, rfl⟩
    · have turn : mounted.act (.reopen address rest maxLoad) state =
          ⟨mounted, state, .refused (.error (.misalignedBuffer shape.entry.align))⟩ := by
        simp only [act, reopen_eq, dif_neg aligned]
      simp only [KeyedAction.action, Ideal.act, if_neg aligned]
      rw [turn]
      exact ⟨represents, rfl, rfl⟩

theorem represents_run (represents : mounted.table.Represents ideal)
    (actions : List (KeyedAction shape σ)) (state : σ) :
    let session := mounted.run (actions.map KeyedAction.action) state
    ∃ final : Ideal shape,
      Ideal.Runs mounted.binding.capacity ideal state actions final session.2.1 session.2.2 ∧
        session.1.table.Represents final := by
  induction actions generalizing mounted ideal state with
  | nil => exact ⟨ideal, .nil ideal state, represents⟩
  | cons action rest ih =>
    obtain ⟨after, last, reply⟩ := represents_act represents action state
    obtain ⟨final, runs, represented⟩ := ih after (mounted.act action.action state).state
    rw [capacity_act, last] at runs
    have whole := Ideal.Runs.cons mounted.table.entries represents.enumerates_entries runs
    rw [← reply, ← last] at whole
    exact ⟨final, whole, represented⟩

theorem represents_create {width : Width} {geometry : Geometry} {region : Region}
    {hash : shape.Key → UInt64} {factor : LoadFactor} {opened : Mounted shape}
    (created : create width geometry region hash factor = .ok opened) :
    opened.table.Represents ⟨∅, opened.table.maxLoad⟩ where
  sound := sound_create created
  holds key value := by
    obtain ⟨-, -, -, -, -, absent⟩ := create_eq_ok created
    rw [Finmap.lookup_empty]
    exact iff_of_false nofun fun held =>
      absent key (Table.has_iff_exists_holds.2 ⟨value, held⟩)
  limit := rfl

/-- From its creation on, through every session, a table answers as a finite map that starts empty
and takes as many keys as the load factor allows. It holds what the map holds in the end, and its
size is the number of keys. -/
theorem refines_finite_map {width : Width} {geometry : Geometry} {region : Region}
    {hash : shape.Key → UInt64} {factor : LoadFactor} {opened : Mounted shape}
    (created : create width geometry region hash factor = .ok opened)
    (actions : List (KeyedAction shape σ)) (state : σ) :
    let capacity := (geometry.mask + 1) * width.slots - 1
    let session := opened.run (actions.map KeyedAction.action) state
    ∃ final : Ideal shape,
      Ideal.Runs capacity ⟨∅, Load.threshold capacity factor⟩ state actions final session.2.1
        session.2.2 ∧
      (∀ key, session.1.table.get? key = final.contents.lookup key) ∧
      session.1.table.size = final.contents.keys.card := by
  have represents := represents_create created
  obtain ⟨rfl, rfl, -, -, limit, -⟩ := create_eq_ok created
  rw [limit] at represents
  obtain ⟨final, runs, represented⟩ := represents_run represents actions state
  exact ⟨final, runs, represented.get?_eq, represented.size_eq.symm⟩

/-- Two keys of one group and one tag go into the small table and one of them out again, before and
after a move. One key is left. -/
theorem small_refines :
    let actions : List (KeyedAction Shape.bytes Unit) :=
      [.ask (.put (.first (Shape.byteKey 1) (Shape.byteValue 10)) id),
        .ask (.put (.first (Shape.byteKey 9) (Shape.byteValue 20)) id),
        .reopen 128 #[7] 2, .ask (.remove (Shape.byteKey 1)), .ask .size]
    ∃ final : Ideal Shape.bytes,
      Ideal.Runs 3 ⟨∅, 3⟩ () actions final ()
        [.stored (Shape.byteValue 10) true, .stored (Shape.byteValue 20) true, .done,
          .value (some (Shape.byteValue 10)), .count 1] ∧
      final.contents.lookup (Shape.byteKey 9) = some (Shape.byteValue 20) ∧
      final.contents.keys.card = 1 := by
  intro actions
  have capacity : (Geometry.mask ⟨63, 1⟩ + 1) * Width.narrow.slots - 1 = 3 := by decide
  have limit : Load.threshold 3 .standard = 3 := by decide +kernel
  have replies : (small.run (actions.map KeyedAction.action) ()).2.2 =
      [.stored (Shape.byteValue 10) true, .stored (Shape.byteValue 20) true, .done,
        .value (some (Shape.byteValue 10)), .count 1] := by decide +kernel
  obtain ⟨final, runs, lookups, size⟩ := refines_finite_map create_small actions ()
  rw [replies, capacity, limit] at runs
  refine ⟨final, ?_, ?_, ?_⟩
  · exact runs
  · rw [← lookups]
    decide +kernel
  · rw [← size]
    decide +kernel

end Mounted

end PackedTable
