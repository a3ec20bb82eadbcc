import PackedTable.Proofs.Contents

/-!
Filling a table with keys that are new to it. As long as there is room each of them is taken, and
what the table holds afterwards are the pairs that were given, in addition to what it held before.
It does not matter in which order they come, and by which requests.
-/

namespace PackedTable

variable {shape : Shape} {length : Nat} {binding : Binding shape length}

namespace Table

variable {table last : Table binding}

/-- New pairs come into a table one after the other, each of them while there is room. -/
inductive Filled : Table binding → List (shape.Key × shape.Value) → Table binding → Prop
  | nil {table : Table binding} : Filled table [] table
  | cons {table last : Table binding} {key : shape.Key} {value : shape.Value}
      {rest : List (shape.Key × shape.Value)} {slot : binding.Slot} (absent : ¬table.Has key)
      (room : table.size < table.maxLoad) (lands : table.landing? (table.hash key) = some slot)
      (filled : Filled (table.place slot (table.hash key) key value) rest last) :
      Filled table ((key, value) :: rest) last

theorem Sound.exists_filled {pairs : List (shape.Key × shape.Value)} (sound : table.Sound)
    (distinct : (pairs.map Prod.fst).Nodup) (absent : ∀ pair ∈ pairs, ¬table.Has pair.1)
    (room : table.size + pairs.length ≤ table.maxLoad) : ∃ last, Filled table pairs last := by
  induction pairs generalizing table with
  | nil => exact ⟨table, .nil⟩
  | cons pair rest ih =>
    obtain ⟨key, value⟩ := pair
    rw [List.map_cons, List.nodup_cons] at distinct
    rw [List.length_cons] at room
    have new : ¬table.Has key := absent _ List.mem_cons_self
    have below : table.size < table.maxLoad := by omega
    obtain ⟨slot, lands⟩ := Option.isSome_iff_exists.1
      (sound.landing?_isSome below (table.hash key))
    have larger : (table.place slot (table.hash key) key value).size = table.size + 1 := rfl
    have limit : (table.place slot (table.hash key) key value).maxLoad = table.maxLoad := rfl
    have later : ∀ pair ∈ rest, ¬(table.place slot (table.hash key) key value).Has pair.1 := by
      intro pair member
      rw [sound.has_place lands new below value, not_or]
      constructor
      · intro equal
        exact distinct.1 (List.mem_map.2 ⟨pair, member, equal⟩)
      · exact absent pair (List.mem_cons_of_mem _ member)
    obtain ⟨last, filled⟩ := ih (sound.place lands new below value) distinct.2 later (by omega)
    exact ⟨last, .cons new below lands filled⟩

namespace Filled

variable {pairs more : List (shape.Key × shape.Value)}

theorem sound (filled : Filled table pairs last) (sound : table.Sound) : last.Sound := by
  induction filled with
  | nil => exact sound
  | cons absent room lands filled ih => exact ih (sound.place lands absent room _)

theorem holds_iff (filled : Filled table pairs last) (sound : table.Sound) (key : shape.Key)
    (value : shape.Value) :
    last.Holds key value ↔ (key, value) ∈ pairs ∨ table.Holds key value := by
  induction filled with
  | nil => simp
  | cons absent room lands filled ih =>
    rw [ih (sound.place lands absent room _), sound.holds_place lands absent room, List.mem_cons]
    split
    case isTrue chosen =>
      subst chosen
      -- the key was absent, so its new value is the only one
      have before : ¬Table.Holds _ key value := fun holds =>
        absent (has_iff_exists_holds.2 ⟨value, holds⟩)
      simp [before, or_comm, eq_comm]
    case isFalse apart => simp [apart]

theorem size_eq (filled : Filled table pairs last) : last.size = table.size + pairs.length := by
  induction filled with
  | nil => rfl
  | cons absent room lands filled ih =>
    rw [ih, List.length_cons]
    change _ + 1 + _ = _
    omega

theorem append (filled : Filled table (pairs ++ more) last) :
    ∃ middle, Filled table pairs middle ∧ Filled middle more last := by
  induction pairs generalizing table with
  | nil => exact ⟨table, .nil, filled⟩
  | cons pair rest ih =>
    cases filled with
    | cons absent room lands filled =>
      obtain ⟨middle, first, second⟩ := ih filled
      exact ⟨middle, .cons absent room lands first, second⟩

theorem extend_eq (filled : Filled table pairs last) (sound : table.Sound) :
    table.extend pairs = ⟨last, .ok ()⟩ := by
  induction filled with
  | nil => rfl
  | cons absent room lands filled ih =>
    rw [sound.extend_absent absent room lands]
    exact ih (sound.place lands absent room _)

end Filled

end Table

/-- The ways to fill a table: with one pair, or with several at once. -/
inductive Supply (shape : Shape) where
  | one (insertion : Insertion shape Unit)
  | many (pairs : List (shape.Key × shape.Value))

namespace Supply

def pairs : Supply shape → List (shape.Key × shape.Value)
  | one insertion => [(insertion.key, (insertion.offer ()).1)]
  | many pairs => pairs

def action : Supply shape → Action shape Unit
  | one insertion => .ask (.put insertion id)
  | many pairs => .ask (.extend pairs)

def reply : Supply shape → Reply shape
  | one insertion => .stored (insertion.offer ()).1 true
  | many _ => .done

def all (supplies : List (Supply shape)) : List (shape.Key × shape.Value) :=
  supplies.flatMap pairs

end Supply

namespace Table.Filled

variable {table last : Table binding}

theorem act_eq {supply : Supply shape} (filled : Filled table supply.pairs last)
    (sound : table.Sound) :
    Mounted.act ⟨binding, table⟩ supply.action () = ⟨⟨binding, last⟩, (), supply.reply⟩ := by
  cases supply with
  | one insertion =>
    cases filled with
    | cons absent room lands filled =>
      cases filled with
      | nil =>
        simp only [Supply.action, Mounted.act, sound.serve_put_absent absent room lands]
        rfl
  | many pairs =>
    have taken : table.extend pairs = ⟨last, .ok ()⟩ := filled.extend_eq sound
    simp only [Supply.action, Supply.reply, Mounted.act, Table.serve, taken]

theorem run_eq {supplies : List (Supply shape)} (filled : Filled table (Supply.all supplies) last)
    (sound : table.Sound) :
    Mounted.run ⟨binding, table⟩ (supplies.map Supply.action) () =
      (⟨binding, last⟩, (), supplies.map Supply.reply) := by
  induction supplies generalizing table with
  | nil =>
    cases filled
    rfl
  | cons supply rest ih =>
    obtain ⟨middle, first, later⟩ := filled.append
    have further := ih later (first.sound sound)
    simp only [List.map_cons, Mounted.run, first.act_eq sound, further]

end Table.Filled

namespace Mounted

/-- An empty table with room for distinct keys takes them all, and then holds nothing else. -/
theorem fill {mounted : Mounted shape} (sound : mounted.table.Sound)
    (empty : mounted.table.size = 0) {supplies : List (Supply shape)}
    (distinct : ((Supply.all supplies).map Prod.fst).Nodup)
    (room : (Supply.all supplies).length ≤ mounted.table.maxLoad) :
    ∃ last : Table mounted.binding, last.Sound ∧
      mounted.run (supplies.map Supply.action) () =
        (⟨mounted.binding, last⟩, (), supplies.map Supply.reply) ∧
      ∀ key value, last.Holds key value ↔ (key, value) ∈ Supply.all supplies := by
  have absent : ∀ key, ¬mounted.table.Has key := by
    intro key present
    have none : mounted.table.heldKeys = ∅ := by
      rw [← Finset.card_eq_zero, sound.card_heldKeys, empty]
    have member := Table.mem_heldKeys.2 present
    rw [none] at member
    exact Finset.notMem_empty key member
  obtain ⟨last, filled⟩ := sound.exists_filled distinct (fun pair _ => absent pair.1) (by omega)
  refine ⟨last, filled.sound sound, filled.run_eq sound, ?_⟩
  intro key value
  rw [filled.holds_iff sound]
  apply or_iff_left
  intro before
  exact absent key (Table.has_iff_exists_holds.2 ⟨value, before⟩)

end Mounted

end PackedTable
