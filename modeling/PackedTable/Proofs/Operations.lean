import Mathlib.Logic.Relation
import PackedTable.Proofs.Invariant
import PackedTable.Proofs.Outcomes

/-!
What each request does to a table for which the invariant holds. A key is looked up first; what
follows is a run of edits, each of which writes a value, takes one element out, puts one in, or
starts over. The invariant is kept by every edit, and with it by every session.
-/

namespace PackedTable

variable {shape : Shape} {length : Nat} {binding : Binding shape length} {σ : Type}

theorem Binding.allSlots_nodup (binding : Binding shape length) : binding.allSlots.Nodup :=
  List.nodup_finRange _

theorem Binding.mem_allSlots (slot : binding.Slot) : slot ∈ binding.allSlots :=
  List.mem_finRange slot

namespace Buffer

theorem setValue_setValue (buffer : Buffer binding) (slot : binding.Slot)
    (value value' : shape.Value) :
    (buffer.setValue slot value).setValue slot value' = buffer.setValue slot value' := by
  apply congrArg Buffer.mk
  refine Vector.ext fun i inside => ?_
  rw [Bytes.getElem_write, Bytes.getElem_write]
  split
  case isTrue => rfl
  case isFalse outside =>
    have before := Bytes.getElem_write buffer.bytes (binding.valueStart slot) value
      (binding.value_end_le slot) i inside
    rwa [dif_neg outside] at before

end Buffer

namespace Table

theorem setValue_setValue (table : Table binding) (slot : binding.Slot)
    (value value' : shape.Value) :
    (table.setValue slot value).setValue slot value' = table.setValue slot value' := by
  rw [setValue, setValue, Buffer.setValue_setValue]
  rfl

theorem setValue_place (table : Table binding) (slot : binding.Slot) (hash : UInt64)
    (key : shape.Key) (value value' : shape.Value) :
    (table.place slot hash key value).setValue slot value' = table.place slot hash key value' := by
  rw [place, setValue, Buffer.occupy, Buffer.setEntry, Buffer.setValue_setValue]
  rfl

namespace Sound

variable {table : Table binding}

theorem find_cases (sound : table.Sound) (key : shape.Key) :
    (∃ slot, table.buffer.isOccupied slot = true ∧ table.buffer.key slot = key ∧
      table.find key = some slot) ∨ (¬table.Has key ∧ table.find key = none) := by
  cases found : table.find key with
  | some slot =>
    obtain ⟨held, same⟩ := sound.find_eq_some.1 found
    exact Or.inl ⟨slot, held, same, rfl⟩
  | none => exact Or.inr ⟨sound.find_eq_none.1 found, rfl⟩

/-! ### Insertions -/

theorem findOrInsertWith_present (sound : table.Sound) {key : shape.Key} {slot : binding.Slot}
    (held : table.buffer.isOccupied slot = true) (same : table.buffer.key slot = key)
    (supply : σ → shape.Value × σ) (state : σ) :
    table.findOrInsertWith key supply state = (⟨table, .ok (slot, false)⟩, state) :=
  findOrInsertWith_of_found (sound.findWithHash_eq_some.2 ⟨held, same⟩) supply state

theorem findOrInsertWith_absent (sound : table.Sound) {key : shape.Key} {slot : binding.Slot}
    (absent : ¬table.Has key) (room : table.size < table.maxLoad)
    (lands : table.landing? (table.hash key) = some slot) (supply : σ → shape.Value × σ)
    (state : σ) :
    table.findOrInsertWith key supply state =
      (⟨table.place slot (table.hash key) key (supply state).1, .ok (slot, true)⟩,
        (supply state).2) :=
  findOrInsertWith_of_landing (sound.findWithHash_eq_none.2 absent) room lands supply state

theorem findOrInsertWith_full (sound : table.Sound) {key : shape.Key} (absent : ¬table.Has key)
    (full : ¬table.size < table.maxLoad) (supply : σ → shape.Value × σ) (state : σ) :
    table.findOrInsertWith key supply state =
      (⟨table, .error (.tableFull table.size table.maxLoad)⟩, state) :=
  findOrInsertWith_of_full (sound.findWithHash_eq_none.2 absent) full supply state

theorem attempt_present (sound : table.Sound) {slot : binding.Slot}
    (held : table.buffer.isOccupied slot = true) {insertion : Insertion shape σ}
    (same : table.buffer.key slot = insertion.key) (state : σ) :
    let kept := insertion.keep (table.buffer.value slot)
    insertion.attempt table state =
      (⟨table.setValue slot kept, .ok ⟨slot, kept, false⟩⟩, state) :=
  attempt_of_found (sound.findWithHash_eq_some.2 ⟨held, same⟩) state

theorem attempt_absent (sound : table.Sound) {insertion : Insertion shape σ} {slot : binding.Slot}
    (absent : ¬table.Has insertion.key) (room : table.size < table.maxLoad)
    (lands : table.landing? (table.hash insertion.key) = some slot) (state : σ) :
    let offered := insertion.offer state
    insertion.attempt table state =
      (⟨table.place slot (table.hash insertion.key) insertion.key offered.1,
        .ok ⟨slot, offered.1, true⟩⟩, offered.2) :=
  attempt_of_landing (sound.findWithHash_eq_none.2 absent) room lands state

theorem attempt_full (sound : table.Sound) {insertion : Insertion shape σ}
    (absent : ¬table.Has insertion.key) (full : ¬table.size < table.maxLoad) (state : σ) :
    insertion.attempt table state =
      (⟨table, .error (.tableFull table.size table.maxLoad)⟩, state) :=
  attempt_of_full (sound.findWithHash_eq_none.2 absent) full state

/-! ### Keys that are taken out or written to -/

theorem remove_present (sound : table.Sound) {key : shape.Key} {slot : binding.Slot}
    (held : table.buffer.isOccupied slot = true) (same : table.buffer.key slot = key) :
    table.remove key = (some (table.buffer.entry slot), (table.removeSlot slot).2) :=
  remove_of_found (sound.find_eq_some.2 ⟨held, same⟩)

theorem remove_absent (sound : table.Sound) {key : shape.Key} (absent : ¬table.Has key) :
    table.remove key = (none, table) :=
  remove_of_missed (sound.find_eq_none.2 absent)

theorem update_present (sound : table.Sound) {key : shape.Key} {slot : binding.Slot}
    (held : table.buffer.isOccupied slot = true) (same : table.buffer.key slot = key)
    (write : shape.Value → shape.Value) :
    table.update key write =
      (some (table.buffer.value slot),
        table.setValue slot (write (table.buffer.value slot))) :=
  update_of_found (sound.find_eq_some.2 ⟨held, same⟩) write

theorem update_absent (sound : table.Sound) {key : shape.Key} (absent : ¬table.Has key)
    (write : shape.Value → shape.Value) : table.update key write = (none, table) :=
  update_of_missed (sound.find_eq_none.2 absent) write

end Sound

/-! ### Passes over all elements -/

def visit (judge : σ → shape.Key → shape.Value → Bool × shape.Value × σ)
    (swept : Table binding × σ) (slot : binding.Slot) : Table binding × σ :=
  let (keeps, left, next) := judge swept.2 (swept.1.buffer.key slot) (swept.1.buffer.value slot)
  let shown := swept.1.setValue slot left
  (if keeps then shown else (shown.removeSlot slot).2, next)

section

variable {judge : σ → shape.Key → shape.Value → Bool × shape.Value × σ}
  {swept : Table binding × σ} {slot other : binding.Slot}

theorem visit_of_keeps
    (keeps : (judge swept.2 (swept.1.buffer.key slot) (swept.1.buffer.value slot)).1 = true) :
    visit judge swept slot =
      (swept.1.setValue slot
        (judge swept.2 (swept.1.buffer.key slot) (swept.1.buffer.value slot)).2.1,
        (judge swept.2 (swept.1.buffer.key slot) (swept.1.buffer.value slot)).2.2) := by
  simp only [visit, keeps, ↓reduceIte]

theorem visit_of_drops
    (drops : ¬(judge swept.2 (swept.1.buffer.key slot) (swept.1.buffer.value slot)).1 = true) :
    visit judge swept slot =
      (((swept.1.setValue slot
        (judge swept.2 (swept.1.buffer.key slot) (swept.1.buffer.value slot)).2.1).removeSlot
          slot).2,
        (judge swept.2 (swept.1.buffer.key slot) (swept.1.buffer.value slot)).2.2) := by
  simp only [visit, drops, Bool.false_eq_true, ↓reduceIte]

theorem isOccupied_visit (apart : other ≠ slot) :
    (visit judge swept slot).1.buffer.isOccupied other = swept.1.buffer.isOccupied other := by
  simp only [visit]
  split
  · exact Buffer.isOccupied_setValue _ _ _ _
  · rw [Bool.eq_iff_iff]
    refine (Buffer.isOccupied_release _ _ _).trans ?_
    rw [and_iff_right apart]
    exact iff_of_eq (congrArg (· = true) (Buffer.isOccupied_setValue _ _ _ _))

theorem held_visit {rest : List binding.Slot} (fresh : slot ∉ rest)
    (held : ∀ other ∈ rest, swept.1.buffer.isOccupied other = true) :
    ∀ other ∈ rest, (visit judge swept slot).1.buffer.isOccupied other = true := by
  intro other member
  have apart : other ≠ slot := fun same => fresh (same ▸ member)
  rw [isOccupied_visit apart]
  exact held other member

theorem key_visit : (visit judge swept slot).1.buffer.key other = swept.1.buffer.key other := by
  simp only [visit]
  split
  · exact Buffer.key_setValue _ _ _ _
  · exact (Buffer.key_setTag _ _ _ _ _).trans (Buffer.key_setValue _ _ _ _)

theorem value_visit (apart : other ≠ slot) :
    (visit judge swept slot).1.buffer.value other = swept.1.buffer.value other := by
  have shown : ∀ left, (swept.1.setValue slot left).buffer.value other =
      swept.1.buffer.value other := by
    intro left
    rw [setValue, Buffer.value_setValue, if_neg (Ne.symm apart)]
  simp only [visit]
  split
  · exact shown _
  · exact (Buffer.value_setTag _ _ _ _ _).trans (shown _)

theorem visit_eq (judge : σ → shape.Key → shape.Value → Bool × shape.Value × σ)
    (swept : Table binding × σ) (slot : binding.Slot) :
    (visit judge swept slot).1 =
      { swept.1 with
        buffer := (visit judge swept slot).1.buffer
        size := (visit judge swept slot).1.size } := by
  simp only [visit]
  split <;> rfl

theorem Sound.visit (sound : swept.1.Sound) (held : swept.1.buffer.isOccupied slot = true)
    (judge : σ → shape.Key → shape.Value → Bool × shape.Value × σ) :
    (Table.visit judge swept slot).1.Sound := by
  simp only [Table.visit]
  split
  · exact sound.setValue slot _
  · refine (sound.setValue slot _).removeSlot ?_
    exact (Buffer.isOccupied_setValue _ _ _ _).trans held

theorem filter_isOccupied_visit {rest : List binding.Slot} (fresh : slot ∉ rest) :
    rest.filter (visit judge swept slot).1.buffer.isOccupied =
      rest.filter swept.1.buffer.isOccupied := by
  apply List.filter_congr
  intro other member
  exact isOccupied_visit fun same => fresh (same ▸ member)

def drops (judge : σ → shape.Key → shape.Value → Bool × shape.Value × σ)
    (swept : Table binding × σ) (slot : binding.Slot) : Nat :=
  if (judge swept.2 (swept.1.buffer.key slot) (swept.1.buffer.value slot)).1 then 0 else 1

theorem Sound.size_visit (sound : swept.1.Sound) (held : swept.1.buffer.isOccupied slot = true)
    (judge : σ → shape.Key → shape.Value → Bool × shape.Value × σ) :
    (Table.visit judge swept slot).1.size + drops judge swept slot = swept.1.size := by
  simp only [Table.visit, drops]
  split
  · rfl
  · refine (sound.setValue slot _).size_removeSlot ?_
    exact (Buffer.isOccupied_setValue _ _ _ _).trans held

theorem run_ofJudge_cons (held : swept.1.buffer.isOccupied slot = true) (rest : List binding.Slot)
    (dropped : Nat) :
    Sweep.run (Visitor.ofJudge judge) (slot :: rest) swept.1.buffer dropped swept.2 =
      Sweep.run (Visitor.ofJudge judge) rest (visit judge swept slot).1.buffer
        (dropped + drops judge swept slot) (visit judge swept slot).2 := by
  rw [Sweep.run, if_pos held]
  simp only [Visitor.ofJudge, visit, drops]
  cases (judge swept.2 (swept.1.buffer.key slot) (swept.1.buffer.value slot)).1 <;> rfl

theorem Sound.run_ofJudge (judge : σ → shape.Key → shape.Value → Bool × shape.Value × σ)
    {slots : List binding.Slot} (nodup : slots.Nodup)
    {swept : Table binding × σ} (sound : swept.1.Sound) (dropped : Nat) :
    let final := (slots.filter swept.1.buffer.isOccupied).foldl (Table.visit judge) swept
    ∃ count, Sweep.run (Visitor.ofJudge judge) slots swept.1.buffer dropped swept.2 =
        ⟨final.1.buffer, count, final.2, true⟩ ∧
      final.1.Sound ∧ final.1.size + count = swept.1.size + dropped ∧
      final.1 = { swept.1 with buffer := final.1.buffer, size := final.1.size } := by
  induction slots generalizing swept dropped with
  | nil => exact ⟨dropped, rfl, sound, rfl, rfl⟩
  | cons slot rest ih =>
    obtain ⟨fresh, nodup⟩ := List.nodup_cons.1 nodup
    cases held : swept.1.buffer.isOccupied slot with
    | false =>
      rw [List.filter_cons_of_neg (by rw [held]; exact Bool.false_ne_true), Sweep.run, held]
      exact ih nodup sound dropped
    | true =>
      rw [List.filter_cons_of_pos held, List.foldl_cons, run_ofJudge_cons held]
      have sizes := sound.size_visit held judge
      have control := visit_eq judge swept slot
      have further := ih nodup (sound.visit held judge) (dropped + drops judge swept slot)
      rw [filter_isOccupied_visit fresh] at further
      obtain ⟨count, ran, finalSound, total, finalControl⟩ := further
      refine ⟨count, ran, finalSound, by omega, ?_⟩
      rw [control] at finalControl
      exact finalControl

theorem Sound.length_occupied {table : Table binding} (sound : table.Sound) :
    (binding.allSlots.filter table.buffer.isOccupied).length = table.size := by
  rw [← sound.counted, ← List.toFinset_card_of_nodup (binding.allSlots_nodup.filter _)]
  congr 1
  ext slot
  rw [List.mem_toFinset, List.mem_filter, Buffer.mem_occupied]
  exact and_iff_right (Binding.mem_allSlots slot)

/-- The slots of the elements are all occupied slots. -/
theorem Sound.elementSlots_eq {table : Table binding} (sound : table.Sound) :
    table.elementSlots = binding.allSlots.filter table.buffer.isOccupied := by
  rw [elementSlots, Cursor.rest, cursor]
  exact List.take_of_length_le (Nat.le_of_eq sound.length_occupied)

theorem Sound.mem_elementSlots {table : Table binding} (sound : table.Sound) {slot : binding.Slot} :
    slot ∈ table.elementSlots ↔ table.buffer.isOccupied slot = true := by
  rw [sound.elementSlots_eq, List.mem_filter]
  exact and_iff_right (Binding.mem_allSlots slot)

theorem Sound.elementSlots_nodup {table : Table binding} (sound : table.Sound) :
    table.elementSlots.Nodup := by
  rw [sound.elementSlots_eq]
  exact binding.allSlots_nodup.filter _

/-- Filtering shows the elements to the judge in the order of their slots. -/
theorem Sound.retain_eq {table : Table binding} (sound : table.Sound)
    (judge : σ → shape.Key → shape.Value → Bool × shape.Value × σ) (state : σ) :
    let final := table.elementSlots.foldl (Table.visit judge) (table, state)
    table.retain (Visitor.ofJudge judge) state = ⟨final.1, final.2, true⟩ := by
  have swept := Sound.run_ofJudge judge binding.allSlots_nodup
    (show (table, state).1.Sound from sound) 0
  dsimp only at swept
  rw [← sound.elementSlots_eq] at swept
  obtain ⟨count, ran, -, total, control⟩ := swept
  have size := Word.sub_eq (show count ≤ table.size by omega) sound.size_lt_limit
  have left : Word.sub table.size count =
      (table.elementSlots.foldl (Table.visit judge) (table, state)).1.size := by omega
  simp only [retain, ran, ↓reduceIte, left]
  rw [← control]

theorem updateValues_eq (table : Table binding)
    (change : shape.Key → shape.Value → shape.Value) :
    table.updateValues change =
      (table.elementSlots.foldl
        (Table.visit fun _ key value => (true, change key value, ())) (table, ())).1 := by
  have fold : ∀ (slots : List binding.Slot) (start : Table binding),
      slots.foldl (fun table slot =>
        table.setValue slot (change (table.buffer.key slot) (table.buffer.value slot))) start =
        (slots.foldl (Table.visit fun _ key value => (true, change key value, ()))
          (start, ())).1 := by
    intro slots
    induction slots with
    | nil =>
      intro start
      rfl
    | cons slot rest ih =>
      intro start
      exact ih _
  exact fold table.elementSlots table

end

namespace Sound

variable {table : Table binding}

/-! ### Every request -/

/-- A key is there; or it is not there, and there is room for it in some slot; or the table is
full. -/
theorem key_cases (sound : table.Sound) (key : shape.Key) :
    (∃ slot, table.buffer.isOccupied slot = true ∧ table.buffer.key slot = key) ∨
      (¬table.Has key ∧ table.size < table.maxLoad ∧
        ∃ slot, table.landing? (table.hash key) = some slot) ∨
      (¬table.Has key ∧ ¬table.size < table.maxLoad) := by
  by_cases present : table.Has key
  · exact Or.inl present
  · by_cases room : table.size < table.maxLoad
    · have lands := Option.isSome_iff_exists.1 (sound.landing?_isSome room (table.hash key))
      exact Or.inr (Or.inl ⟨present, room, lands⟩)
    · exact Or.inr (Or.inr ⟨present, room⟩)

theorem serve_put_present (sound : table.Sound) {slot : binding.Slot}
    (held : table.buffer.isOccupied slot = true) {insertion : Insertion shape σ}
    (same : table.buffer.key slot = insertion.key) (write : shape.Value → shape.Value)
    (state : σ) :
    let kept := insertion.keep (table.buffer.value slot)
    table.serve (.put insertion write) state =
      ⟨table.setValue slot (write kept), state, .stored kept false⟩ := by
  simp only [serve, sound.attempt_present held same, Attempt.written, Attempt.reply,
    setValue_setValue]

theorem serve_put_absent (sound : table.Sound) {insertion : Insertion shape σ}
    {slot : binding.Slot} (absent : ¬table.Has insertion.key)
    (room : table.size < table.maxLoad)
    (lands : table.landing? (table.hash insertion.key) = some slot)
    (write : shape.Value → shape.Value) (state : σ) :
    let offered := insertion.offer state
    table.serve (.put insertion write) state =
      ⟨table.place slot (table.hash insertion.key) insertion.key (write offered.1), offered.2,
        .stored offered.1 true⟩ := by
  simp only [serve, sound.attempt_absent absent room lands, Attempt.written, Attempt.reply,
    setValue_place]

theorem serve_put_full (sound : table.Sound) {insertion : Insertion shape σ}
    (absent : ¬table.Has insertion.key) (full : ¬table.size < table.maxLoad)
    (write : shape.Value → shape.Value) (state : σ) :
    table.serve (.put insertion write) state =
      ⟨table, state, .refused (.fault (.tableFull table.size table.maxLoad))⟩ := by
  simp only [serve, sound.attempt_full absent full, Attempt.written, Attempt.reply]

theorem extend_present (sound : table.Sound) {key : shape.Key} {slot : binding.Slot}
    (held : table.buffer.isOccupied slot = true) (same : table.buffer.key slot = key)
    (value : shape.Value) (rest : List (shape.Key × shape.Value)) :
    table.extend ((key, value) :: rest) = table.extend rest := by
  simp only [extend, insert, sound.findOrInsertWith_present held same]

theorem extend_absent (sound : table.Sound) {key : shape.Key} {slot : binding.Slot}
    (absent : ¬table.Has key) (room : table.size < table.maxLoad)
    (lands : table.landing? (table.hash key) = some slot) (value : shape.Value)
    (rest : List (shape.Key × shape.Value)) :
    table.extend ((key, value) :: rest) =
      (table.place slot (table.hash key) key value).extend rest := by
  simp only [extend, insert, sound.findOrInsertWith_absent absent room lands]

theorem extend_full (sound : table.Sound) {key : shape.Key} (absent : ¬table.Has key)
    (full : ¬table.size < table.maxLoad) (value : shape.Value)
    (rest : List (shape.Key × shape.Value)) :
    table.extend ((key, value) :: rest) =
      ⟨table, .error (.tableFull table.size table.maxLoad)⟩ := by
  simp only [extend, insert, sound.findOrInsertWith_full absent full]

end Sound

/-! ### Edits -/

/-- One change of a table in use. -/
inductive Edit : Table binding → Table binding → Prop
  | setValue {table : Table binding} {slot : binding.Slot}
      (held : table.buffer.isOccupied slot = true) (value : shape.Value) :
      Edit table (table.setValue slot value)
  | removeSlot {table : Table binding} {slot : binding.Slot}
      (held : table.buffer.isOccupied slot = true) : Edit table (table.removeSlot slot).2
  | place {table : Table binding} {slot : binding.Slot} {key : shape.Key}
      (lands : table.landing? (table.hash key) = some slot) (absent : ¬table.Has key)
      (room : table.size < table.maxLoad) (value : shape.Value) :
      Edit table (table.place slot (table.hash key) key value)
  | clear {table : Table binding} : Edit table table.clear

abbrev Edits : Table binding → Table binding → Prop := Relation.ReflTransGen Edit

theorem Edit.sound {table after : Table binding} (edit : Edit table after)
    (sound : table.Sound) : after.Sound := by
  cases edit with
  | setValue held value => exact sound.setValue _ value
  | removeSlot held => exact sound.removeSlot held
  | place lands absent room value => exact sound.place lands absent room value
  | clear => exact sound.clear

theorem Edits.sound {table after : Table binding} (edits : Edits table after)
    (sound : table.Sound) : after.Sound := by
  induction edits with
  | refl => exact sound
  | tail _ edit ih => exact edit.sound ih

namespace Sound

variable {table : Table binding}

theorem visit_edits {swept : Table binding × σ} {slot : binding.Slot}
    (held : swept.1.buffer.isOccupied slot = true)
    (judge : σ → shape.Key → shape.Value → Bool × shape.Value × σ) :
    Edits swept.1 (Table.visit judge swept slot).1 := by
  simp only [Table.visit]
  split
  · exact .single (.setValue held _)
  · refine .tail (.single (.setValue held _)) (.removeSlot ?_)
    exact (Buffer.isOccupied_setValue _ _ _ _).trans held

theorem foldl_visit_edits (judge : σ → shape.Key → shape.Value → Bool × shape.Value × σ)
    {slots : List binding.Slot} (nodup : slots.Nodup) (swept : Table binding × σ)
    (held : ∀ slot ∈ slots, swept.1.buffer.isOccupied slot = true) :
    Edits swept.1 (slots.foldl (Table.visit judge) swept).1 := by
  induction slots generalizing swept with
  | nil => exact .refl
  | cons slot rest ih =>
    obtain ⟨fresh, nodup⟩ := List.nodup_cons.1 nodup
    obtain ⟨first, others⟩ := List.forall_mem_cons.1 held
    exact .trans (visit_edits first judge) (ih nodup _ (held_visit fresh others))

theorem extend_edits (sound : table.Sound) (pairs : List (shape.Key × shape.Value)) :
    Edits table (table.extend pairs).table := by
  induction pairs generalizing table with
  | nil => exact .refl
  | cons pair rest ih =>
    obtain ⟨key, value⟩ := pair
    rcases sound.key_cases key with
      ⟨slot, held, same⟩ | ⟨absent, room, slot, lands⟩ | ⟨absent, full⟩
    · rw [sound.extend_present held same]
      exact ih sound
    · rw [sound.extend_absent absent room lands]
      exact .head (.place lands absent room value) (ih (sound.place lands absent room value))
    · rw [sound.extend_full absent full]

theorem remove_edits (sound : table.Sound) (key : shape.Key) :
    Edits table (table.remove key).2 := by
  rcases sound.find_cases key with ⟨slot, held, same, -⟩ | ⟨absent, -⟩
  · rw [sound.remove_present held same]
    exact .single (.removeSlot held)
  · rw [sound.remove_absent absent]

/-- Whatever is asked of a table, what happens to it is a run of edits. -/
theorem serve_edits (sound : table.Sound) (request : Request shape σ) (state : σ) :
    Edits table (table.serve request state).table := by
  cases request with
  | put insertion write =>
    rcases sound.key_cases insertion.key with
      ⟨slot, held, same⟩ | ⟨absent, room, slot, lands⟩ | ⟨absent, full⟩
    · rw [sound.serve_put_present held same]
      exact .single (.setValue held _)
    · rw [sound.serve_put_absent absent room lands]
      exact .single (.place lands absent room _)
    · rw [sound.serve_put_full absent full]
  | update key write =>
    simp only [serve]
    rcases sound.find_cases key with ⟨slot, held, same, -⟩ | ⟨absent, -⟩
    · rw [sound.update_present held same]
      exact .single (.setValue held _)
    · rw [sound.update_absent absent]
  | erase key => exact sound.remove_edits key
  | remove key => exact sound.remove_edits key
  | removeEntry key => exact sound.remove_edits key
  | retain judge =>
    simp only [serve, sound.retain_eq]
    exact foldl_visit_edits judge sound.elementSlots_nodup (table, state)
      fun slot => sound.mem_elementSlots.1
  | extend pairs => exact sound.extend_edits pairs
  | revise change =>
    simp only [serve, updateValues_eq]
    exact foldl_visit_edits _ sound.elementSlots_nodup (table, ())
      fun slot => sound.mem_elementSlots.1
  | clear => exact .single .clear
  | get key => exact .refl
  | getEntry key => exact .refl
  | contains key => exact .refl
  | require key => exact .refl
  | size => exact .refl
  | list => exact .refl

theorem serve (sound : table.Sound) (request : Request shape σ) (state : σ) :
    (table.serve request state).table.Sound :=
  (sound.serve_edits request state).sound sound

end Sound

end Table

end PackedTable
