import PackedTable.Proofs.Accessors
import PackedTable.Proofs.Footprint

/-!
What each operation does to the bytes of a table in use, position by position. A new key costs the
tag of its slot, the overflow bytes of the groups in front of it, and its key and value; a present
key costs nothing, or its value where the caller writes one; a key that is taken out costs its tag.
The rest of the buffer belongs to other keys or to nobody, and stays as it is.
-/

namespace PackedTable

variable {shape : Shape} {length : Nat} {binding : Binding shape length} {σ : Type}

namespace Binding

/-- What a new key writes when it comes to a slot: the tag, the marks on the way, and the
element. -/
def newElement (binding : Binding shape length) (hash : UInt64) (slot : binding.Slot) : Set Nat :=
  {binding.slotPosition slot} ∪ binding.marks (binding.ahead hash slot) ∪ binding.elementSpan slot

/-- What a pass writes that has come to these verdicts: the tags of the slots that are dropped, and
the values of all that are shown. -/
def visited (binding : Binding shape length) (shown : List (binding.Slot × Verdict)) : Set Nat :=
  {i | ∃ slot, (slot, Verdict.drop) ∈ shown ∧ binding.slotPosition slot = i} ∪
    {i | ∃ slot verdict, (slot, verdict) ∈ shown ∧ i ∈ (binding.valueSpan slot).positions}

variable {slot : binding.Slot} {verdict : Verdict} {shown : List (binding.Slot × Verdict)}

theorem visited_subset_cons (first : binding.Slot × Verdict) :
    binding.visited shown ⊆ binding.visited (first :: shown) := by
  rintro i (⟨slot, member, here⟩ | ⟨slot, verdict, member, inside⟩)
  · exact Or.inl ⟨slot, List.mem_cons_of_mem _ member, here⟩
  · exact Or.inr ⟨slot, verdict, List.mem_cons_of_mem _ member, inside⟩

theorem valueSpan_subset_visited :
    (binding.valueSpan slot).positions ⊆ binding.visited ((slot, verdict) :: shown) :=
  fun _ inside => Or.inr ⟨slot, verdict, List.mem_cons_self, inside⟩

theorem slotPosition_mem_visited :
    binding.slotPosition slot ∈ binding.visited ((slot, .drop) :: shown) :=
  Or.inl ⟨slot, List.mem_cons_self, rfl⟩

theorem slotPosition_not_mem_valueSpan (other slot : binding.Slot) :
    binding.slotPosition other ∉ (binding.valueSpan slot).positions := by
  intro inside
  have element : binding.slotPosition other ∈ binding.elementSpan slot := Or.inr inside
  exact Set.disjoint_left.1 (elementSpan_disjoint_groupRegion slot) element (slotPosition_mem other)

theorem slotPosition_not_mem_visited (hidden : ∀ verdict, (slot, verdict) ∉ shown) :
    binding.slotPosition slot ∉ binding.visited shown := by
  rintro (⟨other, member, same⟩ | ⟨other, verdict, -, inside⟩)
  · rw [slotPosition_inj same] at member
    exact hidden .drop member
  · exact slotPosition_not_mem_valueSpan slot other inside

theorem elementSpan_disjoint_newElement {other : binding.Slot} (apart : other ≠ slot)
    (hash : UInt64) : Disjoint (binding.elementSpan other) (binding.newElement hash slot) := by
  have metadata : {binding.slotPosition slot} ∪ binding.marks (binding.ahead hash slot) ⊆
      binding.groupRegion :=
    Set.union_subset (Set.singleton_subset_iff.2 (slotPosition_mem slot)) (marks_subset _)
  apply Set.disjoint_union_right.2
  exact ⟨(elementSpan_disjoint_groupRegion other).mono_right metadata, elementSpan_disjoint apart⟩

theorem slotPosition_not_mem_newElement {other : binding.Slot} (apart : other ≠ slot)
    (hash : UInt64) : binding.slotPosition other ∉ binding.newElement hash slot := by
  rintro ((here | ⟨group, -, mark⟩) | element)
  · exact apart (slotPosition_inj here)
  · exact tag_position_ne_overflow _ _ _ mark.symm
  · exact Set.disjoint_left.1 (elementSpan_disjoint_groupRegion slot) element
      (slotPosition_mem other)

theorem elementSpan_disjoint_slotPosition (other slot : binding.Slot) :
    Disjoint (binding.elementSpan other) {binding.slotPosition slot} :=
  (elementSpan_disjoint_groupRegion other).mono_right
    (Set.singleton_subset_iff.2 (slotPosition_mem slot))

theorem elementSpan_disjoint_valueSpan {other : binding.Slot} (apart : other ≠ slot) :
    Disjoint (binding.elementSpan other) (binding.valueSpan slot).positions :=
  (elementSpan_disjoint apart).mono_right Set.subset_union_right

end Binding

/-! ### Filtering passes -/

namespace Sweep

/-- The slots that a pass shows to its visitor, and what the visitor decides about each of them. -/
def shown (visit : Visitor shape σ) :
    List binding.Slot → Buffer binding → σ → List (binding.Slot × Verdict)
  | [], _, _ => []
  | slot :: rest, buffer, state =>
    if buffer.isOccupied slot then
      let (verdict, value, next) := visit state (buffer.key slot) (buffer.value slot)
      let left := buffer.setValue slot value
      (slot, verdict) ::
        match verdict with
        | .keep => shown visit rest left next
        | .drop => shown visit rest (left.release slot) next
        | .abandon => []
    else shown visit rest buffer state

theorem run_changesOnly (visit : Visitor shape σ) (slots : List binding.Slot)
    (buffer : Buffer binding) (dropped : Nat) (state : σ) :
    buffer.ChangesOnly (run visit slots buffer dropped state).buffer
      (binding.visited (shown visit slots buffer state)) := by
  induction slots generalizing buffer dropped state with
  | nil => exact .refl _ _
  | cons slot rest ih =>
    cases held : buffer.isOccupied slot with
    | false =>
      simp only [run, shown, held, Bool.false_eq_true, ↓reduceIte]
      exact ih buffer dropped state
    | true =>
      simp only [run, shown, held, ↓reduceIte]
      generalize visit state (buffer.key slot) (buffer.value slot) = decision
      obtain ⟨verdict, value, next⟩ := decision
      have written := Buffer.ChangesOnly.setValue buffer slot value
      cases verdict with
      | keep =>
        apply (written.mono Binding.valueSpan_subset_visited).trans
        exact (ih _ dropped next).mono (Binding.visited_subset_cons _)
      | drop =>
        have released := Buffer.ChangesOnly.release (buffer.setValue slot value) slot
        apply (written.mono Binding.valueSpan_subset_visited).trans
        apply (released.mono (Set.singleton_subset_iff.2 Binding.slotPosition_mem_visited)).trans
        exact (ih _ (dropped + 1) next).mono (Binding.visited_subset_cons _)
      | abandon => exact written.mono Binding.valueSpan_subset_visited

theorem of_mem_shown {visit : Visitor shape σ} {slots : List binding.Slot} (nodup : slots.Nodup)
    {buffer : Buffer binding} {state : σ} {slot : binding.Slot} {verdict : Verdict}
    (member : (slot, verdict) ∈ shown visit slots buffer state) :
    slot ∈ slots ∧ buffer.isOccupied slot = true := by
  induction slots generalizing buffer state with
  | nil => exact absurd member List.not_mem_nil
  | cons first rest ih =>
    obtain ⟨fresh, distinct⟩ := List.nodup_cons.1 nodup
    cases held : buffer.isOccupied first with
    | false =>
      simp only [shown, held, Bool.false_eq_true, ↓reduceIte] at member
      obtain ⟨later, occupied⟩ := ih distinct member
      exact ⟨List.mem_cons_of_mem _ later, occupied⟩
    | true =>
      simp only [shown, held, ↓reduceIte] at member
      generalize visit state (buffer.key first) (buffer.value first) = decision at member
      obtain ⟨chosen, value, next⟩ := decision
      rcases List.mem_cons.1 member with here | further
      · obtain ⟨rfl, -⟩ := Prod.mk.inj here
        exact ⟨List.mem_cons_self, held⟩
      · cases chosen with
        | keep =>
          obtain ⟨later, occupied⟩ := ih distinct further
          rw [Buffer.isOccupied_setValue] at occupied
          exact ⟨List.mem_cons_of_mem _ later, occupied⟩
        | drop =>
          obtain ⟨later, kept⟩ := ih distinct further
          have occupied := ((Buffer.isOccupied_release _ _ _).1 kept).2
          rw [Buffer.isOccupied_setValue] at occupied
          exact ⟨List.mem_cons_of_mem _ later, occupied⟩
        | abandon => exact absurd further List.not_mem_nil

/-- A slot that was dropped is free in the end: the slots behind it have their tags elsewhere. -/
theorem slotTag_of_dropped {visit : Visitor shape σ} {slots : List binding.Slot}
    (nodup : slots.Nodup) {buffer : Buffer binding} (dropped : Nat) {state : σ}
    {slot : binding.Slot} (member : (slot, Verdict.drop) ∈ shown visit slots buffer state) :
    (run visit slots buffer dropped state).buffer.slotTag slot = Tag.empty := by
  induction slots generalizing buffer dropped state with
  | nil => exact absurd member List.not_mem_nil
  | cons first rest ih =>
    obtain ⟨fresh, distinct⟩ := List.nodup_cons.1 nodup
    cases held : buffer.isOccupied first with
    | false =>
      simp only [run, shown, held, Bool.false_eq_true, ↓reduceIte] at member ⊢
      exact ih distinct dropped member
    | true =>
      simp only [run, shown, held, ↓reduceIte] at member ⊢
      generalize visit state (buffer.key first) (buffer.value first) = decision at member ⊢
      obtain ⟨chosen, value, next⟩ := decision
      cases chosen with
      | keep =>
        rcases List.mem_cons.1 member with here | further
        · cases here
        · exact ih distinct dropped further
      | drop =>
        dsimp only at member ⊢
        rcases List.mem_cons.1 member with here | further
        · obtain ⟨rfl, -⟩ := Prod.mk.inj here
          have hidden : ∀ verdict, (slot, verdict) ∉
              shown visit rest ((buffer.setValue slot value).release slot) next :=
            fun verdict later => fresh (of_mem_shown distinct later).1
          have kept := (run_changesOnly visit rest ((buffer.setValue slot value).release slot)
            (dropped + 1) next).slotTag (Binding.slotPosition_not_mem_visited hidden)
          rw [kept, Buffer.release, Buffer.slotTag_setTag, if_pos rfl]
        · exact ih distinct (dropped + 1) further
      | abandon =>
        rcases List.mem_cons.1 member with here | further
        · cases here
        · exact absurd further List.not_mem_nil

end Sweep

/-- Tag, key and value of a slot are what they were. -/
structure Buffer.SameSlot (before after : Buffer binding) (slot : binding.Slot) : Prop where
  tag : after.slotTag slot = before.slotTag slot
  entry : after.entry slot = before.entry slot

namespace Buffer.SameSlot

variable {before between after : Buffer binding} {slot : binding.Slot}

theorem refl (buffer : Buffer binding) (slot : binding.Slot) : buffer.SameSlot buffer slot :=
  ⟨rfl, rfl⟩

theorem trans (first : before.SameSlot between slot) (second : between.SameSlot after slot) :
    before.SameSlot after slot :=
  ⟨second.tag.trans first.tag, second.entry.trans first.entry⟩

theorem of_changesOnly {places : Set Nat} (changes : before.ChangesOnly after places)
    (tag : binding.slotPosition slot ∉ places)
    (element : Disjoint (binding.elementSpan slot) places) : before.SameSlot after slot where
  tag := changes.slotTag tag
  entry := by rw [Buffer.entry, Buffer.entry, changes.key element, changes.value element]

theorem setValue (buffer : Buffer binding) {other : binding.Slot} (apart : slot ≠ other)
    (value : shape.Value) : buffer.SameSlot (buffer.setValue other value) slot :=
  .of_changesOnly (.setValue buffer other value) (Binding.slotPosition_not_mem_valueSpan slot other)
    (Binding.elementSpan_disjoint_valueSpan apart)

theorem release (buffer : Buffer binding) {other : binding.Slot} (apart : slot ≠ other) :
    buffer.SameSlot (buffer.release other) slot :=
  .of_changesOnly (.release buffer other) (fun here => apart (Binding.slotPosition_inj here))
    (Binding.elementSpan_disjoint_slotPosition slot other)

end Buffer.SameSlot

namespace Table

variable {table : Table binding}

def HoldsAt (table : Table binding) (slot : binding.Slot) (key : shape.Key) : Prop :=
  table.buffer.isOccupied slot = true ∧ table.buffer.key slot = key

/-- What a filtering pass over the table shows. -/
def shown (table : Table binding) (visit : Visitor shape σ) (state : σ) :
    List (binding.Slot × Verdict) :=
  Sweep.shown visit binding.allSlots table.buffer state

/-! ### One operation -/

theorem passed_eq_ahead {hash : UInt64} {slot : binding.Slot}
    (lands : table.landing? hash = some slot) : table.passed hash = binding.ahead hash slot := by
  obtain ⟨-, after, route⟩ := Buffer.landing?_eq_some lands
  have nodup := binding.geometry.route_nodup hash
  unfold passed Binding.ahead
  generalize table.buffer.fullAhead (binding.geometry.route hash) = full at route ⊢
  rw [route] at nodup ⊢
  have others : ∀ group ∈ full, group ≠ binding.groupOf slot := by
    intro group member same
    exact (List.nodup_append.1 nodup).2.2 group member _ List.mem_cons_self same
  rw [List.takeWhile_append_of_pos fun group member => decide_eq_true (others group member),
    List.takeWhile_cons_of_neg (by simp), List.append_nil]

theorem place_changesOnly {hash : UInt64} {slot : binding.Slot}
    (lands : table.landing? hash = some slot) (key : shape.Key) (value : shape.Value) :
    table.buffer.ChangesOnly (table.place slot hash key value).buffer
      (binding.newElement hash slot) := by
  have marked := Buffer.ChangesOnly.markAll table.buffer hash (table.passed hash)
  have occupied := Buffer.ChangesOnly.occupy (table.buffer.markAll hash (table.passed hash)) slot
    hash key value
  unfold place
  rw [passed_eq_ahead lands] at marked occupied ⊢
  apply (marked.append occupied).mono
  rintro i (mark | tag | element)
  · exact Or.inl (Or.inr mark)
  · exact Or.inl (Or.inl tag)
  · exact Or.inr element

theorem HoldsAt.of_sameSlot {after : Table binding} {slot : binding.Slot} {key : shape.Key}
    (holds : table.HoldsAt slot key) (same : table.buffer.SameSlot after.buffer slot) :
    after.HoldsAt slot key := by
  constructor
  · rw [Buffer.isOccupied, same.tag]
    exact holds.1
  · exact (congrArg Prod.fst same.entry).trans holds.2

theorem slotTag_ne_empty {slot : binding.Slot} (held : table.buffer.isOccupied slot = true) :
    table.buffer.slotTag slot ≠ Tag.empty := by
  intro free
  rw [Buffer.isOccupied, free, Tag.isOccupied_empty] at held
  exact Bool.false_ne_true held

theorem foldl_revise_changesOnly (table swept : Table binding)
    (change : shape.Key → shape.Value → shape.Value) {slots : List binding.Slot}
    (held : ∀ slot ∈ slots, table.buffer.isOccupied slot = true) :
    swept.buffer.ChangesOnly (slots.foldl (revise change) swept).buffer
      {i | ∃ slot, table.buffer.isOccupied slot = true ∧
        i ∈ (binding.valueSpan slot).positions} := by
  induction slots generalizing swept with
  | nil => exact .refl _ _
  | cons slot rest ih =>
    obtain ⟨first, others⟩ := List.forall_mem_cons.1 held
    have written := Buffer.ChangesOnly.setValue swept.buffer slot
      (change (swept.buffer.key slot) (swept.buffer.value slot))
    have within : (binding.valueSpan slot).positions ⊆ {i | ∃ slot,
        table.buffer.isOccupied slot = true ∧ i ∈ (binding.valueSpan slot).positions} :=
      fun i inside => ⟨slot, first, inside⟩
    apply (written.mono within).trans
    exact ih _ others

theorem updateValues_changesOnly (table : Table binding)
    (change : shape.Key → shape.Value → shape.Value) :
    table.buffer.ChangesOnly (table.updateValues change).buffer
      {i | ∃ slot, table.buffer.isOccupied slot = true ∧ i ∈ (binding.valueSpan slot).positions} :=
  table.foldl_revise_changesOnly table change fun _ => isOccupied_of_mem_elementSlots

end Table

/-- The key that a request is about, if it is about one. -/
def Request.key? : Request shape σ → Option shape.Key
  | .put insertion _ => some insertion.key
  | .update key _ | .get key | .getEntry key | .contains key | .require key | .erase key
  | .remove key | .removeEntry key => some key
  | .retain _ | .extend _ | .revise _ | .clear | .size | .list => none

namespace Table

variable {table : Table binding}

/-- The positions that each operation may change, and what becomes of a tag. -/
structure Footprints (table : Table binding) : Prop where
  clear : table.buffer.ChangesOnly table.clear.buffer binding.groupRegion
  /-- A new key is put into a free slot, whether its caller writes to the value or not. -/
  newKey : ∀ {σ : Type} (insertion : Insertion shape σ) (write : shape.Value → shape.Value)
    (state : σ), ¬table.Has insertion.key → table.size < table.maxLoad →
    ∃ slot, table.buffer.slotTag slot = Tag.empty ∧
      (insertion.attempt table state).1.outcome = .ok ⟨slot, (insertion.offer state).1, true⟩ ∧
      table.buffer.ChangesOnly (insertion.attempt table state).1.table.buffer
        (binding.newElement (table.hash insertion.key) slot) ∧
      table.buffer.ChangesOnly (table.serve (.put insertion write) state).table.buffer
        (binding.newElement (table.hash insertion.key) slot)
  /-- A full table takes no new key. -/
  refused : ∀ {σ : Type} (insertion : Insertion shape σ) (write : shape.Value → shape.Value)
    (state : σ), ¬table.Has insertion.key → ¬table.size < table.maxLoad →
    (insertion.attempt table state).1.table = table ∧
      (table.serve (.put insertion write) state).table = table
  /-- A present key is left alone by the insertions that keep its value. -/
  presentKey : ∀ {σ : Type} (insertion : Insertion shape σ) (write : shape.Value → shape.Value)
    (state : σ) (slot : binding.Slot), table.HoldsAt slot insertion.key →
    ((∀ old, insertion.keep old = old) → (insertion.attempt table state).1.table = table) ∧
      table.buffer.ChangesOnly (insertion.attempt table state).1.table.buffer
        (binding.valueSpan slot).positions ∧
      table.buffer.ChangesOnly (table.serve (.put insertion write) state).table.buffer
        (binding.valueSpan slot).positions
  update : ∀ (key : shape.Key) (write : shape.Value → shape.Value),
    (∀ slot, table.HoldsAt slot key →
      table.buffer.ChangesOnly (table.update key write).2.buffer
        (binding.valueSpan slot).positions) ∧
    (¬table.Has key → (table.update key write).2 = table)
  /-- The tag of a key that is taken out was not zero before, and is zero afterwards. -/
  remove : ∀ key : shape.Key,
    (∀ slot, table.HoldsAt slot key →
      table.buffer.slotTag slot ≠ Tag.empty ∧
        (table.remove key).2.buffer.slotTag slot = Tag.empty ∧
        table.buffer.ChangesOnly (table.remove key).2.buffer {binding.slotPosition slot}) ∧
    (¬table.Has key → (table.remove key).2 = table)
  /-- The same through the number of the slot. -/
  atSlot : ∀ slot, table.buffer.isOccupied slot = true →
    (∀ value, table.buffer.ChangesOnly (table.setValue slot value).buffer
      (binding.valueSpan slot).positions) ∧
    (table.removeSlot slot).2.buffer.slotTag slot = Tag.empty ∧
    table.buffer.ChangesOnly (table.removeSlot slot).2.buffer {binding.slotPosition slot}
  /-- A pass shows slots that hold an element, and frees those that its visitor drops. It may have
  been abandoned. -/
  retain : ∀ {σ : Type} (visit : Visitor shape σ) (state : σ),
    table.buffer.ChangesOnly (table.retain visit state).table.buffer
      (binding.visited (table.shown visit state)) ∧
    ∀ slot verdict, (slot, verdict) ∈ table.shown visit state →
      table.buffer.isOccupied slot = true ∧
        (verdict = .drop → (table.retain visit state).table.buffer.slotTag slot = Tag.empty)
  revise : ∀ change, table.buffer.ChangesOnly (table.updateValues change).buffer
    {i | ∃ slot, table.buffer.isOccupied slot = true ∧ i ∈ (binding.valueSpan slot).positions}
  /-- A request about one key leaves alone the tag, the key and the value of every slot that does
  not hold this key, unless the slot is free and gets the key. -/
  others : ∀ {σ : Type} (request : Request shape σ) (key : shape.Key), request.key? = some key →
    ∀ (state : σ) (slot : binding.Slot), ¬table.HoldsAt slot key →
      table.buffer.isOccupied slot = true ∨ ¬(table.serve request state).table.HoldsAt slot key →
      table.buffer.SameSlot (table.serve request state).table.buffer slot

namespace Sound

theorem remove_others (sound : table.Sound) {key : shape.Key} {slot : binding.Slot}
    (before : ¬table.HoldsAt slot key) :
    table.buffer.SameSlot (table.remove key).2.buffer slot := by
  rcases sound.find_cases key with ⟨other, held, same, -⟩ | ⟨absent, -⟩
  · have apart : slot ≠ other := fun equal => before (equal ▸ ⟨held, same⟩)
    rw [sound.remove_present held same]
    exact .release table.buffer apart
  · rw [sound.remove_absent absent]
    exact .refl _ _

theorem put_others (sound : table.Sound) (insertion : Insertion shape σ)
    (write : shape.Value → shape.Value) (state : σ) {slot : binding.Slot}
    (before : ¬table.HoldsAt slot insertion.key)
    (after : table.buffer.isOccupied slot = true ∨
      ¬(table.serve (.put insertion write) state).table.HoldsAt slot insertion.key) :
    table.buffer.SameSlot (table.serve (.put insertion write) state).table.buffer slot := by
  rcases sound.key_cases insertion.key with
    ⟨other, held, same⟩ | ⟨absent, room, other, lands⟩ | ⟨absent, full⟩
  · have apart : slot ≠ other := fun equal => before (equal ▸ ⟨held, same⟩)
    rw [sound.serve_put_present held same]
    exact .setValue table.buffer apart _
  · rw [sound.serve_put_absent absent room lands] at after ⊢
    have apart : slot ≠ other := by
      rintro rfl
      rcases after with occupied | missing
      · rw [isOccupied_landing lands] at occupied
        exact Bool.false_ne_true occupied
      · exact missing ⟨(Buffer.isOccupied_occupy _ _ _ _ _ _).2 (Or.inl rfl),
          (Buffer.key_occupy _ _ _ _ _ _).trans (if_pos rfl)⟩
    exact .of_changesOnly (place_changesOnly lands _ _)
      (Binding.slotPosition_not_mem_newElement apart _)
      (Binding.elementSpan_disjoint_newElement apart _)
  · rw [sound.serve_put_full absent full]
    exact .refl _ _

theorem update_others (sound : table.Sound) {key : shape.Key} {slot : binding.Slot}
    (before : ¬table.HoldsAt slot key) (write : shape.Value → shape.Value) :
    table.buffer.SameSlot (table.update key write).2.buffer slot := by
  rcases sound.find_cases key with ⟨other, held, same, -⟩ | ⟨absent, -⟩
  · have apart : slot ≠ other := fun equal => before (equal ▸ ⟨held, same⟩)
    rw [sound.update_present held same]
    exact .setValue table.buffer apart _
  · rw [sound.update_absent absent]
    exact .refl _ _

theorem serve_others (sound : table.Sound) (request : Request shape σ) {key : shape.Key}
    (single : request.key? = some key) (state : σ) (slot : binding.Slot)
    (before : ¬table.HoldsAt slot key)
    (after : table.buffer.isOccupied slot = true ∨
      ¬(table.serve request state).table.HoldsAt slot key) :
    table.buffer.SameSlot (table.serve request state).table.buffer slot := by
  cases request with
  | put insertion write =>
    cases single
    exact sound.put_others insertion write state before after
  | update key write =>
    cases single
    exact sound.update_others before write
  | erase key | remove key | removeEntry key =>
    cases single
    exact sound.remove_others before
  | get key | getEntry key | contains key | require key => exact .refl _ _
  | retain judge => cases single
  | extend pairs => cases single
  | revise change => cases single
  | clear => cases single
  | size => cases single
  | list => cases single

theorem slotTag_release_self (buffer : Buffer binding) (slot : binding.Slot) :
    (buffer.release slot).slotTag slot = Tag.empty :=
  (Buffer.slotTag_setTag buffer slot slot Tag.empty).trans (if_pos rfl)

theorem newKey_changesOnly (sound : table.Sound) (insertion : Insertion shape σ)
    (write : shape.Value → shape.Value) (state : σ) (absent : ¬table.Has insertion.key)
    (room : table.size < table.maxLoad) :
    ∃ slot, table.buffer.slotTag slot = Tag.empty ∧
      (insertion.attempt table state).1.outcome = .ok ⟨slot, (insertion.offer state).1, true⟩ ∧
      table.buffer.ChangesOnly (insertion.attempt table state).1.table.buffer
        (binding.newElement (table.hash insertion.key) slot) ∧
      table.buffer.ChangesOnly (table.serve (.put insertion write) state).table.buffer
        (binding.newElement (table.hash insertion.key) slot) := by
  obtain ⟨slot, lands⟩ := Option.isSome_iff_exists.1
    (sound.landing?_isSome room (table.hash insertion.key))
  rw [sound.attempt_absent absent room lands, sound.serve_put_absent absent room lands]
  have free := (Buffer.landing?_eq_some lands).1
  exact ⟨slot, free, rfl, place_changesOnly lands _ _, place_changesOnly lands _ _⟩

theorem footprints (sound : table.Sound) : table.Footprints where
  clear := .reset table.buffer
  newKey insertion write state := sound.newKey_changesOnly insertion write state
  refused insertion write state absent full := by
    rw [sound.attempt_full absent full, sound.serve_put_full absent full]
    exact ⟨rfl, rfl⟩
  presentKey insertion write state slot holds := by
    rw [sound.attempt_present holds.1 holds.2, sound.serve_put_present holds.1 holds.2]
    refine ⟨fun keeps => ?_, .setValue _ slot _, .setValue _ slot _⟩
    rw [keeps]
    exact table.setValue_value slot
  update key write := by
    constructor
    · intro slot holds
      rw [sound.update_present holds.1 holds.2]
      exact .setValue _ slot _
    · intro absent
      rw [sound.update_absent absent]
  remove key := by
    constructor
    · intro slot holds
      rw [sound.remove_present holds.1 holds.2]
      exact ⟨slotTag_ne_empty holds.1, slotTag_release_self _ slot, .release _ slot⟩
    · intro absent
      rw [sound.remove_absent absent]
  atSlot slot _ :=
    ⟨fun value => .setValue _ slot value, slotTag_release_self _ slot, .release _ slot⟩
  retain visit state := by
    constructor
    · exact Sweep.run_changesOnly visit binding.allSlots table.buffer 0 state
    · intro slot verdict member
      refine ⟨(Sweep.of_mem_shown binding.allSlots_nodup member).2, ?_⟩
      rintro rfl
      exact Sweep.slotTag_of_dropped binding.allSlots_nodup 0 member
  revise change := table.updateValues_changesOnly change
  others request _ single state slot := sound.serve_others request single state slot

end Sound

end Table

namespace Mounted

/-- Creating a table writes to the region of the groups only, and puts the sentinel there. -/
theorem byte?_create {width : Width} {geometry : Geometry} {region : Region}
    {hash : shape.Key → UInt64} {factor : LoadFactor} {opened : Mounted shape}
    (created : create width geometry region hash factor = .ok opened) :
    (∀ i, i ∉ opened.binding.groupRegion → opened.byte? i = region.bytes[i]?) ∧
      opened.byte? opened.binding.sentinelPosition = some Tag.sentinel := by
  obtain ⟨binding, -, rfl⟩ := exists_of_create created
  constructor
  · intro i outside
    have kept := Buffer.ChangesOnly.reset (Buffer.mk region.bytes.toVector : Buffer binding)
    exact (kept.getElem? outside).trans Vector.getElem?_toArray.symm
  · rw [byte?_sentinel]
    exact congrArg some ((Buffer.tag_reset _ _ _).trans (if_pos ⟨rfl, rfl⟩))

theorem run_others {mounted : Mounted shape} (sound : mounted.table.Sound) {key : shape.Key}
    {slot : mounted.binding.Slot} (holds : mounted.table.HoldsAt slot key)
    {requests : List (Request shape σ)}
    (other : ∀ request ∈ requests, ∃ key', request.key? = some key' ∧ key' ≠ key) (state : σ) :
    ∃ after : Table mounted.binding,
      (mounted.run (requests.map .ask) state).1 = ⟨mounted.binding, after⟩ ∧
        mounted.table.buffer.SameSlot after.buffer slot := by
  obtain ⟨binding, table⟩ := mounted
  dsimp only at sound slot holds ⊢
  induction requests generalizing table state with
  | nil => exact ⟨table, rfl, .refl _ _⟩
  | cons request rest ih =>
    obtain ⟨⟨key', single, differs⟩, others⟩ := List.forall_mem_cons.1 other
    have elsewhere : ¬table.HoldsAt slot key' := fun here => differs (here.2.symm.trans holds.2)
    have same := sound.serve_others request single state slot elsewhere (Or.inl holds.1)
    obtain ⟨after, left, further⟩ := ih others (table.serve request state).state
      (table.serve request state).table (sound.serve request state) (holds.of_sameSlot same)
    exact ⟨after, left, same.trans further⟩

/-- The footprint of a table. Creating it writes to the region of the groups; every operation on a
table in use keeps to its own positions; and through every session, abandoned passes included, the
padding keeps what the caller's region held, the sentinel stays, the bytes behind the table stay as
long as it is not moved, and an element stays through all requests about other keys. -/
theorem write_footprint {width : Width} {geometry : Geometry} {region : Region}
    {hash : shape.Key → UInt64} {factor : LoadFactor} {opened : Mounted shape}
    (created : create width geometry region hash factor = .ok opened) :
    (∀ i, i ∉ opened.binding.groupRegion → opened.byte? i = region.bytes[i]?) ∧
    (∀ {σ : Type} (steps : List (Step shape σ)) (state : σ),
      let last := (opened.follow steps state).1
      (∀ i, opened.binding.Padding i → last.byte? i = region.bytes[i]?) ∧
      last.byte? opened.binding.sentinelPosition = some Tag.sentinel ∧
      ((∀ step ∈ steps, step.InPlace) →
        ∀ i, opened.binding.size ≤ i → last.byte? i = region.bytes[i]?)) ∧
    ∀ mounted : Mounted shape, mounted.Reachable →
      mounted.table.Footprints ∧
      ∀ (key : shape.Key) (slot : mounted.binding.Slot), mounted.table.HoldsAt slot key →
        ∀ {σ : Type} (requests : List (Request shape σ)) (state : σ),
          (∀ request ∈ requests, ∃ key', request.key? = some key' ∧ key' ≠ key) →
          ∃ after : Table mounted.binding,
            (mounted.run (requests.map .ask) state).1 = ⟨mounted.binding, after⟩ ∧
              mounted.table.buffer.SameSlot after.buffer slot := by
  obtain ⟨given, sentinel⟩ := byte?_create created
  refine ⟨given, ?_, ?_⟩
  · intro σ steps state last
    have spares := opened.follow_spares steps state
    have outside {i : Nat} (dead : i ∉ opened.binding.Live) : i ∉ opened.binding.groupRegion :=
      fun inGroups => dead (Or.inl inGroups)
    refine ⟨?_, ?_, ?_⟩
    · intro i padding
      calc
        last.byte? i = opened.byte? i := (spares.padding i padding).2
        _ = region.bytes[i]? := given i (outside (Binding.not_live_of_padding padding))
    · rw [← spares.position]
      exact spares.sentinel sentinel
    · intro inPlace i behind
      have dead := Binding.not_live_of_behind behind
      obtain ⟨after, left, writes⟩ := opened.follow_writes inPlace state
      calc
        last.byte? i = byte? ⟨opened.binding, after⟩ i := congrArg (byte? · i) left
        _ = opened.byte? i := writes.changesOnly.getElem? dead
        _ = region.bytes[i]? := given i (outside dead)
  · intro mounted reachable
    refine ⟨reachable.sound.footprints, ?_⟩
    intro key slot holds σ requests state other
    exact run_others reachable.sound holds other state

end Mounted

/-! ### A padded table over stale bytes -/

def Region.stale : Region := ⟨48, Array.replicate 120 0xAA⟩

def Mounted.stale : Mounted Shape.padded :=
  ⟨(Binding.padded : Binding Shape.padded Region.stale.bytes.size),
    Table.create Binding.padded Region.stale.bytes.toVector Shape.byteHash .standard⟩

set_option maxRecDepth 2000 in
theorem Mounted.create_stale :
    create .narrow ⟨63, 1⟩ Region.stale Shape.byteHash .standard = .ok stale := rfl

set_option maxRecDepth 2000 in
/-- A key is inserted, a pass is abandoned, and the table starts over. The sixth byte is the first
one of the padding between the regions, and the thirty-third is the first one behind a value. An
inserted key stays in the first slot while another key is inserted and taken out. -/
theorem Mounted.stale_footprint :
    let insert (byte : UInt8) : Request Shape.padded Unit :=
      .put (.first (Vector.replicate 16 byte) #v[byte]) id
    let steps := [.act (.ask (insert 1)), .filter fun _ _ value => (.abandon, value, ()),
      .act (.ask .clear)]
    let last := (stale.follow steps ()).1
    let one := (stale.act (.ask (insert 1)) ()).mounted
    create .narrow ⟨63, 1⟩ Region.stale Shape.byteHash .standard = .ok stale ∧
    (last.byte? 6 = some 0xAA ∧ last.byte? 33 = some 0xAA ∧ last.byte? 112 = some 0xAA ∧
      last.byte? 4 = some 1) ∧
    one.Reachable ∧ one.table.Footprints ∧
    ∃ after : Table one.binding,
      (one.run ([insert 2, .remove (Vector.replicate 16 2)].map .ask) ()).1 = ⟨one.binding, after⟩ ∧
        one.table.buffer.SameSlot after.buffer ⟨0, by decide⟩ := by
  intro insert steps last one
  obtain ⟨-, sessions, reachable⟩ := write_footprint create_stale
  obtain ⟨padding, sentinel, behind⟩ := sessions steps ()
  have between : stale.binding.Padding 6 := .between (by decide) (by decide)
  have inside : stale.binding.Padding 33 :=
    .inside ⟨0, by decide⟩ ⟨by decide, by decide⟩ (fun key => absurd key.2 (by decide))
      fun value => absurd value.2 (by decide)
  have inPlace : ∀ step ∈ steps, step.InPlace := by
    simp only [steps, List.forall_mem_cons]
    exact ⟨trivial, trivial, trivial, nofun⟩
  have inUse : one.Reachable := .act (.create create_stale) (.ask (insert 1)) ()
  obtain ⟨footprints, stays⟩ := reachable one inUse
  have holds : one.table.HoldsAt ⟨0, by decide⟩ (Vector.replicate 16 1) := by
    constructor
    · decide +kernel
    · exact Vector.toArray_inj.1 (by decide +kernel)
  have apart : (Vector.replicate 16 2 : Vector UInt8 16) ≠ Vector.replicate 16 1 := by decide
  refine ⟨create_stale, ⟨padding 6 between, padding 33 inside, behind inPlace 112 (by decide),
    sentinel⟩, inUse, footprints, stays _ _ holds _ () ?_⟩
  simp only [List.forall_mem_cons]
  exact ⟨⟨_, rfl, apart⟩, ⟨_, rfl, apart⟩, nofun⟩

end PackedTable
