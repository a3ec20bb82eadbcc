import PackedTable.Proofs.Filtering
import PackedTable.Proofs.Iteration

/-!
What an abandoned filtering pass leaves behind. The pass frees the slot of an element as soon as its
visitor drops it, and subtracts what it has dropped from the size when it is through; if it never
is, the size goes on counting these elements. No later operation makes up for them, until the table
is cleared. New keys are refused, and iterators announce elements, as if they were still there.
-/

namespace PackedTable

variable {shape : Shape} {length length' : Nat} {binding : Binding shape length}
  {site : binding.Site length'} {σ : Type}

namespace Table

variable {table : Table binding} {lag : Nat}

/-- The size counts so many elements that are not there. -/
def Overcounts (table : Table binding) (lag : Nat) : Prop :=
  table.size = table.buffer.occupied.card + lag

theorem Sound.overcounts (sound : table.Sound) : table.Overcounts 0 := sound.counted.symm

namespace Overcounts

/-! ### Changes that keep the difference -/

theorem setValue (counts : table.Overcounts lag) (slot : binding.Slot) (value : shape.Value) :
    (table.setValue slot value).Overcounts lag := by
  unfold Overcounts
  rw [Table.setValue, Buffer.occupied_setValue]
  exact counts

theorem removeSlot (counts : table.Overcounts lag) (ordered : table.InOrder) {slot : binding.Slot}
    (held : table.buffer.isOccupied slot = true) : (table.removeSlot slot).2.Overcounts lag := by
  have member := Buffer.mem_occupied.2 held
  have card := Finset.card_erase_add_one member
  unfold Overcounts at counts ⊢
  have exact := Word.sub_eq (show 1 ≤ table.size by omega) ordered.size_lt_limit
  change Word.sub table.size 1 = (table.buffer.release slot).occupied.card + lag
  rw [Buffer.occupied_release]
  omega

theorem attempt (counts : table.Overcounts lag) (insertion : Insertion shape σ) (state : σ) :
    (insertion.attempt table state).1.table.Overcounts lag := by
  rcases table.attempt_cases insertion state with
    ⟨slot, -, comes⟩ | ⟨-, -, comes⟩ | ⟨slot, -, -, lands, comes⟩ | ⟨-, -, -, comes⟩
  · rw [comes]
    exact counts.setValue slot _
  · rw [comes]
    exact counts
  · have fresh : slot ∉ table.buffer.occupied := by
      rw [Buffer.mem_occupied, isOccupied_landing lands]
      exact Bool.false_ne_true
    have card := Finset.card_insert_of_notMem fresh
    unfold Overcounts at counts ⊢
    rw [comes, place, Buffer.occupied_occupy, Buffer.occupied_markAll]
    change table.size + 1 = _
    omega
  · unfold Overcounts at counts ⊢
    rw [comes, exhaust, Buffer.occupied_markAll]
    exact counts

theorem moved (counts : table.Overcounts lag) {right : Table site.binding} {maxLoad : Nat}
    (alike : (table.withThreshold maxLoad).Alike right) : right.Overcounts lag := by
  have occupied : right.buffer.occupied.card = table.buffer.occupied.card :=
    congrArg Finset.card alike.buffer.occupied
  have size : right.size = table.size := alike.size
  unfold Overcounts
  rw [occupied, size]
  exact counts

/-! ### Changes that do not -/

theorem clear (table : Table binding) : table.clear.Overcounts 0 := by
  change 0 = table.buffer.reset.occupied.card + 0
  rw [Buffer.occupied_reset, Finset.card_empty]

/-- A pass that comes to its end counts what it drops, and one that is abandoned does not. -/
theorem retain (counts : table.Overcounts lag) (ordered : table.InOrder) (visit : Visitor shape σ)
    (state : σ) :
    (table.retain visit state).table.Overcounts
      (if (table.hearing visit state).finished then lag
      else lag + (table.hearing visit state).dropped) := by
  have total := table.sweep_total visit state
  have ended := (table.sweep_follows visit state).finished
  rw [dropped_sweep] at total
  unfold Overcounts at counts ⊢
  change _ = (table.sweep visit state).buffer.occupied.card + _
  split
  case isTrue finished =>
    have fits : (table.sweep visit state).dropped ≤ table.size := by
      rw [dropped_sweep]
      omega
    rw [size_retain ordered (ended.trans finished) fits, dropped_sweep]
    omega
  case isFalse abandoned =>
    rw [size_retain_of_abandoned fun finished => abandoned (ended.symm.trans finished)]
    omega

end Overcounts

end Table

/-- The number of elements that the size counts and that are not there, after a request. -/
def Request.overdue (lag : Nat) : Request shape σ → Nat
  | .clear => 0
  | _ => lag

theorem Table.Overcounts.serve {table : Table binding} {lag : Nat} (counts : table.Overcounts lag)
    (ordered : table.InOrder) (request : Request shape σ) (state : σ) :
    (table.serve request state).table.Overcounts (request.overdue lag) := by
  have kept : request ≠ .clear → (table.serve request state).table.Overcounts lag := by
    intro other
    refine serve_keeps (·.Overcounts lag) ?_ ?_ counts request state ?_ ?_ ?_
    · intro before slot value counts
      exact counts.setValue slot value
    · intro τ before insertion state counts
      exact counts.attempt insertion state
    · intro key _
      exact remove_keeps (·.Overcounts lag) counts key fun slot found =>
        counts.removeSlot ordered (find_sound found).2.1
    · intro judge _
      have swept := counts.retain ordered (Visitor.ofJudge judge) state
      have finished := (Visitor.hear_ofJudge judge table.buffer.elements state).1
      rw [hearing, if_pos finished] at swept
      exact swept
    · intro clears
      exact absurd clears other
  cases request with
  | clear => exact .clear table
  | _ => exact kept (by simp)

namespace Mounted

/-- The number of elements that the size counts and that are not there, after a step: clearing the
table forgets them, and a pass that is abandoned adds those that it has dropped. -/
def overdue (mounted : Mounted shape) (lag : Nat) : Step shape σ → σ → Nat
  | .act (.ask request), _ => request.overdue lag
  | .act _, _ => lag
  | .filter visit, state =>
    let hearing := mounted.table.hearing visit state
    if hearing.finished then lag else lag + hearing.dropped

/-- The same after a whole session. -/
def overdueAfter (mounted : Mounted shape) (lag : Nat) : List (Step shape σ) → σ → Nat
  | [], _ => lag
  | step :: rest, state =>
    let turn := mounted.step step state
    turn.mounted.overdueAfter (mounted.overdue lag step state) rest turn.state

theorem overcounts_step {mounted : Mounted shape} {lag : Nat}
    (counts : mounted.table.Overcounts lag) (ordered : mounted.table.InOrder)
    (step : Step shape σ) (state : σ) :
    (mounted.step step state).mounted.table.Overcounts (mounted.overdue lag step state) := by
  have kept (action : Action shape σ) (other : ∀ request, action ≠ .ask request) :
      (mounted.act action state).mounted.table.Overcounts lag := by
    apply act_keeps (·.table.Overcounts lag) counts action state
    · intro request asks
      exact absurd asks (other request)
    · intro slot value
      exact counts.setValue slot value
    · intro number slot _ named
      exact counts.removeSlot ordered (Table.held?_eq_some named).1
    · intro address rest maxLoad aligned _
      exact counts.moved (alike_copyAt (mounted.extract_append_used rest) _ maxLoad)
  cases step with
  | filter visit => exact counts.retain ordered visit state
  | act action =>
    cases action with
    | ask request => exact counts.serve ordered request state
    | _ => exact kept _ (by simp)

theorem overcounts_follow {mounted : Mounted shape} {lag : Nat}
    (counts : mounted.table.Overcounts lag) (searchable : mounted.table.Searchable)
    (steps : List (Step shape σ)) (state : σ) :
    (mounted.follow steps state).1.table.Overcounts (mounted.overdueAfter lag steps state) := by
  induction steps generalizing mounted lag state with
  | nil => exact counts
  | cons step rest ih =>
    exact ih (overcounts_step counts searchable.ordered step state)
      (searchable_step searchable step state) _

end Mounted

/-! ### What comes of it -/

/-- A table whose size counts so many elements that are not there. It has room for so many fewer,
and its iterators announce so many more. -/
structure Table.Lags (table : Table binding) (lag : Nat) : Prop where
  size : table.size = table.buffer.elements.length + lag
  accepts : ∀ {σ : Type} (insertion : Insertion shape σ) (state : σ), ¬table.Has insertion.key →
    table.buffer.elements.length + lag < table.maxLoad →
    ∃ slot, (insertion.attempt table state).1.outcome = .ok ⟨slot, (insertion.offer state).1, true⟩
  refuses : ∀ {σ : Type} (insertion : Insertion shape σ) (state : σ), ¬table.Has insertion.key →
    ¬table.buffer.elements.length + lag < table.maxLoad →
    (insertion.attempt table state).1 = ⟨table, .error (.tableFull table.size table.maxLoad)⟩
  announces : ∃ walk, (Traversal.iter binding).start table.size = .ok walk ∧
    walk.sizeHint = (table.buffer.elements.length + lag, some (table.buffer.elements.length + lag))
  yields : table.elementSlots = table.buffer.elements.map Element.slot

theorem Table.Searchable.lags {table : Table binding} (searchable : table.Searchable) {lag : Nat}
    (counts : table.Overcounts lag) : table.Lags lag := by
  have size : table.size = table.buffer.elements.length + lag := by
    rw [length_elements]
    exact counts
  refine
    { size
      accepts := fun insertion state absent room => ?_
      refuses := fun insertion state absent full => ?_
      announces := ⟨_, Traversal.start_eq (Traversal.reaches_iter binding) table, ?_⟩
      yields := ?_ }
  · rw [← size] at room
    obtain ⟨slot, lands⟩ := Option.isSome_iff_exists.1
      (searchable.landing?_isSome room (table.hash insertion.key))
    have missed := searchable.findWithHash_eq_none.2 absent
    exact ⟨slot, by rw [attempt_of_landing missed room lands]⟩
  · rw [← size] at full
    rw [attempt_of_full (searchable.findWithHash_eq_none.2 absent) full]
  · rw [← size]
    rfl
  · rw [elementSlots, Cursor.rest, cursor, Buffer.slots_elements]
    refine List.take_of_length_le ?_
    rw [← Buffer.slots_elements, List.length_map]
    exact Nat.le.intro size.symm

namespace Mounted

/-- A pass that is abandoned leaves the size as it is, and the elements without those that it has
dropped: the size is the number of the elements if and only if there are none of these. From then
on, as after any session, the size counts what abandoned passes have dropped since the table was
cleared. -/
theorem Reachable.overcount {mounted : Mounted shape} (reachable : mounted.Reachable) :
    (∀ {σ : Type} (visit : Visitor shape σ) (state : σ),
      let hearing := mounted.table.hearing visit state
      let retention := mounted.table.retain visit state
      retention.finished = hearing.finished ∧
      (hearing.finished = false →
        retention.table.buffer.elements = hearing.remaining mounted.table.buffer.elements ∧
        retention.table.size = mounted.table.size ∧ retention.table.Lags hearing.dropped ∧
        (retention.table.size = retention.table.buffer.elements.length ↔ hearing.dropped = 0))) ∧
    ∀ {σ : Type} (steps : List (Step shape σ)) (state : σ),
      (mounted.follow steps state).1.table.Lags (mounted.overdueAfter 0 steps state) := by
  have searchable := reachable.attained.searchable
  have counts := reachable.sound.overcounts
  constructor
  · intro σ visit state
    refine ⟨mounted.table.finished_retain visit state, fun abandoned => ?_⟩
    have after := counts.retain searchable.ordered visit state
    rw [abandoned, if_neg Bool.false_ne_true, Nat.zero_add] at after
    have lags := (searchable.retain visit state).lags after
    refine ⟨mounted.table.elements_retain visit state, ?_, lags, ?_⟩
    · refine Table.size_retain_of_abandoned ?_
      rw [(mounted.table.sweep_follows visit state).finished, abandoned]
      exact Bool.false_ne_true
    · have size := lags.size
      omega
  · intro σ steps state
    exact (searchable_follow searchable steps state).lags
      (overcounts_follow counts searchable steps state)

/-- A visitor that drops the first key and abandons the pass at the next one. -/
def deserter : Visitor Shape.bytes Unit := fun _ key value =>
  (if key = Shape.byteKey 1 then .drop else .abandon, value, ())

/-- The filled table loses its first element, and then one that is counted. -/
theorem filled_overcount :
    let steps := [.filter deserter, .act (.ask (.erase (Shape.byteKey 2)))]
    let last := (filled.follow steps ()).1
    filled.Reachable ∧ (filled.table.hearing deserter ()).finished = false ∧
      (filled.table.hearing deserter ()).dropped = 1 ∧
      deserted.table.Lags 1 ∧ deserted.table.size ≠ deserted.table.buffer.elements.length ∧
      last.table.Lags 1 ∧ last.table.size = 2 := by
  intro steps last
  have abandoned : (filled.table.hearing deserter ()).finished = false := by decide +kernel
  have dropped : (filled.table.hearing deserter ()).dropped = 1 := by decide +kernel
  obtain ⟨passes, sessions⟩ := reachable_filled.overcount
  obtain ⟨-, -, lags, counted⟩ := (passes deserter ()).2 abandoned
  rw [dropped] at lags counted
  have overdue : filled.overdueAfter 0 steps () = 1 := by decide +kernel
  have later := sessions steps ()
  rw [overdue] at later
  have differs : deserted.table.size ≠ deserted.table.buffer.elements.length :=
    fun same => absurd (counted.1 same) (by decide)
  exact ⟨reachable_filled, abandoned, dropped, lags, differs, later, by decide +kernel⟩

/-- Two elements are left in a table with room for three, which says that it has three: a key that
is absent is refused, and the iterator announces an element that it does not yield. The same bytes
with the size brought up to date, as erasing the first key leaves them, take the key. -/
theorem deserted_overcount :
    let insert (table : Table filled.binding) :=
      table.insert (Shape.byteKey 4) (Shape.byteValue 40)
    filled.Reachable ∧ (filled.step (.filter deserter) ()).mounted = deserted ∧
    (deserted.table.size = 3 ∧ deserted.table.buffer.occupied.card = 2 ∧
      deserted.table.maxLoad = 3 ∧ ¬deserted.table.Has (Shape.byteKey 4)) ∧
    (insert deserted.table).outcome = .error (.tableFull 3 3) ∧
    ((Traversal.iter deserted.binding).start deserted.table.size = .ok deserted.table.cursor.walk ∧
      deserted.table.cursor.walk.sizeHint = (3, some 3) ∧ deserted.table.entries.length = 2) ∧
    thinned.table.buffer.used = deserted.table.buffer.used ∧ thinned.table.size = 2 ∧
      (insert thinned.table).outcome = .ok (⟨0, by decide⟩, true) := by
  refine ⟨reachable_filled, rfl, by decide +kernel, by decide +kernel, ⟨?_, by decide +kernel⟩,
    by decide +kernel⟩
  exact Traversal.start_eq (Traversal.reaches_iter _) deserted.table

end Mounted

end PackedTable
