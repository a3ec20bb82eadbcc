import PackedTable.Proofs.Reachability

/-!
A session in which visitors may abandon a filtering pass, and what its steps do to the bytes. The
size of an abandoned table is not brought up to date, so the invariant of tables in use does not
hold any more; nothing here asks for it. Most requests come down to writing values and inserting
keys, so a property that these keep has to be looked at only where something is taken out. Each step
that stays where the table is comes down to a run of writes, and there are only five ways to write.
-/

namespace PackedTable

variable {shape : Shape} {length : Nat} {binding : Binding shape length} {σ : Type}

theorem Table.extend_cons (table : Table binding) (key : shape.Key) (value : shape.Value)
    (rest : List (shape.Key × shape.Value)) :
    table.extend ((key, value) :: rest) =
      match (table.insertNew key value).outcome with
      | .ok _ => (table.insertNew key value).table.extend rest
      | .error fault => ⟨(table.insertNew key value).table, .error fault⟩ := by
  unfold insertNew Attempt.stored
  rw [extend]
  cases (table.insert key value).outcome with
  | ok _ => rfl
  | error fault => rfl

theorem Table.isOccupied_of_mem_elementSlots {table : Table binding} {slot : binding.Slot}
    (member : slot ∈ table.elementSlots) : table.buffer.isOccupied slot = true :=
  (List.mem_filter.1 (List.mem_of_mem_take member)).2

/-! ### What requests keep -/

/-- Gives the element of a slot its new value. -/
def Table.revise (change : shape.Key → shape.Value → shape.Value) (table : Table binding)
    (slot : binding.Slot) : Table binding :=
  table.setValue slot (change (table.buffer.key slot) (table.buffer.value slot))

theorem Table.updateValues_eq_foldl (table : Table binding)
    (change : shape.Key → shape.Value → shape.Value) :
    table.updateValues change = table.elementSlots.foldl (revise change) table := rfl

def Request.Takes (key : shape.Key) : Request shape σ → Prop
  | .erase other | .remove other | .removeEntry other => other = key
  | _ => False

namespace Table

section

variable (holds : Table binding → Prop) {table : Table binding}

theorem extend_keeps
    (insertNew : ∀ {table} key value, holds table → holds (table.insertNew key value).table)
    (begins : holds table) (pairs : List (shape.Key × shape.Value)) :
    holds (table.extend pairs).table := by
  induction pairs generalizing table with
  | nil => exact begins
  | cons pair rest ih =>
    obtain ⟨key, value⟩ := pair
    have first := insertNew key value begins
    rw [extend_cons]
    cases (table.insertNew key value).outcome with
    | ok _ => exact ih first
    | error fault => exact first

theorem remove_keeps (begins : holds table) (key : shape.Key)
    (removeSlot : ∀ slot, table.find key = some slot → holds (table.removeSlot slot).2) :
    holds (table.remove key).2 := by
  cases found : table.find key with
  | some slot =>
    rw [remove_of_found found]
    exact removeSlot slot found
  | none =>
    rw [remove_of_missed found]
    exact begins

variable (setValue : ∀ {table} slot value, holds table → holds (table.setValue slot value))
include setValue

theorem update_keeps (begins : holds table) (key : shape.Key)
    (write : shape.Value → shape.Value) : holds (table.update key write).2 := by
  cases found : table.find key with
  | some slot =>
    rw [update_of_found found]
    exact setValue slot _ begins
  | none =>
    rw [update_of_missed found]
    exact begins

theorem written_keeps {attempt : Attempt binding (Stored binding)} (tried : holds attempt.table)
    (write : shape.Value → shape.Value) : holds (attempt.written write) := by
  unfold Attempt.written
  cases attempt.outcome with
  | ok stored => exact setValue stored.slot _ tried
  | error fault => exact tried

theorem updateValues_keeps (begins : holds table)
    (change : shape.Key → shape.Value → shape.Value) : holds (table.updateValues change) := by
  rw [updateValues_eq_foldl]
  generalize table.elementSlots = slots
  induction slots generalizing table with
  | nil => exact begins
  | cons slot rest ih => exact ih (setValue slot _ begins)

/-- What writing a value and inserting a key keep, and taking out, filtering and clearing as far as
the request asks for them, the request keeps. -/
theorem serve_keeps
    (attempt : ∀ {τ : Type} {table} (insertion : Insertion shape τ) state,
      holds table → holds (insertion.attempt table state).1.table)
    (begins : holds table) (request : Request shape σ) (state : σ)
    (remove : ∀ key, request.Takes key → holds (table.remove key).2)
    (retain : ∀ judge, request = .retain judge →
      holds (table.retain (Visitor.ofJudge judge) state).table)
    (clear : request = .clear → holds table.clear) :
    holds (table.serve request state).table := by
  cases request with
  | put insertion write => exact written_keeps holds setValue (attempt insertion state begins) write
  | update key write => exact update_keeps holds setValue begins key write
  | erase key => exact remove key rfl
  | remove key => exact remove key rfl
  | removeEntry key => exact remove key rfl
  | retain judge => exact retain judge rfl
  | extend pairs =>
    exact extend_keeps holds (fun key value =>
      attempt (.first key value : Insertion shape Unit) ()) begins pairs
  | revise change => exact updateValues_keeps holds setValue begins change
  | clear => exact clear rfl
  | get key => exact begins
  | getEntry key => exact begins
  | contains key => exact begins
  | require key => exact begins
  | size => exact begins
  | list => exact begins

end

end Table

/-! ### Writes -/

namespace Buffer

/-- One write: a value, the tag of a slot that is given up, overflow bits, a new element, or all
metadata when the table starts over. -/
inductive Write : Buffer binding → Buffer binding → Prop
  | setValue {buffer : Buffer binding} (slot : binding.Slot) (value : shape.Value) :
      Write buffer (buffer.setValue slot value)
  | release {buffer : Buffer binding} (slot : binding.Slot) : Write buffer (buffer.release slot)
  | markAll {buffer : Buffer binding} (hash : UInt64) (groups : List binding.GroupIndex) :
      Write buffer (buffer.markAll hash groups)
  | occupy {buffer : Buffer binding} (slot : binding.Slot) (hash : UInt64) (key : shape.Key)
      (value : shape.Value) : Write buffer (buffer.occupy slot hash key value)
  | reset {buffer : Buffer binding} : Write buffer buffer.reset

abbrev Writes : Buffer binding → Buffer binding → Prop := Relation.ReflTransGen Write

end Buffer

namespace Sweep

theorem writes (visit : Visitor shape σ) (slots : List binding.Slot) (buffer : Buffer binding)
    (dropped : Nat) (state : σ) : buffer.Writes (run visit slots buffer dropped state).buffer := by
  induction slots generalizing buffer dropped state with
  | nil => exact .refl
  | cons slot rest ih =>
    rw [run]
    split
    case isFalse => exact ih buffer dropped state
    case isTrue =>
      generalize visit state (buffer.key slot) (buffer.value slot) = decision
      obtain ⟨verdict, value, next⟩ := decision
      have shown : buffer.Writes (buffer.setValue slot value) := .single (.setValue slot value)
      cases verdict with
      | keep => exact shown.trans (ih _ dropped next)
      | drop => exact (shown.tail (.release slot)).trans (ih _ (dropped + 1) next)
      | abandon => exact shown

end Sweep

namespace Table

variable {table : Table binding}

theorem attempt_writes (table : Table binding) (insertion : Insertion shape σ) (state : σ) :
    table.buffer.Writes (insertion.attempt table state).1.table.buffer := by
  rcases table.attempt_cases insertion state with
    ⟨slot, -, comes⟩ | ⟨-, -, comes⟩ | ⟨slot, -, -, -, comes⟩ | ⟨-, -, -, comes⟩
  · rw [comes]
    exact .single (.setValue slot _)
  · rw [comes]
  · rw [comes]
    exact .tail (.single (.markAll _ _)) (.occupy slot _ _ _)
  · rw [comes]
    exact .single (.markAll _ _)

/-- Whatever is asked of a table, and whatever its bytes are, what happens to them is a run of
writes. -/
theorem serve_writes (table : Table binding) (request : Request shape σ) (state : σ) :
    table.buffer.Writes (table.serve request state).table.buffer := by
  refine serve_keeps (table.buffer.Writes ·.buffer) ?_ ?_ .refl request state ?_ ?_ ?_
  · intro before slot value writes
    exact writes.tail (.setValue slot value)
  · intro τ before insertion state writes
    exact writes.trans (before.attempt_writes insertion state)
  · intro key _
    exact remove_keeps (table.buffer.Writes ·.buffer) .refl key fun slot _ =>
      .single (.release slot)
  · intro judge _
    exact Sweep.writes _ _ _ _ _
  · intro _
    exact .single .reset

end Table

/-! ### Steps -/

/-- An action, or a filtering pass whose visitor may abandon it. -/
inductive Step (shape : Shape) (σ : Type) where
  | act (action : Action shape σ)
  | filter (visit : Visitor shape σ)

def Step.InPlace : Step shape σ → Prop
  | .act (.reopen ..) => False
  | _ => True

theorem Step.inPlace_or_reopen (step : Step shape σ) :
    step.InPlace ∨ ∃ address rest maxLoad, step = .act (.reopen address rest maxLoad) := by
  cases step with
  | filter visit => exact Or.inl trivial
  | act action =>
    cases action with
    | reopen address rest maxLoad => exact Or.inr ⟨address, rest, maxLoad, rfl⟩
    | _ => exact Or.inl trivial

namespace Mounted

/-- The reply to a pass tells whether its visitor saw every element. -/
def step (mounted : Mounted shape) : Step shape σ → σ → Turn shape σ
  | .act action, state => mounted.act action state
  | .filter visit, state =>
    let retention := mounted.table.retain visit state
    ⟨⟨mounted.binding, retention.table⟩, retention.state, .present retention.finished⟩

def follow (mounted : Mounted shape) :
    List (Step shape σ) → σ → Mounted shape × σ × List (Reply shape)
  | [], state => (mounted, state, [])
  | step :: rest, state =>
    let turn := mounted.step step state
    let (last, final, replies) := turn.mounted.follow rest turn.state
    (last, final, turn.reply :: replies)

theorem step_writes (mounted : Mounted shape) {step : Step shape σ} (inPlace : step.InPlace)
    (state : σ) :
    ∃ after : Table mounted.binding, (mounted.step step state).mounted = ⟨mounted.binding, after⟩ ∧
      mounted.table.buffer.Writes after.buffer := by
  cases step with
  | filter visit => exact ⟨_, rfl, Sweep.writes _ _ _ _ _⟩
  | act action =>
    simp only [Mounted.step]
    cases action with
    | ask request => exact ⟨_, rfl, mounted.table.serve_writes request state⟩
    | find key => exact ⟨_, rfl, .refl⟩
    | entryAt number => exact ⟨_, rfl, .refl⟩
    | updateAt number write =>
      simp only [act]
      split
      · exact ⟨_, rfl, .single (.setValue _ _)⟩
      · exact ⟨_, rfl, .refl⟩
    | removeAt number =>
      simp only [act]
      split
      · exact ⟨_, rfl, .single (.release _)⟩
      · exact ⟨_, rfl, .refl⟩
    | reopen address rest maxLoad => exact absurd inPlace id

end Mounted

end PackedTable
