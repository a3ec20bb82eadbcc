import PackedTable.Proofs.Containment
import PackedTable.Proofs.Invariant

/-!
The size control of a table over arbitrary bytes. Nobody has checked how many slots hold an element,
so there may be more of them or fewer than the size says. Every call but a filtering pass keeps the
size between zero and the threshold all the same, since it looks at the size before it changes it.
A pass counts what it drops and looks at nothing: it is exact for every visitor if, and only if, no
more slots hold an element than the size says.
-/

namespace PackedTable

variable {shape : Shape} {length : Nat} {binding : Binding shape length} {σ : Type}

/-- The calls that change the number of elements. -/
inductive Call (shape : Shape) (σ : Type) where
  | put (insertion : Insertion shape σ)
  | remove (key : shape.Key)
  | retain (visit : Visitor shape σ)
  | clear

namespace Sweep

/-- What a pass has dropped, and what it has left, add up to what was there. -/
theorem dropped_add_occupied (visit : Visitor shape σ) (slots : List binding.Slot)
    (buffer : Buffer binding) (dropped : Nat) (state : σ) :
    let sweep := run visit slots buffer dropped state
    sweep.dropped + sweep.buffer.occupied.card = dropped + buffer.occupied.card := by
  -- a visit leaves the sum as it is: a dropped slot goes from the second number to the first
  induction slots generalizing buffer dropped state with
  | nil => rfl
  | cons slot rest ih =>
    cases held : buffer.isOccupied slot with
    | false =>
      simp only [run, held, Bool.false_eq_true, ↓reduceIte]
      exact ih buffer dropped state
    | true =>
      have shown (value : shape.Value) :
          (buffer.setValue slot value).occupied.card = buffer.occupied.card := by
        rw [Buffer.occupied_setValue]
      have released (value : shape.Value) :
          ((buffer.setValue slot value).release slot).occupied.card + 1 =
            buffer.occupied.card := by
        rw [Buffer.occupied_release, Buffer.occupied_setValue]
        exact Finset.card_erase_add_one (Buffer.mem_occupied.2 held)
      simp only [run, held, ↓reduceIte]
      generalize visit state (buffer.key slot) (buffer.value slot) = decision
      obtain ⟨verdict, value, next⟩ := decision
      have kept := shown value
      have left := released value
      cases verdict with
      | keep =>
        have further := ih (buffer.setValue slot value) dropped next
        dsimp only at further ⊢
        omega
      | drop =>
        have further := ih ((buffer.setValue slot value).release slot) (dropped + 1) next
        dsimp only at further ⊢
        omega
      | abandon =>
        dsimp only
        omega

end Sweep

namespace Table

/-- The size control is in order. -/
structure InOrder (table : Table binding) : Prop where
  bounded : table.size ≤ table.maxLoad
  threshold : table.maxLoad ≤ binding.capacity

/-- Every element is counted. -/
def Backed (table : Table binding) : Prop := table.buffer.occupied.card ≤ table.size

def sweep (table : Table binding) (visit : Visitor shape σ) (state : σ) : Sweep binding σ :=
  Sweep.run visit binding.allSlots table.buffer 0 state

section

variable {table : Table binding}

theorem InOrder.size_lt_limit (ordered : table.InOrder) : table.size < Word.limit := by
  calc
    table.size ≤ table.maxLoad := ordered.bounded
    _ ≤ binding.capacity := ordered.threshold
    _ < Word.limit := binding.capacity_lt_limit

theorem size_attempt (table : Table binding) (insertion : Insertion shape σ) (state : σ) :
    let after := (insertion.attempt table state).1.table
    after.maxLoad = table.maxLoad ∧
      (after.size = table.size ∨ after.size = table.size + 1 ∧ table.size < table.maxLoad) := by
  rcases table.attempt_cases insertion state with
    ⟨slot, -, comes⟩ | ⟨-, -, comes⟩ | ⟨slot, -, room, -, comes⟩ | ⟨-, -, -, comes⟩
  · rw [comes]
    exact ⟨rfl, Or.inl rfl⟩
  · rw [comes]
    exact ⟨rfl, Or.inl rfl⟩
  · rw [comes]
    exact ⟨rfl, Or.inr ⟨rfl, room⟩⟩
  · rw [comes]
    exact ⟨rfl, Or.inl rfl⟩

theorem size_removeSlot_of_find (ordered : table.InOrder) {key : shape.Key} {slot : binding.Slot}
    (found : table.find key = some slot) : (table.removeSlot slot).2.size + 1 = table.size := by
  have positive : 1 ≤ table.size := (find_sound found).1
  have exact := Word.sub_eq positive ordered.size_lt_limit
  change Word.sub table.size 1 + 1 = table.size
  omega

theorem size_retain (ordered : table.InOrder) {visit : Visitor shape σ} {state : σ}
    (finished : (table.sweep visit state).finished = true)
    (fits : (table.sweep visit state).dropped ≤ table.size) :
    (table.retain visit state).table.size = table.size - (table.sweep visit state).dropped :=
  (if_pos finished).trans (Word.sub_eq fits ordered.size_lt_limit)

theorem size_retain_of_abandoned {visit : Visitor shape σ} {state : σ}
    (abandoned : ¬(table.sweep visit state).finished = true) :
    (table.retain visit state).table.size = table.size :=
  if_neg abandoned

/-! ### Tables that count every element -/

theorem Backed.attempt (backed : table.Backed) (insertion : Insertion shape σ) (state : σ) :
    (insertion.attempt table state).1.table.Backed := by
  unfold Backed at backed ⊢
  rcases table.attempt_cases insertion state with
    ⟨slot, -, comes⟩ | ⟨-, -, comes⟩ | ⟨slot, -, -, -, comes⟩ | ⟨-, -, -, comes⟩
  · rw [comes, setValue, Buffer.occupied_setValue]
    exact backed
  · rw [comes]
    exact backed
  · rw [comes, place, Buffer.occupied_occupy, Buffer.occupied_markAll]
    exact Nat.le_trans (Finset.card_insert_le _ _) (Nat.succ_le_succ backed)
  · rw [comes, exhaust, Buffer.occupied_markAll]
    exact backed

theorem Backed.remove (backed : table.Backed) (ordered : table.InOrder) (key : shape.Key) :
    (table.remove key).2.Backed := by
  cases found : table.find key with
  | none =>
    rw [remove_of_missed found]
    exact backed
  | some slot =>
    have held := Buffer.mem_occupied.2 (find_sound found).2.1
    have size := size_removeSlot_of_find ordered found
    have card := Finset.card_erase_add_one held
    unfold Backed at backed ⊢
    rw [remove_of_found found]
    change (table.buffer.release slot).occupied.card ≤ (table.removeSlot slot).2.size
    rw [Buffer.occupied_release]
    omega

theorem sweep_total (table : Table binding) (visit : Visitor shape σ) (state : σ) :
    (table.sweep visit state).dropped + (table.sweep visit state).buffer.occupied.card =
      table.buffer.occupied.card :=
  (Sweep.dropped_add_occupied visit binding.allSlots table.buffer 0 state).trans (Nat.zero_add _)

/-- A pass drops no more elements than there are, so it takes away no more than is counted. -/
theorem Backed.sweep_le (backed : table.Backed) (visit : Visitor shape σ) (state : σ) :
    (table.sweep visit state).dropped ≤ table.size := by
  have total := table.sweep_total visit state
  unfold Backed at backed
  omega

theorem Backed.retain (backed : table.Backed) (ordered : table.InOrder)
    (visit : Visitor shape σ) (state : σ) : (table.retain visit state).table.Backed := by
  have total := table.sweep_total visit state
  have fits := backed.sweep_le visit state
  change (table.sweep visit state).buffer.occupied.card ≤ (table.retain visit state).table.size
  unfold Backed at backed
  by_cases finished : (table.sweep visit state).finished = true
  · rw [size_retain ordered finished fits]
    omega
  · rw [size_retain_of_abandoned finished]
    omega

theorem Backed.clear (table : Table binding) : table.clear.Backed := by
  change table.buffer.reset.occupied.card ≤ 0
  rw [Buffer.occupied_reset, Finset.card_empty]

end

end Table

namespace Call

def run (table : Table binding) : Call shape σ → σ → Table binding × σ
  | put insertion, state =>
    let (attempt, next) := insertion.attempt table state
    (attempt.table, next)
  | remove key, state => ((table.remove key).2, state)
  | retain visit, state =>
    let retention := table.retain visit state
    (retention.table, retention.state)
  | clear, state => (table.clear, state)

/-- The update of the size does not leave the words: what is added fits, and no more is taken away
than is there. -/
def Fits (table : Table binding) : Call shape σ → σ → Prop
  | put insertion, state => (insertion.attempt table state).1.table.size < Word.limit
  | remove key, _ => (table.find key).isSome = true → 1 ≤ table.size
  | retain visit, state =>
    (table.sweep visit state).finished = true → (table.sweep visit state).dropped ≤ table.size
  | clear, _ => True

/-- The update of the size is exact, and the size control is in order afterwards. -/
structure Keeps (table : Table binding) (call : Call shape σ) (state : σ) : Prop where
  fits : call.Fits table state
  ordered : (call.run table state).1.InOrder

section

variable {table : Table binding} {state : σ}

/-! ### One call -/

theorem keeps_put (ordered : table.InOrder) (insertion : Insertion shape σ) :
    Keeps table (put insertion) state := by
  have capacity := binding.capacity_lt_limit
  obtain ⟨bounded, threshold⟩ := ordered
  obtain ⟨sameThreshold, sizes⟩ := table.size_attempt insertion state
  constructor
  · change (insertion.attempt table state).1.table.size < Word.limit
    omega
  · change (insertion.attempt table state).1.table.InOrder
    constructor <;> omega

theorem keeps_retain (ordered : table.InOrder) {visit : Visitor shape σ}
    (fits : Fits table (retain visit) state) : Keeps table (retain visit) state := by
  refine ⟨fits, ?_, ordered.threshold⟩
  have bounded := ordered.bounded
  change (table.retain visit state).table.size ≤ table.maxLoad
  by_cases finished : (table.sweep visit state).finished = true
  · rw [Table.size_retain ordered finished (fits finished)]
    omega
  · rw [Table.size_retain_of_abandoned finished]
    exact bounded

end

end Call

namespace Mounted

end Mounted

end PackedTable
