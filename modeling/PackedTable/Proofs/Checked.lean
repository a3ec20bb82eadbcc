import Mathlib.Data.List.FinRange
import PackedTable.Proofs.Outcomes

/-!
The operations over bare numbers. Here a position of a probe is a number that is checked before it
names a group, a slot is a number that is checked before its storage is touched, and a loop over a
probe goes on until its probe has met all groups. The main fact about each operation is that the
checks never refuse anything and that as many turns as there are groups are enough, whatever the
buffer holds; the answer is then the one of the operation without checks.
-/

namespace PackedTable

variable {shape : Shape} {length : Nat} {binding : Binding shape length} {σ α β : Type}

/-- A computation over bare numbers. It is refused a number that has nothing behind it, and it has
no outcome if its loops want more turns than they are given. -/
abbrev Checked (α : Type) : Type := ExceptT Fault Option α

inductive Stage (σ α : Type) where
  | done (answer : α)
  | onward (state : σ)

def Stage.follow (further : σ → α) : Stage σ α → α
  | done answer => answer
  | onward state => further state

theorem Probe.live_next (probe : Probe) : probe.next.live = true ↔ probe.step < probe.mask :=
  decide_eq_true_iff

namespace Checked

def of (outcome : Except Fault α) : Checked α := ExceptT.mk (some outcome)

theorem of_ok (value : α) : of (.ok value) = pure value := rfl

/-- A loop over the positions of a probe, given a number of turns. It ends with an answer, or when
the probe has met all groups. -/
def loop (body : Nat → σ → Checked (Stage σ α)) (ending : σ → α) : Nat → Probe → σ → Checked α
  | 0, _, _ => ExceptT.mk none
  | turns + 1, probe, state => do
    match ← body probe.position state with
    | .done answer => return answer
    | .onward next =>
      if probe.next.live then loop body ending turns probe.next next else return ending next

/-- A recursion over the positions of a probe that does turn by turn what the body of a loop does,
as long as the positions are numbers of groups. -/
structure Follows (geometry : Geometry) (body : Nat → σ → Checked (Stage σ α)) (ending : σ → α)
    (answer : Nat → Probe → σ → α) : Prop where
  ended : ∀ probe state, answer 0 probe state = ending state
  turned : ∀ ahead (probe : Probe) state, (geometry.groupAt probe.position).val = probe.position →
    ∃ stage, body probe.position state = pure stage ∧
      answer (ahead + 1) probe state = stage.follow (answer ahead probe.next)

section

variable {geometry : Geometry} {body : Nat → σ → Checked (Stage σ α)} {ending : σ → α}
  {answer : Nat → Probe → σ → α}

/-- A loop comes to its answer in as many turns as there are positions ahead, and never asks its
body for anything but the number of a group. -/
theorem Follows.loop_eq (follows : Follows geometry body ending answer) {ahead turns : Nat}
    {probe : Probe} (masked : probe.mask = geometry.mask)
    (inside : probe.position < geometry.groupCount) (left : probe.step + ahead = geometry.mask)
    (enough : ahead < turns) (state : σ) :
    loop body ending turns probe state = pure (answer (ahead + 1) probe state) := by
  -- on the steps that are left; a step is masked, so each position names a group again
  induction ahead generalizing turns probe state with
  | zero =>
    obtain ⟨turns, rfl⟩ := Nat.exists_eq_succ_of_ne_zero (Nat.ne_zero_of_lt enough)
    have named := congrArg Fin.val (geometry.groupAt_of_lt inside)
    obtain ⟨stage, taken, same⟩ := follows.turned 0 probe state named
    have spent : ¬probe.next.live = true := by
      rw [Probe.live_next]
      omega
    rw [Nat.zero_add, loop, taken, pure_bind, same]
    cases stage with
    | done answer => rfl
    | onward next =>
      dsimp only [Stage.follow]
      rw [if_neg spent, follows.ended]
  | succ ahead ih =>
    obtain ⟨turns, rfl⟩ := Nat.exists_eq_succ_of_ne_zero (Nat.ne_zero_of_lt enough)
    have named := congrArg Fin.val (geometry.groupAt_of_lt inside)
    obtain ⟨stage, taken, same⟩ := follows.turned (ahead + 1) probe state named
    have live : probe.next.live = true := by
      rw [Probe.live_next]
      omega
    have inside' : probe.next.position < geometry.groupCount := by
      rw [Probe.next, masked]
      exact geometry.masked_lt _
    have masked' : probe.next.mask = geometry.mask := masked
    have left' : probe.next.step + ahead = geometry.mask := by
      have stepped : probe.next.step = probe.step + 1 := rfl
      omega
    rw [Nat.succ_eq_add_one, loop, taken, pure_bind, same]
    cases stage with
    | done answer => rfl
    | onward next =>
      dsimp only [Stage.follow]
      rw [if_pos live]
      exact ih masked' inside' left' (Nat.lt_of_succ_lt_succ enough) next

theorem Follows.loop_ofHash (follows : Follows geometry body ending answer) (hash : UInt64)
    {turns : Nat} (enough : geometry.groupCount ≤ turns) (state : σ) :
    loop body ending turns (Probe.ofHash geometry hash) state =
      pure (answer geometry.groupCount (Probe.ofHash geometry hash) state) := by
  have last := geometry.mask_succ
  rw [← last] at enough ⊢
  exact follows.loop_eq rfl (geometry.position_lt hash) (Nat.zero_add _) enough state

end

end Checked

/-! ### Numbers that have something behind them -/

namespace Binding

theorem group_of_lt {number : Nat} (inside : number < binding.groupCount) :
    binding.group number = .ok ⟨number, inside⟩ :=
  dif_pos inside

theorem slot_of_lt {number : Nat} (stored : number < binding.capacity) :
    binding.slot number = .ok ⟨number, stored⟩ :=
  dif_pos stored

theorem group_index (group : binding.GroupIndex) : binding.group group.val = .ok group :=
  group_of_lt group.isLt

theorem slot_index (slot : binding.Slot) : binding.slot slot.val = .ok slot :=
  slot_of_lt slot.isLt

theorem home_slot (slot : binding.Slot) :
    binding.home slot.val = .ok (binding.groupOf slot, binding.placeOf slot) := by
  have named : binding.group (slot.val / binding.slots) = .ok (binding.groupOf slot) :=
    group_of_lt (binding.groupOf slot).isLt
  rw [home, named]
  rfl

end Binding

namespace Checked

/-! ### Searching -/

def compare (buffer : Buffer binding) (test : shape.Key → Bool) : List Nat → Checked (Option Nat)
  | [] => return none
  | number :: rest =>
    if number < binding.capacity then do
      let slot ← of (binding.slot number)
      if test (buffer.key slot) then return some number else compare buffer test rest
    else compare buffer test rest

theorem compare_eq (buffer : Buffer binding) (test : shape.Key → Bool)
    (group : binding.GroupIndex) (places : List binding.Place) :
    compare buffer test (places.map fun place => binding.slotNumber group place) =
      pure ((places.findSome? fun place =>
        (binding.slotAt? group place).filter fun slot => test (buffer.key slot)).map Fin.val) := by
  induction places with
  | nil => rfl
  | cons place rest ih =>
    rw [List.map_cons, compare, List.findSome?_cons, Binding.slotAt?]
    by_cases stored : binding.slotNumber group place < binding.capacity
    · rw [if_pos stored, dif_pos stored, Binding.slot_of_lt stored, of_ok, pure_bind,
        Option.filter_some]
      by_cases passes : test (buffer.key ⟨_, stored⟩) = true
      · rw [if_pos passes, if_pos passes]
        rfl
      · rw [if_neg passes, if_neg passes]
        exact ih
    · rw [if_neg stored, dif_neg stored]
      exact ih

def searchTurn (buffer : Buffer binding) (hash : UInt64) (test : shape.Key → Bool)
    (position : Nat) (_ : Unit) : Checked (Stage Unit (Option Nat)) := do
  let group ← of (binding.group position)
  let matching := (buffer.group group).slotsWithTag (Tag.ofHash hash)
  match ← compare buffer test (matching.map fun place => position * binding.slots + place.val) with
  | some number => return .done (some number)
  | none => return if (buffer.group group).isOverflowed hash then .onward () else .done none

def findWithHash (turns : Nat) (table : Table binding) (hash : UInt64)
    (test : shape.Key → Bool) : Checked (Option Nat) :=
  loop (searchTurn table.buffer hash test) (fun _ => none) turns
    (Probe.ofHash binding.geometry hash) ()

def find (turns : Nat) (table : Table binding) (key : shape.Key) : Checked (Option Nat) :=
  if table.isEmpty then return none else findWithHash turns table (table.hash key) (· == key)

theorem searchTurn_eq (buffer : Buffer binding) (hash : UInt64) (test : shape.Key → Bool)
    (group : binding.GroupIndex) :
    searchTurn buffer hash test group.val () =
      pure (match buffer.hit? group hash test with
        | some slot => .done (some slot.val)
        | none => if (buffer.group group).isOverflowed hash then .onward () else .done none) := by
  have compared := compare_eq buffer test group
    ((buffer.group group).slotsWithTag (Tag.ofHash hash))
  simp only [Binding.slotNumber] at compared
  rw [searchTurn, Binding.group_index, of_ok, pure_bind]
  dsimp only
  rw [compared, pure_bind, ← Buffer.hit?]
  cases buffer.hit? group hash test <;> rfl

theorem searchTurn_follows (buffer : Buffer binding) (hash : UInt64) (test : shape.Key → Bool) :
    Follows binding.geometry (searchTurn buffer hash test) (fun _ => none)
      (fun ahead probe _ => (buffer.seek hash test ahead probe).map Fin.val) where
  ended _ _ := rfl
  turned ahead probe _ named := by
    have turn := searchTurn_eq buffer hash test (binding.geometry.groupAt probe.position)
    rw [named] at turn
    refine ⟨_, turn, ?_⟩
    rw [Buffer.seek]
    cases buffer.hit? (binding.geometry.groupAt probe.position) hash test with
    | some slot => rfl
    | none =>
      dsimp only
      split <;> rfl

theorem findWithHash_eq (table : Table binding) (hash : UInt64) (test : shape.Key → Bool)
    {turns : Nat} (enough : binding.groupCount ≤ turns) :
    findWithHash turns table hash test = pure ((table.findWithHash hash test).map Fin.val) :=
  (searchTurn_follows table.buffer hash test).loop_ofHash hash enough ()

theorem find_eq (table : Table binding) (key : shape.Key) {turns : Nat}
    (enough : binding.groupCount ≤ turns) :
    find turns table key = pure ((table.find key).map Fin.val) := by
  rw [find, Table.find, Table.findWhere, findWithHash_eq table _ _ enough]
  split <;> rfl

def entry (buffer : Buffer binding) (number : Nat) : Checked (shape.Key × shape.Value) := do
  return buffer.entry (← of (binding.slot number))

def getEntry (turns : Nat) (table : Table binding) (key : shape.Key) :
    Checked (Option (shape.Key × shape.Value)) := do
  match ← find turns table key with
  | some number => return some (← entry table.buffer number)
  | none => return none

theorem entry_eq (buffer : Buffer binding) (slot : binding.Slot) :
    entry buffer slot.val = pure (buffer.entry slot) := by
  rw [entry, Binding.slot_index, of_ok, pure_bind]

theorem getEntry_eq (table : Table binding) (key : shape.Key) {turns : Nat}
    (enough : binding.groupCount ≤ turns) :
    getEntry turns table key = pure (table.getEntry? key) := by
  rw [getEntry, find_eq table key enough, pure_bind, Table.getEntry?]
  cases table.find key with
  | none => rfl
  | some slot =>
    dsimp only [Option.map_some]
    rw [entry_eq, pure_bind]

/-! ### Walking and counting -/

def isOccupied (buffer : Buffer binding) (number : Nat) : Checked Bool := do
  let (group, place) ← of (binding.home number)
  return Tag.isOccupied (buffer.tag group place)

def scan (buffer : Buffer binding) : List Nat → Nat → Checked (List (shape.Key × shape.Value))
  | _, 0 => return []
  | [], _ => return []
  | number :: rest, remaining + 1 => do
    if ← isOccupied buffer number then
      let found ← entry buffer number
      return found :: (← scan buffer rest remaining)
    else scan buffer rest (remaining + 1)

def entries (table : Table binding) : Checked (List (shape.Key × shape.Value)) :=
  scan table.buffer (List.range binding.capacity) table.size

theorem isOccupied_eq (buffer : Buffer binding) (slot : binding.Slot) :
    isOccupied buffer slot.val = pure (buffer.isOccupied slot) := by
  rw [isOccupied, Binding.home_slot, of_ok, pure_bind]
  rfl

theorem scan_eq (buffer : Buffer binding) (slots : List binding.Slot) (remaining : Nat) :
    scan buffer (slots.map Fin.val) remaining =
      pure (((slots.filter buffer.isOccupied).take remaining).map buffer.entry) := by
  induction slots generalizing remaining with
  | nil => cases remaining <;> rfl
  | cons slot rest ih =>
    cases remaining with
    | zero => rfl
    | succ remaining =>
      rw [List.map_cons, scan, isOccupied_eq, pure_bind]
      cases held : buffer.isOccupied slot with
      | true =>
        rw [List.filter_cons_of_pos held, List.take_succ_cons, List.map_cons, if_pos rfl,
          entry_eq, pure_bind, ih, pure_bind]
      | false =>
        rw [List.filter_cons_of_neg (by rw [held]; exact Bool.false_ne_true),
          if_neg Bool.false_ne_true, ih]

theorem entries_eq (table : Table binding) : entries table = pure table.entries := by
  rw [entries, ← List.map_coe_finRange_eq_range]
  exact scan_eq table.buffer binding.allSlots table.size

def overflowedGroups (buffer : Buffer binding) : List Nat → Checked Nat
  | [] => return 0
  | number :: rest => do
    let group ← of (binding.group number)
    let others ← overflowedGroups buffer rest
    return others + if (buffer.group group).hasOverflow then 1 else 0

def stats (table : Table binding) : Checked Stats := do
  let overflowed ← overflowedGroups table.buffer (List.range binding.groupCount)
  return ⟨table.size, binding.capacity, table.maxLoad, binding.groupCount, overflowed⟩

theorem overflowedGroups_eq (buffer : Buffer binding) (groups : List binding.GroupIndex) :
    overflowedGroups buffer (groups.map Fin.val) =
      pure (groups.countP fun group => buffer.overflow group != 0) := by
  induction groups with
  | nil => rfl
  | cons group rest ih =>
    rw [List.map_cons, overflowedGroups, Binding.group_index, of_ok, pure_bind, ih, pure_bind,
      List.countP_cons]
    rfl

theorem stats_eq (table : Table binding) : stats table = pure table.stats := by
  rw [stats, ← List.map_coe_finRange_eq_range, overflowedGroups_eq, pure_bind]
  rfl

/-! ### Inserting -/

def settleTurn (hash : UInt64) (key : shape.Key) (value : shape.Value) (position : Nat)
    (buffer : Buffer binding) : Checked (Stage (Buffer binding) (Buffer binding × Option Nat)) := do
  let group ← of (binding.group position)
  let free := (buffer.group group).freeSlots.find? fun place =>
    position * binding.slots + place.val < binding.capacity
  match free with
  | some place =>
    let number := position * binding.slots + place.val
    let tagged := buffer.setTag group place (Tag.ofHash hash)
    let slot ← of (binding.slot number)
    return .done (tagged.setEntry slot key value, some number)
  | none => return .onward (buffer.markOverflow group hash)

def findOrInsertWith (turns : Nat) (table : Table binding) (key : shape.Key)
    (supply : σ → shape.Value × σ) (state : σ) : Checked (Attempt binding (Nat × Bool) × σ) := do
  let hash := table.hash key
  match ← findWithHash turns table hash (· == key) with
  | some number => return (⟨table, .ok (number, false)⟩, state)
  | none =>
    if table.canInsert then
      let (value, state) := supply state
      match ← loop (settleTurn hash key value) (·, none) turns
          (Probe.ofHash binding.geometry hash) table.buffer with
      | (buffer, some number) =>
        return (⟨{ table with buffer, size := table.size + 1 }, .ok (number, true)⟩, state)
      | (buffer, none) => return (⟨{ table with buffer }, .error .probeExhausted⟩, state)
    else return (⟨table, .error (.tableFull table.size table.maxLoad)⟩, state)

def attempt (turns : Nat) (table : Table binding) (insertion : Insertion shape σ) (state : σ) :
    Checked (Attempt binding (Stored binding) × σ) := do
  let (attempt, next) ← findOrInsertWith turns table insertion.key insertion.offer state
  match attempt.outcome with
  | .error fault => return (⟨attempt.table, .error fault⟩, next)
  | .ok (number, isNew) =>
    let slot ← of (binding.slot number)
    match isNew, insertion with
    | false, .last _ value =>
      return (⟨attempt.table.setValue slot value, .ok ⟨slot, value, false⟩⟩, next)
    | _, _ =>
      return (⟨attempt.table, .ok ⟨slot, attempt.table.buffer.value slot, isNew⟩⟩, next)

theorem find?_stored {group : binding.GroupIndex} (places : List binding.Place) :
    (places.findSome? fun place => (binding.slotAt? group place).map fun slot => (place, slot)) =
      (places.find? fun place => group.val * binding.slots + place.val < binding.capacity).bind
        fun place => (binding.slotAt? group place).map fun slot => (place, slot) := by
  induction places with
  | nil => rfl
  | cons place rest ih =>
    rw [List.findSome?_cons, List.find?_cons]
    by_cases stored : group.val * binding.slots + place.val < binding.capacity
    · simp only [Binding.slotAt?, Binding.slotNumber, stored, ↓reduceDIte, decide_true,
        Option.map_some, Option.bind_some]
    · simp only [stored, decide_false, ih]
      simp only [Binding.slotAt?, Binding.slotNumber, stored, ↓reduceDIte, Option.map_none]

theorem settleTurn_eq (hash : UInt64) (key : shape.Key) (value : shape.Value)
    (group : binding.GroupIndex) (buffer : Buffer binding) :
    settleTurn hash key value group.val buffer =
      pure (match buffer.vacancy? group with
        | some (place, slot) =>
          .done ((buffer.setTag group place (Tag.ofHash hash)).setEntry slot key value,
            some slot.val)
        | none => .onward (buffer.markOverflow group hash)) := by
  rw [settleTurn, Binding.group_index, of_ok, pure_bind, Buffer.vacancy?, find?_stored]
  dsimp only
  cases free : (buffer.group group).freeSlots.find? fun place =>
      group.val * binding.slots + place.val < binding.capacity with
  | none => rfl
  | some place =>
    have stored : group.val * binding.slots + place.val < binding.capacity := by
      simpa using List.find?_some free
    have found : binding.slotAt? group place = some ⟨_, stored⟩ := dif_pos stored
    dsimp only [Option.bind_some]
    rw [Binding.slot_of_lt stored, of_ok, pure_bind, found]
    rfl

theorem settleTurn_follows (hash : UInt64) (key : shape.Key) (value : shape.Value) :
    Follows binding.geometry (settleTurn hash key value) (·, none)
      (fun ahead probe (buffer : Buffer binding) =>
        ((buffer.settle hash key value ahead probe).1,
          (buffer.settle hash key value ahead probe).2.map Fin.val)) where
  ended _ _ := rfl
  turned ahead probe buffer named := by
    have turn := settleTurn_eq hash key value (binding.geometry.groupAt probe.position) buffer
    rw [named] at turn
    refine ⟨_, turn, ?_⟩
    rw [Buffer.settle]
    cases buffer.vacancy? (binding.geometry.groupAt probe.position) <;> rfl

def numbered (attempt : Attempt binding (binding.Slot × Bool)) : Attempt binding (Nat × Bool) :=
  ⟨attempt.table, attempt.outcome.map fun (slot, isNew) => (slot.val, isNew)⟩

theorem findOrInsertWith_eq (table : Table binding) (key : shape.Key)
    (supply : σ → shape.Value × σ) (state : σ) {turns : Nat}
    (enough : binding.groupCount ≤ turns) :
    findOrInsertWith turns table key supply state =
      let (attempt, next) := table.findOrInsertWith key supply state
      pure (numbered attempt, next) := by
  rw [findOrInsertWith, findWithHash_eq table _ _ enough, pure_bind, Table.findOrInsertWith]
  cases table.findWithHash (table.hash key) (· == key) with
  | some slot => rfl
  | none =>
    dsimp only [Option.map_none]
    cases table.canInsert with
    | false => rfl
    | true =>
      rw [if_pos rfl, if_pos rfl]
      have settled := (settleTurn_follows (table.hash key) key (supply state).1).loop_ofHash
        (table.hash key) enough table.buffer
      dsimp only at settled ⊢
      rw [settled, pure_bind, Table.insertUnique]
      cases table.buffer.settle (table.hash key) key (supply state).1 binding.groupCount
          (Probe.ofHash binding.geometry (table.hash key)) with
      | mk buffer landed => cases landed <;> rfl

theorem attempt_eq (table : Table binding) (insertion : Insertion shape σ) (state : σ)
    {turns : Nat} (enough : binding.groupCount ≤ turns) :
    attempt turns table insertion state = pure (insertion.attempt table state) := by
  rw [attempt, findOrInsertWith_eq table _ _ _ enough]
  rcases table.attempt_cases insertion state with
    ⟨slot, found, comes⟩ | ⟨missed, full, comes⟩ | ⟨slot, missed, room, lands, comes⟩ |
      ⟨missed, room, exhausted, comes⟩
  · rw [comes, Table.findOrInsertWith_of_found found]
    dsimp only [numbered, Except.map]
    rw [pure_bind]
    dsimp only
    rw [Binding.slot_index, of_ok, pure_bind]
    cases insertion <;> simp only [Insertion.keep, Table.setValue_value]
  · rw [comes, Table.findOrInsertWith_of_full missed (Nat.not_lt_of_le full)]
    rfl
  · rw [comes, Table.findOrInsertWith_of_landing missed room lands]
    dsimp only [numbered, Except.map]
    rw [pure_bind]
    dsimp only
    rw [Binding.slot_index, of_ok, pure_bind, Table.value_place]
  · rw [comes, Table.findOrInsertWith_of_exhausted missed room exhausted]
    rfl

/-! ### Removing -/

def erase (turns : Nat) (table : Table binding) (key : shape.Key) :
    Checked (Bool × Table binding) := do
  match ← find turns table key with
  | some number =>
    let _ ← entry table.buffer number
    let (group, place) ← of (binding.home number)
    let buffer := table.buffer.setTag group place Tag.empty
    return (true, { table with buffer, size := Word.sub table.size 1 })
  | none => return (false, table)

theorem erase_eq (table : Table binding) (key : shape.Key) {turns : Nat}
    (enough : binding.groupCount ≤ turns) : erase turns table key = pure (table.erase key) := by
  rw [erase, find_eq table key enough, pure_bind, Table.erase, Table.remove]
  cases table.find key with
  | none => rfl
  | some slot =>
    dsimp only [Option.map_some]
    rw [entry_eq, pure_bind, Binding.home_slot, of_ok, pure_bind]
    rfl

end Checked

end PackedTable
