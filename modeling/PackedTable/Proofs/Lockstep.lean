import PackedTable.Proofs.Likeness
import PackedTable.Proofs.Steps

/-!
Two tables in lockstep. Whatever likeness of two buffers is kept by each single write, made to both
of them, is kept by every step of a session; and since alike tables have their keys in the same
slots, both steps give the same reply. Nothing is asked of the bytes but the likeness.
-/

namespace PackedTable

variable {shape : Shape} {length length' : Nat} {binding : Binding shape length}
  {site : binding.Site length'} {σ : Type}

/-- A likeness that is kept by every write. -/
structure Buffer.Lockstep (likeness : Buffer binding → Buffer site.binding → Prop) : Prop where
  alike : ∀ {left right}, likeness left right → left.Alike right
  setValue : ∀ {left right}, likeness left right → ∀ slot value,
    likeness (left.setValue slot value) (right.setValue slot value)
  release : ∀ {left right}, likeness left right → ∀ slot,
    likeness (left.release slot) (right.release slot)
  markAll : ∀ {left right}, likeness left right → ∀ hash groups,
    likeness (left.markAll hash groups) (right.markAll hash groups)
  occupy : ∀ {left right}, likeness left right → ∀ slot hash key value,
    likeness (left.occupy slot hash key value) (right.occupy slot hash key value)
  reset : ∀ {left right}, likeness left right → likeness left.reset right.reset

theorem Buffer.Alike.lockstep :
    Lockstep fun (left : Buffer binding) (right : Buffer site.binding) => left.Alike right where
  alike same := same
  setValue same := same.setValue
  release same := same.release
  markAll same := same.markAll
  occupy same := same.occupy
  reset _ := .reset _ _

def Stored.content (stored : Stored binding) : binding.Slot × shape.Value × Bool :=
  (stored.slot, stored.value, stored.isNew)

structure Served.Agree (likeness : Buffer binding → Buffer site.binding → Prop)
    (left : Served binding σ) (right : Served site.binding σ) : Prop where
  table : Table.Like likeness left.table right.table
  state : right.state = left.state
  reply : right.reply = left.reply

structure Attempt.Agree (likeness : Buffer binding → Buffer site.binding → Prop)
    (left : Attempt binding (Stored binding)) (right : Attempt site.binding (Stored site.binding)) :
    Prop where
  table : Table.Like likeness left.table right.table
  outcome : right.outcome.map Stored.content = left.outcome.map Stored.content

structure Sweep.Agree (likeness : Buffer binding → Buffer site.binding → Prop)
    (left : Sweep binding σ) (right : Sweep site.binding σ) : Prop where
  buffer : likeness left.buffer right.buffer
  dropped : right.dropped = left.dropped
  state : right.state = left.state
  finished : right.finished = left.finished

namespace Table

namespace Alike

variable {left : Table binding} {right : Table site.binding} {slot : binding.Slot}

theorem entry (alike : left.Alike right) (held : left.buffer.isOccupied slot = true) :
    right.buffer.entry slot = left.buffer.entry slot := by
  rw [Buffer.entry, Buffer.entry, alike.buffer.key slot held, alike.buffer.value slot held]

theorem getEntry (alike : left.Alike right) (key : shape.Key) :
    right.getEntry? key = left.getEntry? key := by
  unfold Table.getEntry?
  rw [alike.find]
  cases found : left.find key with
  | none => rfl
  | some slot => exact congrArg some (alike.entry (find_sound found).2.1)

theorem elementSlots (alike : left.Alike right) : right.elementSlots = left.elementSlots := by
  unfold Table.elementSlots Cursor.rest Table.cursor
  rw [alike.size]
  congr 1
  apply List.filter_congr
  intro slot _
  exact alike.buffer.isOccupied slot

theorem entries (alike : left.Alike right) : right.entries = left.entries := by
  rw [Table.entries, Table.entries, alike.elementSlots]
  apply List.map_congr_left
  intro slot member
  exact alike.entry (isOccupied_of_mem_elementSlots member)

theorem held? (alike : left.Alike right) (number : Nat) :
    right.held? number = left.held? number := by
  unfold Table.held?
  apply congrArg (fun test => Option.filter test _)
  funext slot
  exact alike.buffer.isOccupied slot

end Alike

end Table

namespace Buffer.Lockstep

variable {likeness : Buffer binding → Buffer site.binding → Prop} {left : Table binding}
  {right : Table site.binding} {key : shape.Key}

theorem alikeTables (lockstep : Lockstep likeness) (like : Table.Like likeness left right) :
    left.Alike right :=
  ⟨lockstep.alike like.buffer, like.hash, like.size, like.maxLoad⟩

/-! ### Changes of both tables -/

theorem setValueTables (lockstep : Lockstep likeness) (like : Table.Like likeness left right)
    (slot : binding.Slot) (value : shape.Value) :
    Table.Like likeness (left.setValue slot value) (right.setValue slot value) :=
  ⟨lockstep.setValue like.buffer slot value, like.hash, like.size, like.maxLoad⟩

theorem removeSlot (lockstep : Lockstep likeness) (like : Table.Like likeness left right)
    (slot : binding.Slot) :
    Table.Like likeness (left.removeSlot slot).2 (right.removeSlot slot).2 :=
  ⟨lockstep.release like.buffer slot, like.hash, congrArg (Word.sub · 1) like.size, like.maxLoad⟩

theorem place (lockstep : Lockstep likeness) (like : Table.Like likeness left right)
    (slot : binding.Slot) (hash : UInt64) (key : shape.Key) (value : shape.Value) :
    Table.Like likeness (left.place slot hash key value) (right.place slot hash key value) where
  buffer := by
    rw [Table.place, Table.place, (lockstep.alikeTables like).passed]
    exact lockstep.occupy (lockstep.markAll like.buffer hash _) slot hash key value
  hash := like.hash
  size := congrArg (· + 1) like.size
  maxLoad := like.maxLoad

theorem exhaust (lockstep : Lockstep likeness) (like : Table.Like likeness left right)
    (hash : UInt64) : Table.Like likeness (left.exhaust hash) (right.exhaust hash) :=
  ⟨lockstep.markAll like.buffer hash _, like.hash, like.size, like.maxLoad⟩

theorem clear (lockstep : Lockstep likeness) (like : Table.Like likeness left right) :
    Table.Like likeness left.clear right.clear :=
  ⟨lockstep.reset like.buffer, like.hash, rfl, like.maxLoad⟩

/-! ### Insertions -/

/-- Both insertions find the key, or find no room, or come to the same slot, or give up. -/
theorem attempt (lockstep : Lockstep likeness) (like : Table.Like likeness left right)
    (insertion : Insertion shape σ) (state : σ) :
    (insertion.attempt left state).1.Agree likeness (insertion.attempt right state).1 ∧
      (insertion.attempt right state).2 = (insertion.attempt left state).2 := by
  have alike := lockstep.alikeTables like
  have search : right.findWithHash (right.hash insertion.key) (· == insertion.key) =
      left.findWithHash (left.hash insertion.key) (· == insertion.key) := by
    rw [alike.hash, alike.findWithHash]
  have landing : right.landing? (right.hash insertion.key) =
      left.landing? (left.hash insertion.key) := by
    rw [alike.hash, alike.landing?]
  have sizes : (right.size, right.maxLoad) = (left.size, left.maxLoad) := by
    rw [alike.size, alike.maxLoad]
  obtain ⟨size, maxLoad⟩ := Prod.mk.inj sizes
  rcases left.attempt_cases insertion state with
    ⟨slot, found, comes⟩ | ⟨missed, full, comes⟩ | ⟨slot, missed, room, lands, comes⟩ |
      ⟨missed, room, exhausted, comes⟩
  · have held := Buffer.isOccupied_of_slotTag (Table.findWithHash_sound found).1
    have value := alike.buffer.value slot held
    rw [comes, Table.attempt_of_found (search.trans found), value]
    exact ⟨⟨lockstep.setValueTables like slot _, rfl⟩, rfl⟩
  · have full' : ¬right.size < right.maxLoad := by omega
    rw [comes, Table.attempt_of_full (search.trans missed) full', size, maxLoad]
    exact ⟨⟨like, rfl⟩, rfl⟩
  · have room' : right.size < right.maxLoad := by omega
    rw [comes, Table.attempt_of_landing (search.trans missed) room' (landing.trans lands),
      alike.hash]
    exact ⟨⟨lockstep.place like slot _ _ _, rfl⟩, rfl⟩
  · have room' : right.size < right.maxLoad := by omega
    rw [comes, Table.attempt_of_exhausted (search.trans missed) room' (landing.trans exhausted),
      alike.hash]
    exact ⟨⟨lockstep.exhaust like _, rfl⟩, rfl⟩

theorem written (lockstep : Lockstep likeness) {tried : Attempt binding (Stored binding)}
    {tried' : Attempt site.binding (Stored site.binding)} (agree : tried.Agree likeness tried')
    (write : shape.Value → shape.Value) :
    Table.Like likeness (tried.written write) (tried'.written write) ∧
      tried'.reply = tried.reply := by
  obtain ⟨table, outcome⟩ := tried
  obtain ⟨table', outcome'⟩ := tried'
  obtain ⟨like, same⟩ := agree
  cases outcome with
  | error fault =>
    cases outcome' with
    | error fault' =>
      cases same
      exact ⟨like, rfl⟩
    | ok stored' => cases same
  | ok stored =>
    cases outcome' with
    | error fault' => cases same
    | ok stored' =>
      obtain ⟨slot, value, isNew⟩ := stored
      obtain ⟨slot', value', isNew'⟩ := stored'
      cases same
      exact ⟨lockstep.setValueTables like slot _, rfl⟩

theorem extend (lockstep : Lockstep likeness) (like : Table.Like likeness left right)
    (pairs : List (shape.Key × shape.Value)) :
    Table.Like likeness (left.extend pairs).table (right.extend pairs).table ∧
      (right.extend pairs).outcome = (left.extend pairs).outcome := by
  induction pairs generalizing left right with
  | nil => exact ⟨like, rfl⟩
  | cons pair rest ih =>
    obtain ⟨key, value⟩ := pair
    obtain ⟨inserted, same⟩ :=
      (lockstep.attempt like (.first key value : Insertion shape Unit) ()).1
    change Table.Like likeness (left.insertNew key value).table (right.insertNew key value).table
      at inserted
    change (right.insertNew key value).outcome.map Stored.content =
      (left.insertNew key value).outcome.map Stored.content at same
    rw [Table.extend_cons, Table.extend_cons]
    cases outcome : (left.insertNew key value).outcome with
    | ok stored =>
      cases outcome' : (right.insertNew key value).outcome with
      | ok stored' => exact ih inserted
      | error fault' =>
        rw [outcome, outcome'] at same
        cases same
    | error fault =>
      cases outcome' : (right.insertNew key value).outcome with
      | ok stored' =>
        rw [outcome, outcome'] at same
        cases same
      | error fault' =>
        rw [outcome, outcome'] at same
        cases same
        exact ⟨inserted, rfl⟩

/-! ### Keys that are taken out or written to -/

theorem remove (lockstep : Lockstep likeness) (like : Table.Like likeness left right)
    (key : shape.Key) :
    (right.remove key).1 = (left.remove key).1 ∧
      Table.Like likeness (left.remove key).2 (right.remove key).2 := by
  have alike := lockstep.alikeTables like
  cases found : left.find key with
  | some slot =>
    rw [Table.remove_of_found found, Table.remove_of_found ((alike.find key).trans found)]
    exact ⟨congrArg some (alike.entry (Table.find_sound found).2.1), lockstep.removeSlot like slot⟩
  | none =>
    rw [Table.remove_of_missed found, Table.remove_of_missed ((alike.find key).trans found)]
    exact ⟨rfl, like⟩

theorem update (lockstep : Lockstep likeness) (like : Table.Like likeness left right)
    (key : shape.Key) (write : shape.Value → shape.Value) :
    (right.update key write).1 = (left.update key write).1 ∧
      Table.Like likeness (left.update key write).2 (right.update key write).2 := by
  have alike := lockstep.alikeTables like
  cases found : left.find key with
  | some slot =>
    have value := alike.buffer.value slot (Table.find_sound found).2.1
    rw [Table.update_of_found found, Table.update_of_found ((alike.find key).trans found), value]
    exact ⟨rfl, lockstep.setValueTables like slot _⟩
  | none =>
    rw [Table.update_of_missed found, Table.update_of_missed ((alike.find key).trans found)]
    exact ⟨rfl, like⟩

/-! ### Passes over all elements -/

/-- The visitor is shown the same elements, since it is shown occupied slots only. -/
theorem sweep (lockstep : Lockstep likeness) (visit : Visitor shape σ) (slots : List binding.Slot)
    {left : Buffer binding} {right : Buffer site.binding} (like : likeness left right)
    (dropped : Nat) (state : σ) :
    (Sweep.run visit slots left dropped state).Agree likeness
      (Sweep.run visit slots right dropped state : Sweep site.binding σ) := by
  induction slots generalizing left right dropped state with
  | nil => exact ⟨like, rfl, rfl, rfl⟩
  | cons slot rest ih =>
    have alike := lockstep.alike like
    have occupied := alike.isOccupied slot
    cases held : left.isOccupied slot with
    | false =>
      rw [held] at occupied
      simp only [Sweep.run, held, occupied, Bool.false_eq_true, ↓reduceIte]
      exact ih like dropped state
    | true =>
      rw [held] at occupied
      simp only [Sweep.run, held, occupied, ↓reduceIte, alike.key slot held,
        alike.value slot held]
      generalize visit state (left.key slot) (left.value slot) = decision
      obtain ⟨verdict, value, next⟩ := decision
      have shown := lockstep.setValue like slot value
      cases verdict with
      | keep => exact ih shown dropped next
      | drop => exact ih (lockstep.release shown slot) (dropped + 1) next
      | abandon => exact ⟨shown, rfl, rfl, rfl⟩

theorem retain (lockstep : Lockstep likeness) (like : Table.Like likeness left right)
    (visit : Visitor shape σ) (state : σ) :
    Table.Like likeness (left.retain visit state).table (right.retain visit state).table ∧
      (right.retain visit state).state = (left.retain visit state).state ∧
      (right.retain visit state).finished = (left.retain visit state).finished := by
  have swept : (Sweep.run visit binding.allSlots left.buffer 0 state).Agree likeness
      (Sweep.run visit site.binding.allSlots right.buffer 0 state) :=
    lockstep.sweep visit binding.allSlots like.buffer 0 state
  refine ⟨⟨swept.buffer, like.hash, ?_, like.maxLoad⟩, swept.state, swept.finished⟩
  simp only [Table.retain, swept.finished, swept.dropped, like.size]

theorem foldl_revise (lockstep : Lockstep likeness) (like : Table.Like likeness left right)
    (change : shape.Key → shape.Value → shape.Value) {slots : List binding.Slot}
    (held : ∀ slot ∈ slots, left.buffer.isOccupied slot = true) :
    Table.Like likeness (slots.foldl (Table.revise change) left)
      (slots.foldl (Table.revise change) right) := by
  induction slots generalizing left right with
  | nil => exact like
  | cons slot rest ih =>
    obtain ⟨first, others⟩ := List.forall_mem_cons.1 held
    have alike := lockstep.alike like.buffer
    rw [List.foldl_cons, List.foldl_cons, Table.revise, Table.revise, alike.key slot first,
      alike.value slot first]
    apply ih (lockstep.setValueTables like slot _)
    intro other member
    exact (Buffer.isOccupied_setValue _ _ _ _).trans (others other member)

theorem updateValues (lockstep : Lockstep likeness) (like : Table.Like likeness left right)
    (change : shape.Key → shape.Value → shape.Value) :
    Table.Like likeness (left.updateValues change) (right.updateValues change) := by
  rw [Table.updateValues_eq_foldl, Table.updateValues_eq_foldl,
    (lockstep.alikeTables like).elementSlots]
  exact lockstep.foldl_revise like change fun _ => Table.isOccupied_of_mem_elementSlots

/-! ### Every step -/

theorem serve (lockstep : Lockstep likeness) (like : Table.Like likeness left right)
    (request : Request shape σ) (state : σ) :
    (left.serve request state).Agree likeness (right.serve request state) := by
  have alike := lockstep.alikeTables like
  cases request with
  | put insertion write =>
    obtain ⟨tried, next⟩ := lockstep.attempt like insertion state
    obtain ⟨table, reply⟩ := lockstep.written tried write
    exact ⟨table, next, reply⟩
  | update key write =>
    obtain ⟨found, after⟩ := lockstep.update like key write
    exact ⟨after, rfl, congrArg Reply.value found⟩
  | get key =>
    refine ⟨like, rfl, congrArg Reply.value ?_⟩
    exact congrArg (Option.map Prod.snd) (alike.getEntry key)
  | getEntry key => exact ⟨like, rfl, congrArg Reply.entry (alike.getEntry key)⟩
  | contains key =>
    refine ⟨like, rfl, congrArg Reply.present ?_⟩
    exact congrArg Option.isSome (alike.find key)
  | require key =>
    have found : right.get? key = left.get? key :=
      congrArg (Option.map Prod.snd) (alike.getEntry key)
    refine ⟨like, rfl, congrArg Reply.required ?_⟩
    rw [Table.get, Table.get, found]
  | erase key =>
    obtain ⟨taken, after⟩ := lockstep.remove like key
    refine ⟨after, rfl, congrArg Reply.count ?_⟩
    exact congrArg (fun answer : Bool => if answer then 1 else 0) (congrArg Option.isSome taken)
  | remove key =>
    obtain ⟨taken, after⟩ := lockstep.remove like key
    refine ⟨after, rfl, congrArg Reply.value ?_⟩
    exact congrArg (Option.map Prod.snd) taken
  | removeEntry key =>
    obtain ⟨taken, after⟩ := lockstep.remove like key
    exact ⟨after, rfl, congrArg Reply.entry taken⟩
  | retain judge =>
    obtain ⟨after, last, -⟩ := lockstep.retain like (Visitor.ofJudge judge) state
    exact ⟨after, last, rfl⟩
  | extend pairs =>
    obtain ⟨after, outcome⟩ := lockstep.extend like pairs
    refine ⟨after, rfl, ?_⟩
    simp only [Table.serve, outcome]
  | revise change => exact ⟨lockstep.updateValues like change, rfl, rfl⟩
  | clear => exact ⟨lockstep.clear like, rfl, rfl⟩
  | size => exact ⟨like, rfl, congrArg Reply.count alike.size⟩
  | list => exact ⟨like, rfl, congrArg Reply.entries alike.entries⟩

theorem step (lockstep : Lockstep likeness) (like : Table.Like likeness left right)
    {step : Step shape σ} (inPlace : step.InPlace) (state : σ) :
    ∃ (after : Table binding) (after' : Table site.binding) (next : σ) (reply : Reply shape),
      Mounted.step ⟨binding, left⟩ step state = ⟨⟨binding, after⟩, next, reply⟩ ∧
      Mounted.step ⟨site.binding, right⟩ step state = ⟨⟨site.binding, after'⟩, next, reply⟩ ∧
      Table.Like likeness after after' := by
  have alike := lockstep.alikeTables like
  cases step with
  | filter visit =>
    obtain ⟨table, last, finished⟩ := lockstep.retain like visit state
    refine ⟨_, _, _, _, rfl, ?_, table⟩
    simp only [Mounted.step, last, finished]
  | act action =>
    cases action with
    | reopen address rest maxLoad => exact absurd inPlace id
    | ask request =>
      obtain ⟨table, last, reply⟩ := lockstep.serve like request state
      refine ⟨_, _, _, _, rfl, ?_, table⟩
      simp only [Mounted.step, Mounted.act, last, reply]
    | find key =>
      refine ⟨_, _, _, _, rfl, ?_, like⟩
      simp only [Mounted.step, Mounted.act, alike.find]
    | entryAt number =>
      refine ⟨_, _, _, _, rfl, ?_, like⟩
      simp only [Mounted.step, Mounted.act, alike.held?]
      cases named : left.held? number with
      | none => rfl
      | some slot =>
        have entry := alike.entry (Table.held?_eq_some named).1
        simp only [Option.map_some, entry]
    | updateAt number write =>
      simp only [Mounted.step, Mounted.act, alike.held?]
      cases named : left.held? number with
      | none => exact ⟨_, _, _, _, rfl, rfl, like⟩
      | some slot =>
        have entry := alike.entry (Table.held?_eq_some named).1
        simp only [entry]
        exact ⟨_, _, _, _, rfl, rfl, lockstep.setValueTables like slot _⟩
    | removeAt number =>
      simp only [Mounted.step, Mounted.act, alike.held?]
      cases named : left.held? number with
      | none => exact ⟨_, _, _, _, rfl, rfl, like⟩
      | some slot =>
        have entry := alike.entry (Table.held?_eq_some named).1
        refine ⟨_, _, _, _, rfl, ?_, lockstep.removeSlot like slot⟩
        simp only [Table.removeSlot, entry]

end Buffer.Lockstep

theorem Mounted.exists_site {left right : Mounted shape}
    (width : right.binding.width = left.binding.width)
    (geometry : right.binding.geometry = left.binding.geometry) :
    ∃ (length : Nat) (site : left.binding.Site length) (table : Table site.binding),
      right = ⟨site.binding, table⟩ := by
  obtain ⟨binding', table⟩ := right
  obtain ⟨width', geometry', address, keyed, addressable, fits, aligned⟩ := binding'
  cases width
  cases geometry
  exact ⟨_, ⟨address, fits, aligned⟩, table, rfl⟩

end PackedTable
