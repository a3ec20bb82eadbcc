import PackedTable.Proofs.Filtering
import PackedTable.Proofs.Landing

/-!
What the overflow bytes remember. A new key marks the groups that its probe visits and finds full,
and nothing else that happens to a table in use changes a mark before the table is cleared: so each
byte is told by the new keys that have come since, whether they are still there or not. The history
is kept beside the session, for each new key the table that it came to and its hash.
-/

namespace PackedTable

variable {shape : Shape} {length : Nat} {binding : Binding shape length} {σ : Type}

/-- A probe of this hash visits the group of a number, finds no free slot in it, and moves on. -/
def Table.Passes (table : Table binding) (hash : UInt64) (number : Nat) : Prop :=
  ∃ turn < binding.groupCount, binding.geometry.visited hash turn = number ∧
    ∀ earlier ≤ turn, ∀ slot : binding.Slot,
      binding.geometry.visited hash earlier = (binding.groupOf slot).val →
      table.buffer.slotTag slot ≠ Tag.empty

instance (table : Table binding) (hash : UInt64) (number : Nat) :
    Decidable (table.Passes hash number) :=
  inferInstanceAs (Decidable (∃ turn < binding.groupCount, _ ∧ ∀ earlier ≤ turn, _))

theorem Buffer.FirstFree.passes_iff {table : Table binding} {hash : UInt64} {turn : Nat}
    {slot : binding.Slot} (first : table.buffer.FirstFree hash turn slot) (number : Nat) :
    table.Passes hash number ↔
      ∃ earlier < turn, binding.geometry.visited hash earlier = number := by
  constructor
  · rintro ⟨last, -, here, full⟩
    refine ⟨last, Nat.lt_of_not_le fun behind => ?_, here⟩
    exact full turn behind slot first.visited first.free
  · rintro ⟨last, before, here⟩
    refine ⟨last, Nat.lt_trans before first.turn_lt, here, fun earlier within other => ?_⟩
    exact first.passed earlier (Nat.lt_of_le_of_lt within before) other

/-- A new key that comes to a table: the table in front of it, and the hash of the key. -/
structure Arrival (shape : Shape) where
  mounted : Mounted shape
  hash : UInt64

def marksOn (history : List (Arrival shape)) (number : Nat) : UInt8 :=
  (history.filter fun arrival => arrival.mounted.table.Passes arrival.hash number).foldr
    (fun arrival marks => Tag.overflowBit arrival.hash ||| marks) 0

theorem marksOn_cons (arrival : Arrival shape) (history : List (Arrival shape)) (number : Nat) :
    marksOn (arrival :: history) number =
      (if arrival.mounted.table.Passes arrival.hash number then Tag.overflowBit arrival.hash else 0)
        ||| marksOn history number := by
  unfold marksOn
  by_cases passes : arrival.mounted.table.Passes arrival.hash number
  · rw [List.filter_cons_of_pos (by simpa using passes), if_pos passes]
    rfl
  · rw [List.filter_cons_of_neg (by simpa using passes), if_neg passes, UInt8.zero_or]

theorem marksOn_append (past further : List (Arrival shape)) (number : Nat) :
    marksOn (past ++ further) number = marksOn past number ||| marksOn further number := by
  induction past with
  | nil => exact UInt8.zero_or.symm
  | cons arrival rest ih => rw [List.cons_append, marksOn_cons, marksOn_cons, ih, UInt8.or_assoc]

def Request.Clears : Request shape σ → Prop
  | .clear => True
  | _ => False

/-! ### New keys -/

namespace Table

variable {table : Table binding}

/-- The arrival of a key that is put into the table: if it is absent, and there is room for it. -/
def arrivals (table : Table binding) (key : shape.Key) : List (Arrival shape) :=
  if ¬table.Has key ∧ table.size < table.maxLoad then [⟨⟨binding, table⟩, table.hash key⟩] else []

def arrivalsOf (table : Table binding) : List (shape.Key × shape.Value) → List (Arrival shape)
  | [] => []
  | (key, value) :: rest =>
    let attempt := table.insertNew key value
    table.arrivals key ++
      match attempt.outcome with
      | .ok _ => attempt.table.arrivalsOf rest
      | .error _ => []

def arrivalsIn (table : Table binding) : Request shape σ → List (Arrival shape)
  | .put insertion _ => table.arrivals insertion.key
  | .extend pairs => table.arrivalsOf pairs
  | _ => []

/-- Each overflow byte has the bits of these arrivals in addition to its own. -/
def MarkedBy (before after : Table binding) (arrivals : List (Arrival shape)) : Prop :=
  ∀ group : binding.GroupIndex,
    after.buffer.overflow group = before.buffer.overflow group ||| marksOn arrivals group.val

namespace MarkedBy

variable {before between after : Table binding} {first second : List (Arrival shape)}

theorem of_eq (same : ∀ group, after.buffer.overflow group = before.buffer.overflow group) :
    before.MarkedBy after [] :=
  fun group => (same group).trans UInt8.or_zero.symm

theorem refl (table : Table binding) : table.MarkedBy table [] := of_eq fun _ => rfl

theorem trans (marked : before.MarkedBy between first) (further : between.MarkedBy after second) :
    before.MarkedBy after (first ++ second) := by
  intro group
  rw [further group, marked group, marksOn_append, UInt8.or_assoc]

theorem setValue (marked : before.MarkedBy after first) (slot : binding.Slot)
    (value : shape.Value) : before.MarkedBy (after.setValue slot value) first :=
  fun group => (after.buffer.overflow_setValue slot value group).trans (marked group)

end MarkedBy

/-! ### One change -/

theorem place_marks {hash : UInt64} {slot : binding.Slot} (lands : table.landing? hash = some slot)
    (key : shape.Key) (value : shape.Value) :
    table.MarkedBy (table.place slot hash key value) [⟨⟨binding, table⟩, hash⟩] := by
  intro group
  obtain ⟨turn, first⟩ := landing?_eq_some_iff.1 lands
  have passes := first.passes_iff group.val
  rw [overflow_place first, marksOn_cons]
  by_cases visited : ∃ earlier < turn, binding.geometry.visited hash earlier = group.val
  · rw [if_pos visited, if_pos (passes.2 visited)]
    exact congrArg _ UInt8.or_zero.symm
  · rw [if_neg visited, if_neg fun passed => visited (passes.1 passed), UInt8.zero_or]
    exact UInt8.or_zero.symm

theorem removeSlot_marks (table : Table binding) (slot : binding.Slot) :
    table.MarkedBy (table.removeSlot slot).2 [] :=
  .of_eq fun group => table.buffer.overflow_setTag _ group _ Tag.empty

theorem retain_marks (table : Table binding) (visit : Visitor shape σ) (state : σ) :
    table.MarkedBy (table.retain visit state).table [] :=
  .of_eq (table.overflow_retain visit state)

namespace Searchable

/-- However a key is put in: if it is new it marks the groups that its probe passes, and otherwise
no mark changes. -/
theorem attempt_marks (searchable : table.Searchable) (insertion : Insertion shape σ) (state : σ) :
    table.MarkedBy (insertion.attempt table state).1.table (table.arrivals insertion.key) := by
  rcases table.attempt_cases insertion state with
    ⟨slot, found, comes⟩ | ⟨-, full, comes⟩ | ⟨slot, missed, room, lands, comes⟩ |
      ⟨-, room, exhausted, -⟩
  · have present : table.Has insertion.key := by
      by_contra absent
      rw [searchable.findWithHash_eq_none.2 absent] at found
      cases found
    rw [comes, arrivals, if_neg fun takes => takes.1 present]
    exact (MarkedBy.refl table).setValue slot _
  · rw [comes, arrivals, if_neg fun takes => Nat.not_lt_of_le full takes.2]
    exact .refl table
  · have absent := searchable.findWithHash_eq_none.1 missed
    have arrives : table.arrivals insertion.key = [⟨⟨binding, table⟩, table.hash insertion.key⟩] :=
      if_pos ⟨absent, room⟩
    rw [comes, arrives]
    exact place_marks lands _ _
  · have lands := searchable.landing?_isSome room (table.hash insertion.key)
    rw [exhausted] at lands
    cases lands

theorem extend_marks (searchable : table.Searchable) (pairs : List (shape.Key × shape.Value)) :
    table.MarkedBy (table.extend pairs).table (table.arrivalsOf pairs) := by
  induction pairs generalizing table with
  | nil => exact .refl table
  | cons pair rest ih =>
    obtain ⟨key, value⟩ := pair
    have first : table.MarkedBy (table.insertNew key value).table (table.arrivals key) :=
      searchable.attempt_marks (.first key value : Insertion shape Unit) ()
    have left : (table.insertNew key value).table.Searchable :=
      searchable.attempt (.first key value : Insertion shape Unit) ()
    rw [extend_cons, arrivalsOf]
    cases (table.insertNew key value).outcome with
    | ok _ => exact first.trans (ih left)
    | error fault =>
      rw [List.append_nil]
      exact first

theorem serve_marks (searchable : table.Searchable) {request : Request shape σ}
    (other : ¬request.Clears) (state : σ) :
    table.MarkedBy (table.serve request state).table (table.arrivalsIn request) := by
  have unchanged := MarkedBy.refl table
  have written (news : List (Arrival shape)) {after : Table binding} (slot : binding.Slot)
      (value : shape.Value) (marked : table.MarkedBy after news) :
      table.MarkedBy (after.setValue slot value) news := marked.setValue slot value
  have removed (key : shape.Key) : table.MarkedBy (table.remove key).2 [] :=
    remove_keeps (table.MarkedBy · []) unchanged key fun slot _ => table.removeSlot_marks slot
  cases request with
  | put insertion write =>
    exact written_keeps (table.MarkedBy · _) (written _)
      (searchable.attempt_marks insertion state) write
  | update key write => exact update_keeps (table.MarkedBy · []) (written []) unchanged key write
  | erase key => exact removed key
  | remove key => exact removed key
  | removeEntry key => exact removed key
  | retain judge => exact table.retain_marks _ state
  | extend pairs => exact searchable.extend_marks pairs
  | revise change => exact updateValues_keeps (table.MarkedBy · []) (written []) unchanged change
  | clear => exact absurd trivial other
  | get key => exact unchanged
  | getEntry key => exact unchanged
  | contains key => exact unchanged
  | require key => exact unchanged
  | size => exact unchanged
  | list => exact unchanged

end Searchable

end Table

/-! ### Sessions -/

def Step.Clears : Step shape σ → Prop
  | .act (.ask request) => request.Clears
  | _ => False

theorem countP_le_countP_mapIdx (marks : List UInt8) (further : Nat → UInt8) :
    marks.countP (· != 0) ≤
      (marks.mapIdx fun number mark => mark ||| further number).countP (· != 0) := by
  induction marks generalizing further with
  | nil => exact Nat.le_refl _
  | cons mark rest ih =>
    have others := ih fun number => further (number + 1)
    have stays : mark != 0 → (mark ||| further 0) != 0 := by
      simp only [bne_iff_ne, ne_eq, UInt8.or_eq_zero_iff]
      exact fun set zero => set zero.1
    rw [List.mapIdx_cons, List.countP_cons, List.countP_cons]
    split
    case isTrue set =>
      rw [if_pos (stays set)]
      exact Nat.succ_le_succ others
    case isFalse => exact Nat.le_add_right_of_le others

namespace Mounted

variable {mounted : Mounted shape}

def marks (mounted : Mounted shape) : List UInt8 :=
  mounted.binding.allGroups.map mounted.table.buffer.overflow

theorem length_marks (mounted : Mounted shape) :
    mounted.marks.length = mounted.binding.groupCount := by
  rw [marks, List.length_map, Binding.allGroups, List.length_finRange]

theorem overflowedGroups_eq (mounted : Mounted shape) :
    mounted.table.stats.overflowedGroups = mounted.marks.countP (· != 0) := by
  rw [marks, List.countP_map]
  rfl

theorem marks_of_markedBy {before after : Table binding} {arrivals : List (Arrival shape)}
    (marked : before.MarkedBy after arrivals) :
    marks ⟨binding, after⟩ =
      (marks ⟨binding, before⟩).mapIdx fun number mark => mark ||| marksOn arrivals number := by
  refine List.ext_getElem (by simp [marks]) fun number _ _ => ?_
  simp only [marks, List.getElem_map, List.getElem_mapIdx, Binding.allGroups, List.getElem_finRange]
  exact marked _

theorem marks_moved (mounted : Mounted shape) (address : Nat) (rest : Array UInt8) (maxLoad : Nat)
    (aligned : address % shape.entry.align = 0) :
    (mounted.moved address rest maxLoad aligned).marks = mounted.marks := by
  have copied : (Region.mk address (mounted.table.buffer.used ++ rest)).bytes.extract 0
      mounted.binding.size = mounted.table.buffer.used := mounted.extract_append_used rest
  have alike := alike_copyAt copied (mounted.siteOf _ copied aligned) maxLoad
  exact List.map_congr_left fun group _ => alike.buffer.overflow group

def arrivals (mounted : Mounted shape) : Step shape σ → List (Arrival shape)
  | .act (.ask request) => mounted.table.arrivalsIn request
  | _ => []

/-- The new keys since the table was created or cleared, after a step. -/
def remember (mounted : Mounted shape) (past : List (Arrival shape)) :
    Step shape σ → List (Arrival shape)
  | .act (.ask .clear) => []
  | step => past ++ mounted.arrivals step

def history (mounted : Mounted shape) (past : List (Arrival shape)) :
    List (Step shape σ) → σ → List (Arrival shape)
  | [], _ => past
  | step :: rest, state =>
    let turn := mounted.step step state
    turn.mounted.history (mounted.remember past step) rest turn.state

theorem remember_of_not_clears {step : Step shape σ} (other : ¬step.Clears)
    (past : List (Arrival shape)) : mounted.remember past step = past ++ mounted.arrivals step := by
  cases step with
  | filter visit => rfl
  | act action =>
    cases action with
    | ask request =>
      cases request with
      | clear => exact absurd trivial other
      | _ => rfl
    | _ => rfl

theorem act_marks (mounted : Mounted shape) (action : Action shape σ)
    (other : ∀ request, action ≠ .ask request) (state : σ) :
    (mounted.act action state).mounted.marks = mounted.marks := by
  apply act_keeps (·.marks = mounted.marks) rfl action state
  · intro request asks
    exact absurd asks (other request)
  · intro slot value
    exact List.map_congr_left fun group _ => mounted.table.buffer.overflow_setValue slot value group
  · intro number slot _ _
    exact List.map_congr_left fun group _ =>
      mounted.table.buffer.overflow_setTag _ group _ Tag.empty
  · intro address rest maxLoad aligned _
    exact mounted.marks_moved address rest maxLoad aligned

theorem step_marks (searchable : mounted.table.Searchable) {step : Step shape σ}
    (other : ¬step.Clears) (state : σ) :
    (mounted.step step state).mounted.marks =
      mounted.marks.mapIdx fun number mark => mark ||| marksOn (mounted.arrivals step) number := by
  have unmoved := marks_of_markedBy (.refl mounted.table)
  cases step with
  | filter visit => exact marks_of_markedBy (mounted.table.retain_marks visit state)
  | act action =>
    have kept := mounted.act_marks action
    cases action with
    | ask request => exact marks_of_markedBy (searchable.serve_marks other state)
    | _ => exact (kept (by simp) state).trans unmoved

/-- The overflow bytes are those that the history tells. -/
def Recorded (mounted : Mounted shape) (past : List (Arrival shape)) : Prop :=
  mounted.marks = (List.range mounted.binding.groupCount).map (marksOn past)

theorem recorded_of_blank {table : Table binding}
    (blank : ∀ group, table.buffer.overflow group = 0) : Recorded ⟨binding, table⟩ [] := by
  refine List.ext_getElem (by simp [length_marks]) fun number _ _ => ?_
  simp only [marks, List.getElem_map]
  exact blank _

theorem recorded_create {width : Width} {geometry : Geometry} {region : Region}
    {hash : shape.Key → UInt64} {factor : LoadFactor} {opened : Mounted shape}
    (created : create width geometry region hash factor = .ok opened) : opened.Recorded [] := by
  obtain ⟨binding, -, rfl⟩ := exists_of_create created
  exact recorded_of_blank fun group => Buffer.overflow_reset _ group

/-- A step that clears the table leaves a table without history. -/
theorem recorded_of_clears {step : Step shape σ} (clears : step.Clears) (state : σ) :
    (mounted.step step state).mounted.Recorded [] ∧ ∀ past, mounted.remember past step = [] := by
  cases step with
  | filter visit => exact absurd clears id
  | act action =>
    cases action with
    | ask request =>
      cases request with
      | clear => exact ⟨recorded_of_blank fun group => Buffer.overflow_reset _ group, fun _ => rfl⟩
      | _ => exact absurd clears id
    | _ => exact absurd clears id

theorem Recorded.step {past : List (Arrival shape)} (recorded : mounted.Recorded past)
    (searchable : mounted.table.Searchable) (step : Step shape σ) (state : σ) :
    (mounted.step step state).mounted.Recorded (mounted.remember past step) := by
  by_cases clears : step.Clears
  · obtain ⟨blank, nothing⟩ := mounted.recorded_of_clears clears state
    rw [nothing]
    exact blank
  · have marked := step_marks searchable clears state
    have count := congrArg List.length marked
    rw [List.length_mapIdx, length_marks, length_marks] at count
    unfold Recorded at recorded ⊢
    rw [remember_of_not_clears clears, marked, recorded, count]
    refine List.ext_getElem (by simp) fun number _ _ => ?_
    simp only [List.getElem_mapIdx, List.getElem_map, List.getElem_range, marksOn_append]

theorem Recorded.follow {past : List (Arrival shape)} (recorded : mounted.Recorded past)
    (searchable : mounted.table.Searchable) (steps : List (Step shape σ)) (state : σ) :
    (mounted.follow steps state).1.Recorded (mounted.history past steps state) := by
  induction steps generalizing mounted past state with
  | nil => exact recorded
  | cons step rest ih =>
    exact ih (recorded.step searchable step state) (searchable_step searchable step state) _

theorem Recorded.overflowedGroups (blank : mounted.Recorded []) :
    mounted.table.stats.overflowedGroups = 0 := by
  rw [overflowedGroups_eq, blank, List.countP_eq_zero]
  intro mark member
  obtain ⟨number, -, rfl⟩ := List.mem_map.1 member
  exact Bool.false_ne_true

/-- What a step does to the overflow bytes. -/
structure Marks (mounted : Mounted shape) (step : Step shape σ) (state : σ) : Prop where
  /-- Clearing the table makes them zero. -/
  clears : step.Clears → (mounted.step step state).mounted.table.stats.overflowedGroups = 0
  /-- Any other step leaves them alone, unless it brings new keys. -/
  keeps : ¬step.Clears → mounted.arrivals step = [] →
    (mounted.step step state).mounted.marks = mounted.marks
  /-- No group that has a bit set loses it, whatever the new keys are. -/
  grows : ¬step.Clears → mounted.table.stats.overflowedGroups ≤
    (mounted.step step state).mounted.table.stats.overflowedGroups

theorem marks_step (searchable : mounted.table.Searchable) (step : Step shape σ) (state : σ) :
    mounted.Marks step state where
  clears clears := (mounted.recorded_of_clears clears state).1.overflowedGroups
  keeps other nothing := by
    rw [step_marks searchable other, nothing]
    exact (marks_of_markedBy (.refl mounted.table)).symm
  grows other := by
    rw [overflowedGroups_eq, overflowedGroups_eq, step_marks searchable other]
    exact countP_le_countP_mapIdx _ _

/-- In every session, abandoned passes and moves of the bytes included, the overflow byte of a group
is made up of the bits of the new keys that have passed the group since the table was created or
cleared. Nothing but new keys and clearing changes one; so the number of groups that have overflowed
is zero at first, goes back to zero when the table is cleared, and does not go down otherwise. -/
theorem overflow_history {width : Width} {geometry : Geometry} {region : Region}
    {hash : shape.Key → UInt64} {factor : LoadFactor} {opened : Mounted shape}
    (created : create width geometry region hash factor = .ok opened) :
    opened.table.stats.overflowedGroups = 0 ∧
    ∀ {σ : Type} (steps : List (Step shape σ)) (state : σ),
      let last := (opened.follow steps state).1
      last.marks =
        (List.range last.binding.groupCount).map (marksOn (opened.history [] steps state)) ∧
      last.table.stats.overflowedGroups ≤ last.binding.groupCount ∧
      ∀ {τ : Type} (step : Step shape τ) (state : τ), last.Marks step state := by
  have searchable := (sound_create created).searchable
  have recorded := recorded_create created
  refine ⟨recorded.overflowedGroups, fun {σ} steps state => ?_⟩
  have still := searchable_follow searchable steps state
  refine ⟨recorded.follow searchable steps state, ?_, fun step state => marks_step still step state⟩
  rw [overflowedGroups_eq, ← length_marks]
  exact List.countP_le_length

/-- The third key finds the second group full, and after it the fourth one the first group. What
they leave there stays when two of the keys are taken out, and is gone when the table is cleared. -/
theorem small_overflow_history :
    let steps := [.act (.insertByte 1 10), .act (.insertByte 2 20), .act (.insertByte 3 30),
      .act (.ask (.erase (Shape.byteKey 2))), .act (.insertByte 4 40),
      .act (.ask (.remove (Shape.byteKey 3)))]
    let last := (small.follow steps ()).1
    create .narrow ⟨63, 1⟩ Region.small Shape.byteHash .standard = .ok small ∧
      (small.history [] steps ()).length = 4 ∧ last.marks = [16, 8] ∧
      last.table.stats.overflowedGroups = 2 ∧
      (last.step (.act (.ask .clear)) ()).mounted.table.stats.overflowedGroups = 0 := by
  intro steps last
  obtain ⟨-, sessions⟩ := overflow_history create_small
  obtain ⟨recorded, -, marks⟩ := sessions steps ()
  have told : (List.range last.binding.groupCount).map (marksOn (small.history [] steps ())) =
      [16, 8] := by decide +kernel
  have counted : last.marks = [16, 8] := recorded.trans told
  refine ⟨create_small, by decide +kernel, counted, ?_, (marks _ ()).clears trivial⟩
  rw [overflowedGroups_eq, counted]
  rfl

end Mounted

end PackedTable
