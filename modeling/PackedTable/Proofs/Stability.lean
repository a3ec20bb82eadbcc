import PackedTable.Proofs.Abandonment
import PackedTable.Proofs.Effects
import PackedTable.Proofs.Landing

/-!
No operation moves an element. A key stays in its slot through every step that does not take it out,
whatever is put in, taken out or dropped around it, and also when the bytes are moved. So the slot
in which an insertion has put a new key is the one in which the key is found from then on.
-/

namespace PackedTable

variable {shape : Shape} {length length' : Nat} {binding : Binding shape length}
  {site : binding.Site length'} {σ : Type}

theorem Sweep.held_of_not_dropped {visit : Visitor shape σ} {slots : List binding.Slot}
    {buffer : Buffer binding} {state : σ} {slot : binding.Slot} (dropped : Nat)
    (held : buffer.isOccupied slot = true)
    (spared : (slot, Verdict.drop) ∉ shown visit slots buffer state) :
    (run visit slots buffer dropped state).buffer.isOccupied slot = true ∧
      (run visit slots buffer dropped state).buffer.key slot = buffer.key slot := by
  induction slots generalizing buffer dropped state with
  | nil => exact ⟨held, rfl⟩
  | cons first rest ih =>
    cases seen : buffer.isOccupied first with
    | false =>
      simp only [run, shown, seen, Bool.false_eq_true, ↓reduceIte] at spared ⊢
      exact ih dropped held spared
    | true =>
      simp only [run, shown, seen, ↓reduceIte] at spared ⊢
      generalize visit state (buffer.key first) (buffer.value first) = decision at spared ⊢
      obtain ⟨verdict, value, next⟩ := decision
      have still : (buffer.setValue first value).isOccupied slot = true :=
        (Buffer.isOccupied_setValue _ _ _ _).trans held
      have named : (buffer.setValue first value).key slot = buffer.key slot :=
        Buffer.key_setValue _ _ _ _
      cases verdict with
      | keep =>
        obtain ⟨kept, same⟩ := ih dropped still
          fun later => spared (List.mem_cons_of_mem _ later)
        exact ⟨kept, same.trans named⟩
      | drop =>
        have apart : slot ≠ first := by
          rintro rfl
          exact spared List.mem_cons_self
        have kept := (Buffer.isOccupied_release _ first slot).2 ⟨apart, still⟩
        obtain ⟨kept, same⟩ := ih (dropped + 1) kept
          fun later => spared (List.mem_cons_of_mem _ later)
        rw [Buffer.release, Buffer.key_setTag] at same
        exact ⟨kept, same.trans named⟩
      | abandon => exact ⟨still, named⟩

namespace Table

variable {table : Table binding} {slot : binding.Slot} {key : shape.Key}

/-- The visitor of a pass does not drop the key. -/
def Spared (table : Table binding) (key : shape.Key) (visit : Visitor shape σ) (state : σ) : Prop :=
  ∀ slot, table.HoldsAt slot key → (slot, Verdict.drop) ∉ table.shown visit state

/-- The request does not take the key out: it does not name the key for removal, does not drop it in
a pass, and does not start over. -/
def LeavesIn (table : Table binding) (key : shape.Key) : Request shape σ → σ → Prop
  | .erase other, _ => other ≠ key
  | .remove other, _ => other ≠ key
  | .removeEntry other, _ => other ≠ key
  | .retain judge, state => table.Spared key (Visitor.ofJudge judge) state
  | .clear, _ => False
  | _, _ => True

namespace HoldsAt

theorem setValue (holds : table.HoldsAt slot key) (other : binding.Slot) (value : shape.Value) :
    (table.setValue other value).HoldsAt slot key := by
  constructor
  · rw [Table.setValue, Buffer.isOccupied_setValue]
    exact holds.1
  · rw [Table.setValue, Buffer.key_setValue]
    exact holds.2

theorem removeSlot (holds : table.HoldsAt slot key) {other : binding.Slot} (apart : slot ≠ other) :
    (table.removeSlot other).2.HoldsAt slot key := by
  constructor
  · exact (Buffer.isOccupied_release _ _ _).2 ⟨apart, holds.1⟩
  · rw [Table.removeSlot, Buffer.release, Buffer.key_setTag]
    exact holds.2

theorem place (holds : table.HoldsAt slot key) {hash : UInt64} {other : binding.Slot}
    (lands : table.landing? hash = some other) (newKey : shape.Key) (value : shape.Value) :
    (table.place other hash newKey value).HoldsAt slot key := by
  have apart : other ≠ slot := by
    rintro rfl
    rw [HoldsAt, isOccupied_landing lands] at holds
    exact Bool.false_ne_true holds.1
  constructor
  · refine (Buffer.isOccupied_occupy _ _ _ _ _ _).2 (Or.inr ?_)
    rw [Buffer.isOccupied_markAll]
    exact holds.1
  · rw [Table.place, Buffer.key_occupy, if_neg apart, Buffer.key_markAll]
    exact holds.2

theorem exhaust (holds : table.HoldsAt slot key) (hash : UInt64) :
    (table.exhaust hash).HoldsAt slot key := by
  constructor
  · rw [Table.exhaust, Buffer.isOccupied_markAll]
    exact holds.1
  · rw [Table.exhaust, Buffer.key_markAll]
    exact holds.2

theorem attempt (holds : table.HoldsAt slot key) (insertion : Insertion shape σ) (state : σ) :
    (insertion.attempt table state).1.table.HoldsAt slot key := by
  rcases table.attempt_cases insertion state with
    ⟨found, -, comes⟩ | ⟨-, -, comes⟩ | ⟨other, -, -, lands, comes⟩ | ⟨-, -, -, comes⟩
  · rw [comes]
    exact holds.setValue found _
  · rw [comes]
    exact holds
  · rw [comes]
    exact holds.place lands _ _
  · rw [comes]
    exact holds.exhaust _

theorem remove (holds : table.HoldsAt slot key) {other : shape.Key} (different : other ≠ key) :
    (table.remove other).2.HoldsAt slot key := by
  refine remove_keeps (·.HoldsAt slot key) holds other fun target found => ?_
  have apart : slot ≠ target := by
    rintro rfl
    exact different ((find_sound found).2.2.symm.trans holds.2)
  exact holds.removeSlot apart

theorem retain (holds : table.HoldsAt slot key) {visit : Visitor shape σ} {state : σ}
    (spared : table.Spared key visit state) :
    (table.retain visit state).table.HoldsAt slot key := by
  obtain ⟨kept, same⟩ := Sweep.held_of_not_dropped 0 holds.1 (spared slot holds)
  exact ⟨kept, same.trans holds.2⟩

theorem serve (holds : table.HoldsAt slot key) {request : Request shape σ} {state : σ}
    (leaves : table.LeavesIn key request state) :
    (table.serve request state).table.HoldsAt slot key := by
  refine serve_keeps (·.HoldsAt slot key) ?_ ?_ holds request state ?_ ?_ ?_
  · intro before other value holds
    exact holds.setValue other value
  · intro τ before insertion state holds
    exact holds.attempt insertion state
  · intro other takes
    refine holds.remove ?_
    cases request with
    | erase _ | remove _ | removeEntry _ => exact takes ▸ leaves
    | _ => exact absurd takes id
  · rintro judge rfl
    exact holds.retain leaves
  · rintro rfl
    exact absurd leaves id

theorem alike {maxLoad : Nat} {right : Table site.binding} (holds : table.HoldsAt slot key)
    (alike : (table.withThreshold maxLoad).Alike right) : HoldsAt right slot key :=
  ⟨(alike.buffer.isOccupied slot).trans holds.1, (alike.buffer.key slot holds.1).trans holds.2⟩

end HoldsAt

end Table

namespace Mounted

/-- The step does not take the key out of the table. -/
def LeavesIn (mounted : Mounted shape) (key : shape.Key) : Step shape σ → σ → Prop
  | .filter visit, state => mounted.table.Spared key visit state
  | .act (.ask request), state => mounted.table.LeavesIn key request state
  | .act (.removeAt number), _ => ∀ slot, slot.val = number → ¬mounted.table.HoldsAt slot key
  | _, _ => True

def LeavesInThroughout (key : shape.Key) : Mounted shape → List (Step shape σ) → σ → Prop
  | _, [], _ => True
  | mounted, step :: rest, state =>
    let turn := mounted.step step state
    mounted.LeavesIn key step state ∧ LeavesInThroughout key turn.mounted rest turn.state

def StandsAt (mounted : Mounted shape) (number : Nat) (key : shape.Key) : Prop :=
  ∃ slot : mounted.binding.Slot, slot.val = number ∧ mounted.table.HoldsAt slot key

namespace StandsAt

variable {mounted : Mounted shape} {number : Nat} {key : shape.Key}

theorem step (stands : mounted.StandsAt number key) {step : Step shape σ} {state : σ}
    (leaves : mounted.LeavesIn key step state) :
    (mounted.step step state).mounted.StandsAt number key := by
  obtain ⟨slot, numbered, holds⟩ := stands
  cases step with
  | filter visit => exact ⟨slot, numbered, holds.retain leaves⟩
  | act action =>
    apply act_keeps (·.StandsAt number key) ⟨slot, numbered, holds⟩ action state
    · rintro request rfl
      exact ⟨slot, numbered, holds.serve leaves⟩
    · intro other value
      exact ⟨slot, numbered, holds.setValue other value⟩
    · rintro other target rfl named
      have apart : slot ≠ target := by
        rintro rfl
        exact leaves slot (Table.held?_eq_some named).2 holds
      exact ⟨slot, numbered, holds.removeSlot apart⟩
    · intro address rest maxLoad aligned _
      exact ⟨slot, numbered,
        holds.alike (alike_copyAt (mounted.extract_append_used rest) _ maxLoad)⟩

theorem follow (stands : mounted.StandsAt number key) {steps : List (Step shape σ)} {state : σ}
    (leaves : LeavesInThroughout key mounted steps state) :
    (mounted.follow steps state).1.StandsAt number key := by
  induction steps generalizing mounted state with
  | nil => exact stands
  | cons first rest ih => exact ih (stands.step leaves.1) leaves.2

end StandsAt

theorem find_eq_some_iff {mounted : Mounted shape} (searchable : mounted.table.Searchable)
    {number : Nat} {key : shape.Key} :
    (mounted.table.find key).map Fin.val = some number ↔ mounted.StandsAt number key := by
  rw [Option.map_eq_some_iff]
  constructor
  · rintro ⟨slot, found, numbered⟩
    exact ⟨slot, numbered, searchable.find_eq_some.1 found⟩
  · rintro ⟨slot, numbered, holds⟩
    exact ⟨slot, searchable.find_eq_some.2 holds, numbered⟩

/-- A key is found in the same slot as long as it is not taken out. -/
theorem find_follow {mounted : Mounted shape} (searchable : mounted.table.Searchable)
    {number : Nat} {key : shape.Key} (found : (mounted.table.find key).map Fin.val = some number)
    {steps : List (Step shape σ)} {state : σ}
    (leaves : LeavesInThroughout key mounted steps state) :
    ((mounted.follow steps state).1.table.find key).map Fin.val = some number := by
  have stands := (find_eq_some_iff searchable).1 found
  exact (find_eq_some_iff (searchable_follow searchable steps state)).2 (stands.follow leaves)

end Mounted

namespace Table

/-- What a new key leaves behind in the slot that it has come to after so many turns: marks in the
groups visited before and in no other one, and the promise that the key is found there through every
session that does not take it out. -/
structure Settled (before after : Table binding) (key : shape.Key) (turn : Nat)
    (slot : binding.Slot) : Prop where
  marks : ∀ group, after.buffer.overflow group =
    if ∃ earlier < turn,
        binding.geometry.visited (before.hash key) earlier = group.val then
      before.buffer.overflow group ||| Tag.overflowBit (before.hash key)
    else before.buffer.overflow group
  found : after.find key = some slot
  stays : ∀ {σ : Type} (steps : List (Step shape σ)) (state : σ),
    Mounted.LeavesInThroughout key ⟨binding, after⟩ steps state →
    ((Mounted.follow ⟨binding, after⟩ steps state).1.table.find key).map Fin.val = some slot.val

theorem settled_place {table : Table binding} {key : shape.Key} {turn : Nat} {slot : binding.Slot}
    (first : table.buffer.FirstFree (table.hash key) turn slot) {value : shape.Value}
    (left : (table.place slot (table.hash key) key value).Searchable) :
    table.Settled (table.place slot (table.hash key) key value) key turn slot := by
  have holds : (table.place slot (table.hash key) key value).HoldsAt slot key := by
    constructor
    · exact (Buffer.isOccupied_occupy _ _ _ _ _ _).2 (Or.inl rfl)
    · rw [place, Buffer.key_occupy, if_pos rfl]
  have found := left.find_eq_some.2 holds
  refine ⟨overflow_place first key value, found, fun steps state leaves => ?_⟩
  have opened :
      (Mounted.mk binding (table.place slot (table.hash key) key value)).table.Searchable :=
    left
  exact Mounted.find_follow opened (congrArg (Option.map Fin.val) found) leaves

end Table

namespace Mounted

/-- Below the threshold a new key comes to the first free slot in the order of its probe, whichever
way it is put in, and it marks the groups on the way. No step of a session, abandoned passes and
moves of the bytes included, brings a key to another slot than the one that it is in. -/
theorem Attained.slot_stable {mounted : Mounted shape} (attained : mounted.Attained) :
    (∀ key, ¬mounted.table.Has key → mounted.table.size < mounted.table.maxLoad →
      ∃ turn slot, mounted.table.buffer.FirstFree (mounted.table.hash key) turn slot ∧
        (∀ value, (mounted.table.insert key value).outcome = .ok (slot, true) ∧
          mounted.table.Settled (mounted.table.insert key value).table key turn slot) ∧
        ∀ {σ : Type} (insertion : Insertion shape σ) (write : shape.Value → shape.Value)
          (state : σ),
          insertion.key = key →
          let served := mounted.table.serve (.put insertion write) state
          served.reply = .stored (insertion.offer state).1 true ∧
            mounted.table.Settled served.table key turn slot) ∧
    ∀ {σ : Type} (key : shape.Key) (number : Nat) (steps : List (Step shape σ)) (state : σ),
      (mounted.table.find key).map Fin.val = some number →
      LeavesInThroughout key mounted steps state →
      ((mounted.follow steps state).1.table.find key).map Fin.val = some number := by
  have searchable := attained.searchable
  refine ⟨fun key absent room => ?_, fun key number steps state found leaves =>
    find_follow searchable found leaves⟩
  have missed := searchable.findWithHash_eq_none.2 absent
  obtain ⟨slot, lands⟩ := Option.isSome_iff_exists.1
    (searchable.landing?_isSome room (mounted.table.hash key))
  obtain ⟨turn, first⟩ := Table.landing?_eq_some_iff.1 lands
  refine ⟨turn, slot, first, fun value => ?_, ?_⟩
  · have comes : mounted.table.insert key value =
        ⟨mounted.table.place slot (mounted.table.hash key) key value, .ok (slot, true)⟩ := by
      rw [Table.insert, Table.findOrInsertWith_of_landing missed room lands]
    have left : (mounted.table.insertNew key value).table.Searchable :=
      searchable.attempt (.first key value : Insertion shape Unit) ()
    rw [Table.insertNew, comes] at left
    rw [comes]
    exact ⟨rfl, Table.settled_place first left⟩
  · rintro σ insertion write state rfl served
    have comes : served =
        ⟨mounted.table.place slot (mounted.table.hash insertion.key) insertion.key
          (write (insertion.offer state).1), (insertion.offer state).2,
          .stored (insertion.offer state).1 true⟩ := by
      simp only [served, Table.serve, Table.attempt_of_landing missed room lands, Attempt.written,
        Attempt.reply, Table.setValue_place]
    have left : served.table.Searchable := searchable.serve (.put insertion write) state
    rw [comes] at left ⊢
    exact ⟨rfl, Table.settled_place first left⟩

def halved : Mounted Shape.bytes := (small.run [.insertByte 1 10, .insertByte 2 20] ()).1

theorem reachable_halved : halved.Reachable :=
  .act (.act (.create create_small) _ ()) (.insertByte 2 20) ()

/-- The third key comes to the first group and stays there, although the key that was in its way is
taken out, a fourth one comes to the place that has become free, and the bytes are moved. -/
theorem halved_slot_stable :
    let third := Shape.byteKey 3
    let inserted := halved.table.insert third (Shape.byteValue 30)
    let steps : List (Step Shape.bytes Unit) :=
      [.act (.ask (.erase (Shape.byteKey 2))), .act (.insertByte 4 40), .act (.reopen 128 #[7] 3)]
    (∃ turn slot, halved.table.buffer.FirstFree (halved.table.hash third) turn slot ∧
      turn = 1 ∧ slot.val = 1 ∧ inserted.outcome = .ok (slot, true)) ∧
    ((follow ⟨halved.binding, inserted.table⟩ steps ()).1.table.find third).map Fin.val =
      some 1 := by
  intro third inserted steps
  have absent : ¬halved.table.Has third := by decide +kernel
  have room : halved.table.size < halved.table.maxLoad := by decide +kernel
  obtain ⟨turn, slot, first, settles, -⟩ :=
    reachable_halved.attained.slot_stable.1 third absent room
  have accepted : inserted.outcome = .ok (slot, true) := (settles (Shape.byteValue 30)).1
  have settled : halved.table.Settled inserted.table third turn slot :=
    (settles (Shape.byteValue 30)).2
  have numbered : inserted.table.find third = some ⟨1, by decide⟩ := by decide +kernel
  have second : slot = ⟨1, by decide⟩ := Option.some.inj (settled.found.symm.trans numbered)
  have later : turn = 1 := by
    have bound : turn < 2 := first.turn_lt
    have start : halved.binding.geometry.visited (halved.table.hash third) 0 = 1 := by
      decide +kernel
    have group := first.visited
    rw [second] at group
    have moved : turn ≠ 0 := by
      rintro rfl
      exact absurd (start.symm.trans group) (by decide +kernel)
    omega
  have leaves : LeavesInThroughout third ⟨halved.binding, inserted.table⟩ steps () := by
    have other : Shape.byteKey 2 ≠ third := by decide
    exact ⟨other, trivial, trivial, trivial⟩
  have stays := settled.stays steps () leaves
  rw [second] at stays
  exact ⟨⟨turn, slot, first, later, congrArg Fin.val second, accepted⟩, stays⟩

end Mounted

end PackedTable
