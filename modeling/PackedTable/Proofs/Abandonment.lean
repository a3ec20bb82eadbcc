import PackedTable.Proofs.SizeControl
import PackedTable.Proofs.Steps

/-!
Tables whose visitors may have abandoned a pass. Such a pass has taken elements out and has not said
so: the size counts too many from then on. All else that holds of a table in use still does, and
every further step keeps it. So what is found, and where a new key goes, is as in a table that has
counted its elements anew.
-/

namespace PackedTable

variable {shape : Shape} {length length' : Nat} {binding : Binding shape length}
  {site : binding.Site length'} {σ : Type}

namespace Table

variable {table : Table binding}

def counting (buffer : Buffer binding) (hash : shape.Key → UInt64) (maxLoad : Nat) :
    Table binding :=
  ⟨buffer, hash, buffer.occupied.card, maxLoad⟩

abbrev recounted (table : Table binding) : Table binding :=
  counting table.buffer table.hash table.maxLoad

/-- The invariant of a table whose size may count elements that are gone. -/
structure Searchable (table : Table binding) : Prop where
  recount : table.recounted.Sound
  backed : table.Backed
  ordered : table.InOrder

theorem Sound.recount (sound : table.Sound) : table.recounted.Sound where
  sentinel := sound.sentinel
  tagged := sound.tagged
  distinct := sound.distinct
  reached := sound.reached
  counted := rfl
  bounded := Nat.le_trans (Nat.le_of_eq sound.counted) sound.bounded
  threshold := sound.threshold

theorem Sound.searchable (sound : table.Sound) : table.Searchable where
  recount := sound.recount
  backed := Nat.le_of_eq sound.counted
  ordered := ⟨sound.bounded, sound.threshold⟩

theorem Sound.sweep {buffer : Buffer binding} {hash : shape.Key → UInt64} {maxLoad : Nat}
    (sound : (counting buffer hash maxLoad).Sound) (visit : Visitor shape σ)
    (slots : List binding.Slot) (dropped : Nat) (state : σ) :
    (counting (Sweep.run visit slots buffer dropped state).buffer hash maxLoad).Sound := by
  induction slots generalizing buffer dropped state with
  | nil => exact sound
  | cons slot rest ih =>
    cases held : buffer.isOccupied slot with
    | false =>
      simp only [Sweep.run, held, Bool.false_eq_true, ↓reduceIte]
      exact ih sound dropped state
    | true =>
      simp only [Sweep.run, held, ↓reduceIte]
      generalize visit state (buffer.key slot) (buffer.value slot) = decision
      obtain ⟨verdict, value, next⟩ := decision
      have shown : (counting (buffer.setValue slot value) hash maxLoad).Sound :=
        (sound.setValue slot value).recount
      have still : (buffer.setValue slot value).isOccupied slot = true :=
        (Buffer.isOccupied_setValue _ _ _ _).trans held
      cases verdict with
      | keep => exact ih shown dropped next
      | drop => exact ih (shown.removeSlot still).recount (dropped + 1) next
      | abandon => exact shown

structure Asks (table : Table binding) (hash : UInt64) (test : shape.Key → Bool) : Prop where
  hashed : ∀ key, test key = true → table.hash key = hash
  single : ∀ key key', test key = true → test key' = true → key = key'

theorem asks_key (table : Table binding) (key : shape.Key) :
    table.Asks (table.hash key) (· == key) where
  hashed _ same := congrArg table.hash (eq_of_beq same)
  single _ _ same same' := (eq_of_beq same).trans (eq_of_beq same').symm

namespace Searchable

/-! ### Searching -/

theorem findWithHash_eq_some (searchable : table.Searchable) {hash : UInt64}
    {test : shape.Key → Bool} (asks : table.Asks hash test) {slot : binding.Slot} :
    table.findWithHash hash test = some slot ↔
      table.buffer.isOccupied slot = true ∧ test (table.buffer.key slot) = true := by
  constructor
  · intro found
    obtain ⟨tagged, passes⟩ := findWithHash_sound found
    exact ⟨Buffer.isOccupied_of_slotTag tagged, passes⟩
  · rintro ⟨held, passes⟩
    have reached := searchable.recount.reached slot held
    have tagged := searchable.recount.tagged slot held
    have hashed : table.recounted.hash (table.recounted.buffer.key slot) = hash :=
      asks.hashed _ passes
    rw [hashed] at reached tagged
    obtain ⟨other, found⟩ := Option.isSome_iff_exists.1 (findWithHash_isSome reached tagged passes)
    obtain ⟨otherTagged, otherPasses⟩ := findWithHash_sound found
    have same := asks.single _ _ otherPasses passes
    have equal : other = slot :=
      searchable.recount.distinct other slot (Buffer.isOccupied_of_slotTag otherTagged) held same
    rw [← equal]
    exact found

theorem findWhere_eq_findWithHash (searchable : table.Searchable) {hash : UInt64}
    {test : shape.Key → Bool} (asks : table.Asks hash test) :
    table.findWhere hash test = table.findWithHash hash test := by
  rw [findWhere]
  split
  case isFalse => rfl
  case isTrue empty =>
    cases found : table.findWithHash hash test with
    | none => rfl
    | some slot =>
      have held := ((searchable.findWithHash_eq_some asks).1 found).1
      have backed : table.buffer.occupied.card ≤ table.size := searchable.backed
      have some : 0 < table.buffer.occupied.card :=
        Finset.card_pos.2 ⟨slot, Buffer.mem_occupied.2 held⟩
      have none : table.size = 0 := beq_iff_eq.1 empty
      omega

theorem find_eq_some (searchable : table.Searchable) {key : shape.Key} {slot : binding.Slot} :
    table.find key = some slot ↔
      table.buffer.isOccupied slot = true ∧ table.buffer.key slot = key := by
  rw [find, searchable.findWhere_eq_findWithHash (table.asks_key key),
    searchable.findWithHash_eq_some (table.asks_key key), beq_iff_eq]

theorem findWithHash_eq_none (searchable : table.Searchable) {key : shape.Key} :
    table.findWithHash (table.hash key) (· == key) = none ↔ ¬table.Has key :=
  searchable.recount.findWithHash_eq_none

theorem landing?_isSome (searchable : table.Searchable) (room : table.size < table.maxLoad)
    (hash : UInt64) : (table.landing? hash).isSome = true := by
  have below : table.recounted.size < table.recounted.maxLoad :=
    Nat.lt_of_le_of_lt searchable.backed room
  exact searchable.recount.landing?_isSome below hash

/-! ### Changes -/

theorem setValue (searchable : table.Searchable) (slot : binding.Slot) (value : shape.Value) :
    (table.setValue slot value).Searchable where
  recount := (searchable.recount.setValue slot value).recount
  backed := by
    unfold Backed
    rw [Table.setValue, Buffer.occupied_setValue]
    exact searchable.backed
  ordered := ⟨searchable.ordered.bounded, searchable.ordered.threshold⟩

theorem removeSlot (searchable : table.Searchable) {slot : binding.Slot}
    (held : table.buffer.isOccupied slot = true) : (table.removeSlot slot).2.Searchable := by
  have released : (counting (table.buffer.release slot) table.hash table.maxLoad).Sound :=
    (searchable.recount.removeSlot held).recount
  have counted : (table.buffer.release slot).occupied.card + 1 = table.buffer.occupied.card := by
    rw [Buffer.occupied_release]
    exact Finset.card_erase_add_one (Buffer.mem_occupied.2 held)
  have backed : table.buffer.occupied.card ≤ table.size := searchable.backed
  have exact := Word.sub_eq (show 1 ≤ table.size by omega) searchable.ordered.size_lt_limit
  have size : (table.removeSlot slot).2.size + 1 = table.size := by
    change Word.sub table.size 1 + 1 = table.size
    omega
  have bounded := searchable.ordered.bounded
  refine ⟨released, ?_, ?_, searchable.ordered.threshold⟩
  · change (table.buffer.release slot).occupied.card ≤ _
    omega
  · change _ ≤ table.maxLoad
    omega

theorem attempt (searchable : table.Searchable) (insertion : Insertion shape σ) (state : σ) :
    (insertion.attempt table state).1.table.Searchable := by
  refine ⟨?_, searchable.backed.attempt insertion state,
    (Call.keeps_put searchable.ordered insertion).ordered⟩
  rcases table.attempt_cases insertion state with
    ⟨slot, -, comes⟩ | ⟨-, -, comes⟩ | ⟨slot, missed, room, lands, comes⟩ |
      ⟨-, room, exhausted, -⟩
  · rw [comes]
    exact (searchable.setValue slot _).recount
  · rw [comes]
    exact searchable.recount
  · rw [comes]
    have below : table.recounted.size < table.recounted.maxLoad :=
      Nat.lt_of_le_of_lt searchable.backed room
    exact (searchable.recount.place lands (searchable.findWithHash_eq_none.1 missed) below
      (insertion.offer state).1).recount
  · have lands := searchable.landing?_isSome room (table.hash insertion.key)
    rw [exhausted] at lands
    cases lands

theorem extend (searchable : table.Searchable) (pairs : List (shape.Key × shape.Value)) :
    (table.extend pairs).table.Searchable :=
  extend_keeps Searchable (fun key value before =>
    before.attempt (.first key value : Insertion shape Unit) ()) searchable pairs

theorem retain (searchable : table.Searchable) (visit : Visitor shape σ) (state : σ) :
    (table.retain visit state).table.Searchable where
  recount := searchable.recount.sweep visit binding.allSlots 0 state
  backed := searchable.backed.retain searchable.ordered visit state
  ordered := (Call.keeps_retain searchable.ordered
    fun _ => searchable.backed.sweep_le visit state).ordered

theorem clear (searchable : table.Searchable) : table.clear.Searchable :=
  (Sound.ofReset table.buffer table.hash searchable.ordered.threshold).searchable

/-! ### Every step -/

theorem serve (searchable : table.Searchable) (request : Request shape σ) (state : σ) :
    (table.serve request state).table.Searchable := by
  refine serve_keeps Searchable ?_ ?_ searchable request state ?_ ?_ ?_
  · intro before slot value searchable
    exact searchable.setValue slot value
  · intro τ before insertion state searchable
    exact searchable.attempt insertion state
  · intro key _
    exact remove_keeps Searchable searchable key fun slot found =>
      searchable.removeSlot (find_sound found).2.1
  · intro judge _
    exact searchable.retain _ state
  · intro _
    exact searchable.clear

theorem moved (searchable : table.Searchable) {right : Table site.binding} {maxLoad : Nat}
    (alike : (table.withThreshold maxLoad).Alike right)
    (inOrder : table.size ≤ maxLoad ∧ maxLoad ≤ binding.capacity) : right.Searchable := by
  have occupied : right.buffer.occupied.card = table.buffer.occupied.card :=
    congrArg Finset.card alike.buffer.occupied
  have recounted : (table.recounted.withThreshold maxLoad).Alike right.recounted :=
    ⟨alike.buffer, alike.hash, occupied, alike.maxLoad⟩
  have below := Nat.le_trans searchable.backed inOrder.1
  have size : right.size = table.size := alike.size
  have limit : right.maxLoad = maxLoad := alike.maxLoad
  refine ⟨recounted.sound (searchable.recount.withThreshold below inOrder.2).recount, ?_, ?_, ?_⟩
  · unfold Backed
    rw [occupied, size]
    exact searchable.backed
  · rw [size, limit]
    exact inOrder.1
  · rw [limit]
    exact inOrder.2

end Searchable

end Table

namespace Mounted

theorem searchable_step {mounted : Mounted shape} (searchable : mounted.table.Searchable)
    (step : Step shape σ) (state : σ) : (mounted.step step state).mounted.table.Searchable := by
  cases step with
  | filter visit => exact searchable.retain visit state
  | act action =>
    apply act_keeps (·.table.Searchable) searchable action state
    · intro request _
      exact searchable.serve request state
    · intro slot value
      exact searchable.setValue slot value
    · intro number slot _ named
      exact searchable.removeSlot (Table.held?_eq_some named).1
    · intro address rest maxLoad aligned inOrder
      exact searchable.moved (alike_copyAt (mounted.extract_append_used rest) _ maxLoad) inOrder

theorem searchable_follow {mounted : Mounted shape} (searchable : mounted.table.Searchable)
    (steps : List (Step shape σ)) (state : σ) :
    (mounted.follow steps state).1.table.Searchable := by
  induction steps generalizing mounted state with
  | nil => exact searchable
  | cons step rest ih => exact ih (searchable_step searchable step state) _

/-- A table that some session leads to in which visitors may abandon their passes. -/
inductive Attained : Mounted shape → Prop
  | create {width : Width} {geometry : Geometry} {region : Region} {hash : shape.Key → UInt64}
      {factor : LoadFactor} {opened : Mounted shape}
      (created : Mounted.create width geometry region hash factor = .ok opened) : Attained opened
  | step {σ : Type} {mounted : Mounted shape} (before : Attained mounted)
      (step : Step shape σ) (state : σ) : Attained (mounted.step step state).mounted

theorem Reachable.attained {mounted : Mounted shape} (reachable : mounted.Reachable) :
    mounted.Attained := by
  induction reachable with
  | create created => exact .create created
  | act _ action state ih => exact ih.step (.act action) state

theorem Attained.searchable {mounted : Mounted shape} (attained : mounted.Attained) :
    mounted.table.Searchable := by
  induction attained with
  | create created => exact (sound_create created).searchable
  | step _ step state ih => exact searchable_step ih step state

/-- The filled table after a pass that has taken out the first element and was abandoned at the
second one. It says that it has three elements. -/
def deserted : Mounted Shape.bytes :=
  (filled.step (.filter fun _ key value =>
    (if key = Shape.byteKey 1 then .drop else .abandon, value, ())) ()).mounted

theorem attained_deserted : deserted.Attained := reachable_filled.attained.step _ ()

end Mounted

end PackedTable
