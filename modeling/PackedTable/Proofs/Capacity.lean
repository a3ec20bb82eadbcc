import PackedTable.Proofs.Filling
import PackedTable.Proofs.Reachability
import PackedTable.Proofs.Threshold

/-!
A table takes new keys exactly as long as its size is below its threshold, however its keys are
hashed. The only refusal is that the table is full; that a probe runs out before that does not
happen. Under the load factor one the threshold is the number of slots with storage.
-/

namespace PackedTable

variable {shape : Shape} {length : Nat} {binding : Binding shape length} {σ : Type}

/-- What a successful insertion comes to: its key has the value that is reported, which is the one
offered if the key is new, and otherwise what the insertion makes of the old one. No other key is
concerned. -/
structure Table.Entered (table : Table binding) (insertion : Insertion shape σ) (state : σ)
    (after : Table binding) (stored : Stored binding) : Prop where
  holds : after.Holds insertion.key stored.value
  offered : stored.isNew = true → stored.value = (insertion.offer state).1
  kept : ∀ old, table.Holds insertion.key old →
    stored.isNew = false ∧ stored.value = insertion.keep old
  others : ∀ key value, key ≠ insertion.key → (after.Holds key value ↔ table.Holds key value)

namespace Table.Sound

variable {table : Table binding}

theorem canInsert_iff (table : Table binding) :
    table.canInsert = true ↔ table.size < table.maxLoad :=
  decide_eq_true_iff

theorem attempt_refused (sound : table.Sound) {insertion : Insertion shape σ} {state : σ}
    {fault : Fault} (refused : (insertion.attempt table state).1.outcome = .error fault) :
    ¬table.Has insertion.key ∧ table.size = table.maxLoad ∧
      fault = .tableFull table.size table.maxLoad := by
  rcases sound.key_cases insertion.key with
    ⟨slot, held, same⟩ | ⟨absent, room, slot, lands⟩ | ⟨absent, full⟩
  · rw [sound.attempt_present held same] at refused
    cases refused
  · rw [sound.attempt_absent absent room lands] at refused
    cases refused
  · rw [sound.attempt_full absent full] at refused
    have bound := sound.bounded
    exact ⟨absent, by omega, (Except.error.inj refused).symm⟩

theorem attempt_of_has (sound : table.Sound) {insertion : Insertion shape σ}
    (present : table.Has insertion.key) (state : σ) :
    ∃ stored, (insertion.attempt table state).1.outcome = .ok stored ∧ stored.isNew = false := by
  obtain ⟨slot, held, same⟩ := present
  rw [sound.attempt_present held same]
  exact ⟨_, rfl, rfl⟩

theorem attempt_isNew_iff (sound : table.Sound) {insertion : Insertion shape σ}
    (absent : ¬table.Has insertion.key) (state : σ) :
    (∃ stored, (insertion.attempt table state).1.outcome = .ok stored ∧ stored.isNew = true) ↔
      table.canInsert = true := by
  rw [canInsert_iff]
  constructor
  · rintro ⟨stored, accepted, -⟩
    by_contra full
    rw [sound.attempt_full absent full] at accepted
    cases accepted
  · intro room
    obtain ⟨slot, lands⟩ := Option.isSome_iff_exists.1
      (sound.landing?_isSome room (table.hash insertion.key))
    rw [sound.attempt_absent absent room lands]
    exact ⟨_, rfl, rfl⟩

theorem attempt_entered (sound : table.Sound) {insertion : Insertion shape σ} {state : σ}
    {stored : Stored binding}
    (accepted : (insertion.attempt table state).1.outcome = .ok stored) :
    table.Entered insertion state (insertion.attempt table state).1.table stored := by
  rcases sound.key_cases insertion.key with
    ⟨slot, held, same⟩ | ⟨absent, room, slot, lands⟩ | ⟨absent, full⟩
  · rw [sound.attempt_present held same] at accepted ⊢
    obtain rfl := Except.ok.inj accepted
    refine ⟨(sound.holds_setValue held same _).2 ((if_pos rfl).mpr rfl), nofun, ?_, ?_⟩
    · intro old holds
      exact ⟨rfl, congrArg insertion.keep ((sound.holds_iff held same).1 holds)⟩
    · intro key value apart
      exact (sound.holds_setValue held same _).trans (iff_of_eq (if_neg apart))
  · rw [sound.attempt_absent absent room lands] at accepted ⊢
    obtain rfl := Except.ok.inj accepted
    refine ⟨(sound.holds_place lands absent room _).2 ((if_pos rfl).mpr rfl), fun _ => rfl, ?_, ?_⟩
    · intro old holds
      exact absurd (has_iff_exists_holds.2 ⟨old, holds⟩) absent
    · intro key value apart
      exact (sound.holds_place lands absent room _).trans (iff_of_eq (if_neg apart))
  · rw [sound.attempt_full absent full] at accepted
    cases accepted

theorem extend_refused (sound : table.Sound) {pairs : List (shape.Key × shape.Value)}
    {fault : Fault} (refused : (table.extend pairs).outcome = .error fault) :
    ∃ before key value after, pairs = before ++ (key, value) :: after ∧
      (table.extend before).outcome = .ok () ∧
      let reached := (table.extend before).table
      ¬reached.Has key ∧ reached.size = reached.maxLoad ∧
        fault = .tableFull reached.size reached.maxLoad := by
  induction pairs generalizing table with
  | nil => cases refused
  | cons pair rest ih =>
    obtain ⟨key, value⟩ := pair
    rcases sound.key_cases key with
      ⟨slot, held, same⟩ | ⟨absent, room, slot, lands⟩ | ⟨absent, full⟩
    · rw [sound.extend_present held same] at refused
      obtain ⟨before, last, stored, after, rfl, accepted, reached⟩ := ih sound refused
      refine ⟨(key, value) :: before, last, stored, after, rfl, ?_⟩
      rw [sound.extend_present held same]
      exact ⟨accepted, reached⟩
    · rw [sound.extend_absent absent room lands] at refused
      obtain ⟨before, last, stored, after, rfl, accepted, reached⟩ :=
        ih (sound.place lands absent room value) refused
      refine ⟨(key, value) :: before, last, stored, after, rfl, ?_⟩
      rw [sound.extend_absent absent room lands]
      exact ⟨accepted, reached⟩
    · rw [sound.extend_full absent full] at refused
      have bound := sound.bounded
      refine ⟨[], key, value, rest, rfl, rfl, absent, ?_, (Except.error.inj refused).symm⟩
      change table.size = table.maxLoad
      omega

theorem extend_new (sound : table.Sound) {pairs : List (shape.Key × shape.Value)}
    (distinct : (pairs.map Prod.fst).Nodup) (absent : ∀ pair ∈ pairs, ¬table.Has pair.1)
    (room : table.size + pairs.length ≤ table.maxLoad) :
    (table.extend pairs).outcome = .ok () ∧
      (table.extend pairs).table.size = table.size + pairs.length ∧
      ∀ key value, (table.extend pairs).table.Holds key value ↔
        (key, value) ∈ pairs ∨ table.Holds key value := by
  obtain ⟨last, filled⟩ := sound.exists_filled distinct absent room
  rw [filled.extend_eq sound]
  exact ⟨rfl, filled.size_eq, filled.holds_iff sound⟩

end Table.Sound

namespace Mounted

/-- In a table in use an insertion under a key that is present always succeeds, and one under an
absent key exactly if there is room; what has succeeded can be looked up. No insertion, and no list
of them, fails for another reason than that the table is full. Under the load factor one a table
takes, whatever the hash, as many distinct keys as it has slots with storage. -/
theorem Reachable.capacity_guarantee {mounted : Mounted shape} (reachable : mounted.Reachable) :
    (∀ (insertion : Insertion shape σ) (state : σ),
      let attempt := (insertion.attempt mounted.table state).1
      let outcome := attempt.outcome
      (∀ stored, outcome = .ok stored →
        mounted.table.Entered insertion state attempt.table stored) ∧
      (mounted.table.Has insertion.key → ∃ stored, outcome = .ok stored ∧ stored.isNew = false) ∧
      (¬mounted.table.Has insertion.key →
        ((∃ stored, outcome = .ok stored ∧ stored.isNew = true) ↔
          mounted.table.canInsert = true)) ∧
      ∀ fault, outcome = .error fault →
        ¬mounted.table.Has insertion.key ∧ mounted.table.size = mounted.table.maxLoad ∧
          fault = .tableFull mounted.table.size mounted.table.maxLoad) ∧
    (∀ (pairs : List (shape.Key × shape.Value)) (fault : Fault),
      (mounted.table.extend pairs).outcome = .error fault →
      ∃ before key value after, pairs = before ++ (key, value) :: after ∧
        (mounted.table.extend before).outcome = .ok () ∧
        let reached := (mounted.table.extend before).table
        ¬reached.Has key ∧ reached.size = reached.maxLoad ∧
          fault = .tableFull reached.size reached.maxLoad) ∧
    (∀ (width : Width) (geometry : Geometry) (region : Region) (hash : shape.Key → UInt64)
      (opened : Mounted shape), Mounted.create width geometry region hash .one = .ok opened →
      ∀ pairs : List (shape.Key × shape.Value), (pairs.map Prod.fst).Nodup →
        pairs.length ≤ (geometry.mask + 1) * width.slots - 1 →
        let filled := opened.table.extend pairs
        filled.outcome = .ok () ∧ filled.table.size = pairs.length ∧
          ∀ key value, filled.table.Holds key value ↔ (key, value) ∈ pairs) := by
  have sound := reachable.sound
  refine ⟨fun insertion state => ⟨?_, ?_, ?_, ?_⟩, fun pairs fault => sound.extend_refused, ?_⟩
  · intro stored accepted
    exact sound.attempt_entered accepted
  · intro present
    exact sound.attempt_of_has present state
  · intro absent
    exact sound.attempt_isNew_iff absent state
  · intro fault refused
    exact sound.attempt_refused refused
  · intro width geometry region hash opened created pairs distinct few
    obtain ⟨rfl, rfl, rfl, empty, limit, absent⟩ := create_eq_ok created
    rw [Binding.threshold_one] at limit
    have whole : opened.binding.capacity =
        (opened.binding.geometry.mask + 1) * opened.binding.width.slots - 1 := rfl
    obtain ⟨accepted, size, holds⟩ := (sound_create created).extend_new distinct
      (fun pair _ => absent pair.1) (by omega)
    refine ⟨accepted, by omega, fun key value => (holds key value).trans (or_iff_left ?_)⟩
    intro before
    exact absent key (Table.has_iff_exists_holds.2 ⟨value, before⟩)

/-- The small table is full with three elements. It answers for the third one with the value that it
has, and takes no fourth one. Under the load factor one three elements are what it takes, too. -/
theorem filled_refuses :
    let put (key : UInt8) : Insertion Shape.bytes Unit :=
      .first (Shape.byteKey key) (Shape.byteValue 40)
    let outcome (key : UInt8) := ((put key).attempt filled.table ()).1.outcome
    filled.Reachable ∧ filled.table.Has (Shape.byteKey 3) ∧ ¬filled.table.Has (Shape.byteKey 4) ∧
      (∃ stored, outcome 3 = .ok stored ∧ stored.isNew = false ∧
        stored.value = Shape.byteValue 30) ∧
      (¬∃ stored, outcome 4 = .ok stored ∧ stored.isNew = true) ∧
      ∃ opened : Mounted Shape.bytes,
        Mounted.create .narrow ⟨63, 1⟩ Region.small Shape.byteHash .one = .ok opened ∧
        let full := opened.table.extend (([1, 2, 3] : List UInt8).map fun byte =>
          (Shape.byteKey byte, Shape.byteValue byte))
        full.outcome = .ok () ∧ full.table.Holds (Shape.byteKey 3) (Shape.byteValue 3) := by
  intro put outcome
  obtain ⟨insertions, -, whole⟩ := @Reachable.capacity_guarantee _ Unit _ reachable_filled
  have third : filled.table.Has (Shape.byteKey 3) := by decide +kernel
  have fourth : ¬filled.table.Has (Shape.byteKey 4) := by decide +kernel
  obtain ⟨entered, stays, -⟩ := insertions (put 3) ()
  obtain ⟨stored, accepted, known⟩ := stays third
  have thirty : filled.table.Holds (Shape.byteKey 3) (Shape.byteValue 30) :=
    ⟨⟨1, by decide⟩, by decide +kernel⟩
  have value := ((entered stored accepted).kept _ thirty).2
  have refused := (insertions (put 4) ()).2.2.1 fourth
  have closed : ¬filled.table.canInsert = true := by decide +kernel
  obtain ⟨taken, -, holds⟩ := whole .narrow ⟨63, 1⟩ Region.small Shape.byteHash _ rfl
    (([1, 2, 3] : List UInt8).map fun byte => (Shape.byteKey byte, Shape.byteValue byte))
    (by decide) (by decide)
  exact ⟨reachable_filled, third, fourth, ⟨stored, accepted, known, value⟩,
    fun new => closed (refused.1 new), _, rfl, taken, (holds _ _).2 (by decide)⟩

end Mounted

end PackedTable
