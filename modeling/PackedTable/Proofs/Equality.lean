import PackedTable.Proofs.Filling
import PackedTable.Proofs.Reachability
import PackedTable.Proofs.Threshold

/-!
Comparing tables. A comparison goes over the elements of one table and looks each key up in the
other one, wherever that lies and however it hashes. Finding all of them is enough, since both
tables have equally many keys. What is compared is content alone, so the order in which two tables
were filled makes no difference.
-/

namespace PackedTable

variable {shape : Shape} {length otherLength : Nat} {binding : Binding shape length}
  {other : Binding shape otherLength}

namespace Table

namespace Sound

variable {left : Table binding} {right : Table other}

/-- What is checked: the sizes, and for each element on the left a value on the right. -/
theorem sameContent_iff_found (sound : left.Sound) (sound' : right.Sound)
    (same : shape.Value → shape.Value → Bool) :
    left.sameContent same right = true ↔ left.size = right.size ∧
      ∀ key value, left.Holds key value →
        ∃ found, right.Holds key found ∧ same found value = true := by
  unfold sameContent
  rw [Bool.and_eq_true, beq_iff_eq, List.all_eq_true, Prod.forall]
  apply and_congr_right
  intro sizes
  apply forall₂_congr
  intro key value
  rw [sound.mem_entries]
  apply imp_congr_right
  intro holds
  simp only [← sound'.get?_eq_some]
  cases right.get? key with
  | none => simp
  | some found => simp

theorem has_iff_of_subset (sound : left.Sound) (sound' : right.Sound)
    (sizes : left.size = right.size) (found : ∀ key, left.Has key → right.Has key)
    (key : shape.Key) : left.Has key ↔ right.Has key := by
  have subset : left.heldKeys ⊆ right.heldKeys := by
    intro key member
    exact mem_heldKeys.2 (found key (mem_heldKeys.1 member))
  have counts : right.heldKeys.card ≤ left.heldKeys.card := by
    rw [sound.card_heldKeys, sound'.card_heldKeys, sizes]
  rw [← mem_heldKeys, ← mem_heldKeys, Finset.eq_of_subset_of_card_le subset counts]

theorem size_eq_of_has_iff (sound : left.Sound) (sound' : right.Sound)
    (keys : ∀ key, left.Has key ↔ right.Has key) : left.size = right.size := by
  have same : left.heldKeys = right.heldKeys := by
    ext key
    rw [mem_heldKeys, mem_heldKeys, keys]
  rw [← sound.card_heldKeys, same, sound'.card_heldKeys]

theorem sameContent_iff (sound : left.Sound) (sound' : right.Sound)
    (same : shape.Value → shape.Value → Bool) :
    left.sameContent same right = true ↔
      (∀ key, left.Has key ↔ right.Has key) ∧
      ∀ key value found, left.Holds key value → right.Holds key found →
        same found value = true := by
  rw [sound.sameContent_iff_found sound']
  constructor
  case mp =>
    intro ⟨sizes, values⟩
    constructor
    -- every key on the left is found, and the right has no more keys than that
    · apply sound.has_iff_of_subset sound' sizes
      intro key present
      obtain ⟨value, holds⟩ := has_iff_exists_holds.1 present
      obtain ⟨found, holds', -⟩ := values key value holds
      exact has_iff_exists_holds.2 ⟨found, holds'⟩
    · intro key value found holds holds'
      obtain ⟨stored, stands, equal⟩ := values key value holds
      rw [sound'.holds_unique holds' stands]
      exact equal
  case mpr =>
    intro ⟨keys, values⟩
    constructor
    · exact sound.size_eq_of_has_iff sound' keys
    · intro key value holds
      have present := (keys key).1 (has_iff_exists_holds.2 ⟨value, holds⟩)
      obtain ⟨found, holds'⟩ := has_iff_exists_holds.1 present
      exact ⟨found, holds', values key value found holds holds'⟩

theorem sameContent_swap (sound : left.Sound) (sound' : right.Sound)
    {same : shape.Value → shape.Value → Bool}
    (symmetric : ∀ value found, same value found = same found value)
    (equal : left.sameContent same right = true) : right.sameContent same left = true := by
  rw [sound.sameContent_iff sound'] at equal
  rw [sound'.sameContent_iff sound]
  obtain ⟨keys, values⟩ := equal
  constructor
  · intro key
    exact (keys key).symm
  · intro key value found holds holds'
    rw [symmetric]
    exact values key found value holds' holds

theorem sameContent_comm (sound : left.Sound) (sound' : right.Sound)
    {same : shape.Value → shape.Value → Bool}
    (symmetric : ∀ value found, same value found = same found value) :
    left.sameContent same right = right.sameContent same left := by
  apply Bool.eq_iff_iff.2
  constructor
  · exact sound.sameContent_swap sound' symmetric
  · exact sound'.sameContent_swap sound symmetric

end Sound

end Table

namespace Mounted

/-- Tables are equal if and only if they have the same keys and, under each of them, the same value,
where the value on the right is the first one that `same` is given. If it does not matter to `same`
which one is first, it does not matter which table is on the left. Equality is content only, so
tables that were filled with the same pairs are equal. -/
theorem Reachable.content_equality {left right : Mounted shape} (reachable : left.Reachable)
    (reachable' : right.Reachable) (same : shape.Value → shape.Value → Bool) :
    (left.table.sameContent same right.table = true ↔
      (∀ key, left.table.Has key ↔ right.table.Has key) ∧
      ∀ key value found, left.table.Holds key value → right.table.Holds key found →
        same found value = true) ∧
    ((∀ value found, same value found = same found value) →
      left.table.sameContent same right.table = right.table.sameContent same left.table) ∧
    ∀ supplies supplies' : List (Supply shape), left.table.size = 0 → right.table.size = 0 →
      (Supply.all supplies).Perm (Supply.all supplies') →
      ((Supply.all supplies).map Prod.fst).Nodup →
      (Supply.all supplies).length ≤ left.table.maxLoad →
      (Supply.all supplies).length ≤ right.table.maxLoad →
      (∀ pair ∈ Supply.all supplies, same pair.2 pair.2 = true) →
      let filled := left.run (supplies.map Supply.action) ()
      let filled' := right.run (supplies'.map Supply.action) ()
      filled.2.2 = supplies.map Supply.reply ∧ filled'.2.2 = supplies'.map Supply.reply ∧
        filled.1.table.sameContent same filled'.1.table = true := by
  have sound := reachable.sound
  have sound' := reachable'.sound
  refine ⟨sound.sameContent_iff sound' same, sound.sameContent_comm sound', ?_⟩
  intro supplies supplies' empty empty' perm distinct room room' reflexive
  have distinct' := (perm.map Prod.fst).nodup_iff.1 distinct
  have few : (Supply.all supplies').length ≤ right.table.maxLoad := perm.length_eq ▸ room'
  obtain ⟨last, whole, run, holds⟩ := fill sound empty distinct room
  obtain ⟨last', whole', run', holds'⟩ := fill sound' empty' distinct' few
  rw [run, run']
  refine ⟨rfl, rfl, (whole.sameContent_iff whole' same).2 ⟨?_, ?_⟩⟩
  · intro key
    rw [Table.has_iff_exists_holds, Table.has_iff_exists_holds]
    apply exists_congr
    intro value
    rw [holds, holds', perm.mem_iff]
  · intro key value found stored stored'
    rw [holds', ← perm.mem_iff, ← holds] at stored'
    rw [whole.holds_unique stored' stored]
    exact reflexive (key, value) ((holds key value).1 stored)

end Mounted

/-! ### The small table and a larger one -/

/-- One-byte numbers, where the zero has two signs and one pattern is not a number. -/
def Shape.sameNumber (a b : Shape.bytes.Value) : Bool :=
  a == b && a[0] != 0xFF || a[0] &&& 0x7F == 0 && b[0] &&& 0x7F == 0

theorem Shape.sameNumber_comm (a b : Shape.bytes.Value) : sameNumber a b = sameNumber b a := by
  unfold sameNumber
  by_cases equal : a = b
  · rw [equal]
  · have converse : ¬b = a := Ne.symm equal
    simp only [beq_false_of_ne equal, beq_false_of_ne converse, Bool.false_and, Bool.false_or]
    exact Bool.and_comm _ _

def Region.large : Region := ⟨256, Array.replicate 32 0xBB⟩

def Binding.large : Binding Shape.bytes Region.large.bytes.size where
  width := .narrow
  geometry := ⟨62, ⟨2, by decide⟩⟩
  address := 256
  keyed := Shape.bytes_keyed
  addressable := by decide
  fits := by decide
  aligned := by decide

/-- A hash under which the keys of one byte have other tags than in the small table. -/
def Shape.otherHash (key : Shape.bytes.Key) : UInt64 := Shape.byteHash key * 3

def Mounted.large : Mounted Shape.bytes :=
  ⟨Binding.large,
    Table.create Binding.large Region.large.bytes.toVector Shape.otherHash .one⟩

theorem Mounted.create_large :
    create .narrow ⟨62, 2⟩ Region.large Shape.otherHash .one = .ok large := rfl

/-- Three keys go into either table, in different orders and by different requests. The tables stay
equal while a zero changes its sign, and are not equal with a value that is not a number. -/
theorem Mounted.small_content_equality :
    let key := Shape.byteKey
    let value := Shape.byteValue
    let supplies := [.one (.defaulted (key 1) (value 0)),
      .many [(key 2, value 20), (key 3, value 30)]]
    let supplies' := [.one (.supplied (key 3) fun _ => (value 30, ())),
      .one (.last (key 1) (value 0)), .one (.first (key 2) (value 20))]
    let filled := (small.run (supplies.map Supply.action) ()).1
    let filled' := (large.run (supplies'.map Supply.action) ()).1
    let changed (byte : UInt8) : Mounted Shape.bytes :=
      (filled'.act
        (.ask (.update (key 1) fun _ => value byte) : Action Shape.bytes Unit) ()).mounted
    (small.Reachable ∧ large.Reachable) ∧
    (filled.table.sameContent Shape.sameNumber filled'.table = true ∧
      filled.table.sameContent Shape.sameNumber (changed 0x80).table = true ∧
      (changed 0xFF).table.sameContent Shape.sameNumber (changed 0xFF).table = false) ∧
    small.table.sameContent Shape.sameNumber large.table =
      large.table.sameContent Shape.sameNumber small.table := by
  intro key value supplies supplies' filled filled' changed
  have reachable : small.Reachable := .create create_small
  have reachable' : large.Reachable := .create create_large
  obtain ⟨-, symmetric, fills⟩ := reachable.content_equality reachable' Shape.sameNumber
  obtain ⟨-, -, equal⟩ := fills supplies supplies' rfl rfl (by decide) (by decide)
    (by decide +kernel) (by decide +kernel) (by decide)
  refine ⟨⟨reachable, reachable'⟩, ⟨equal, ?_, ?_⟩, symmetric Shape.sameNumber_comm⟩
  · decide +kernel
  · decide +kernel

end PackedTable
