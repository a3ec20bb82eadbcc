import PackedTable.Proofs.Capacity
import PackedTable.Proofs.Doubling

/-!
The smallest table for a number of items. A larger table has a larger capacity and, under every load
factor, a threshold that is not smaller. So the planner, which stops at the first threshold that
reaches the number of items, stops at the smallest table that takes them, and it only gives up where
the capacity leaves the words: then no capacity that is a word is enough. A table of the planned
geometry takes as many distinct keys as were planned for, however they are hashed.
-/

namespace PackedTable

namespace Extent

theorem capacity?_eq_some_iff {slots mask count : Nat} :
    capacity? slots mask = some count ↔
      (mask + 1 < Word.limit ∧ (mask + 1) * slots < Word.limit ∧ 1 ≤ (mask + 1) * slots) ∧
        count = capacity slots mask := by
  constructor
  · intro found
    have exact := capacity?_eq_some found
    simp only [capacity?, Word.add?, Word.mul?, Word.sub?, Option.bind_eq_bind,
      Option.bind_eq_some_iff, Word.fit?_eq_some] at found
    obtain ⟨groups, ⟨small, rfl⟩, all, ⟨small', rfl⟩, last⟩ := found
    split at last
    case isTrue some => exact ⟨⟨small, small', some⟩, exact⟩
    case isFalse => cases last
  · rintro ⟨⟨small, small', some⟩, rfl⟩
    simp only [capacity?, Word.add?, Word.mul?, Word.fit?_of_lt small, Word.fit?_of_lt small',
      Option.bind_eq_bind, Option.bind_some]
    exact Word.sub?_of_le some

end Extent

namespace Plan

variable {slots items groups groups' count : Nat} {factor : LoadFactor}

theorem capacity_eq_ok_iff :
    capacity slots (groups - 1) = .ok count ↔ Extent.capacity? slots (groups - 1) = some count := by
  unfold capacity
  cases Extent.capacity? slots (groups - 1) with
  | none => exact iff_of_false nofun nofun
  | some found => exact ⟨fun same => congrArg some (Except.ok.inj same),
      fun same => congrArg Except.ok (Option.some.inj same)⟩

theorem capacity_eq_error {mask : Nat} {fault : Fault}
    (refused : capacity slots mask = .error fault) : fault = .capacityNotAddressable := by
  unfold capacity at refused
  cases found : Extent.capacity? slots mask with
  | none =>
    rw [found] at refused
    exact (Except.error.inj refused).symm
  | some count =>
    rw [found] at refused
    cases refused

theorem capacity_of_le (positive : 0 < slots) (some : 0 < groups) (fewer : groups ≤ groups')
    (counted : capacity slots (groups' - 1) = .ok count) :
    ∃ count', capacity slots (groups - 1) = .ok count' ∧ count' ≤ count := by
  obtain ⟨⟨small, small', -⟩, rfl⟩ := Extent.capacity?_eq_some_iff.1 (capacity_eq_ok_iff.1 counted)
  have below : groups - 1 + 1 ≤ groups' - 1 + 1 := by omega
  have product := Nat.mul_le_mul_right slots below
  have found :
      Extent.capacity? slots (groups - 1) = Option.some (Extent.capacity slots (groups - 1)) :=
    Extent.capacity?_eq_some_iff.2 ⟨⟨Nat.lt_of_le_of_lt below small,
      Nat.lt_of_le_of_lt product small', Nat.mul_pos (Nat.succ_pos _) positive⟩, rfl⟩
  exact ⟨_, capacity_eq_ok_iff.2 found, Nat.sub_le_sub_right product 1⟩

/-- A table of so many groups has a capacity that can be represented, and its threshold reaches the
number of items. -/
def Holds (slots items : Nat) (factor : LoadFactor) (groups : Nat) : Prop :=
  ∃ count, capacity slots (groups - 1) = .ok count ∧ items ≤ Load.threshold count factor

/-- A table of so many groups has a capacity that can be represented, but its threshold is below the
number of items. -/
def FallsShort (slots items : Nat) (factor : LoadFactor) (groups : Nat) : Prop :=
  ∃ count, capacity slots (groups - 1) = .ok count ∧ Load.threshold count factor < items

theorem FallsShort.not_holds (short : FallsShort slots items factor groups) :
    ¬Holds slots items factor groups := by
  rintro ⟨count, counted, enough⟩
  obtain ⟨count', counted', less⟩ := short
  rw [counted] at counted'
  cases counted'
  omega

theorem Holds.of_le (holds : Holds slots items factor groups) (positive : 0 < slots)
    (some : 0 < groups) (fewer : groups ≤ groups')
    (counted : capacity slots (groups' - 1) = .ok count) : Holds slots items factor groups' := by
  obtain ⟨count', counted', enough⟩ := holds
  obtain ⟨count'', counted'', less⟩ := capacity_of_le positive some fewer counted
  rw [counted'] at counted''
  cases counted''
  exact ⟨count, counted, Nat.le_trans enough (Load.threshold_mono less factor)⟩

theorem capacity_half_limit (two : 2 ≤ slots) (count : Nat) :
    ¬capacity slots (2 ^ 63 - 1) = .ok count := by
  intro counted
  obtain ⟨⟨-, small, -⟩, -⟩ := Extent.capacity?_eq_some_iff.1 (capacity_eq_ok_iff.1 counted)
  have product := Nat.mul_le_mul_left (2 ^ 63) two
  unfold Word.limit at small
  omega

theorem not_holds_of_error {first : Nat} {fault : Fault}
    (counted : capacity slots (2 ^ first - 1) = .error fault) (some : 0 < slots) {groups : Nat}
    (later : 2 ^ first ≤ groups) : ¬Holds slots items factor groups := by
  rintro ⟨count, counted', -⟩
  obtain ⟨count', smaller, -⟩ := capacity_of_le some (Nat.two_pow_pos first) later counted'
  rw [counted] at smaller
  cases smaller

/-- What the search answers from a scale on: the first table that holds the items, all before it
falling short; or a fault, and then no table holds them. With two slots or more it is the fault of a
capacity that is no word. -/
theorem firstHolding_cases (positive : 0 < slots) {first turns : Nat} (inside : first < 64)
    (enough : 64 ≤ first + turns) :
    (∃ scale : Fin 64, first ≤ scale.val ∧
      firstHolding slots items factor (scalesFrom first) = .ok (Geometry.ofScale scale) ∧
      Holds slots items factor (2 ^ scale.val) ∧
      ∀ scale' : Fin 64, first ≤ scale'.val → scale' < scale →
        FallsShort slots items factor (2 ^ scale'.val)) ∨
    ∃ fault, firstHolding slots items factor (scalesFrom first) = .error fault ∧
      (2 ≤ slots → fault = .capacityNotAddressable) ∧
      ∀ scale : Fin 64, first ≤ scale.val → ¬Holds slots items factor (2 ^ scale.val) := by
  induction turns generalizing first with
  | zero => omega
  | succ turns ih =>
    rw [scalesFrom_of_lt inside]
    cases counted : capacity slots (2 ^ first - 1) with
    | error fault =>
      refine Or.inr ⟨fault, firstHolding_of_error ⟨first, inside⟩ counted,
        fun _ => capacity_eq_error counted, fun scale later => ?_⟩
      exact not_holds_of_error counted positive (Nat.pow_le_pow_right Nat.two_pos later)
    | ok count =>
      by_cases short : Load.threshold count factor < items
      · have falls : FallsShort slots items factor (2 ^ first) := ⟨count, counted, short⟩
        rw [firstHolding_of_lt ⟨first, inside⟩ counted short]
        by_cases last : first + 1 < 64
        · rcases ih last (by omega) with
            ⟨scale, later, found, holds, before⟩ | ⟨fault, refused, cause, none⟩
          · refine Or.inl ⟨scale, Nat.le_of_succ_le later, found, holds, ?_⟩
            intro scale' reached less
            by_cases same : scale'.val = first
            · rwa [same]
            · exact before scale' (by omega) less
          · refine Or.inr ⟨fault, refused, cause, fun scale reached => ?_⟩
            by_cases same : scale.val = first
            · rw [same]
              exact falls.not_holds
            · exact none scale (by omega)
        · -- there is no further scale, and only single slots have come so far
          obtain rfl : first = 63 := by omega
          refine Or.inr ⟨_, rfl, fun two => absurd counted (capacity_half_limit two count), ?_⟩
          intro scale reached
          obtain same : scale.val = 63 := by omega
          rw [same]
          exact falls.not_holds
      · refine Or.inl ⟨⟨first, inside⟩, Nat.le_refl first,
          firstHolding_of_not_lt ⟨first, inside⟩ counted short,
          ⟨count, counted, Nat.le_of_not_lt short⟩, fun scale' reached less => ?_⟩
        exact absurd (Fin.lt_def.1 less) (Nat.not_lt.2 reached)

/-- The number of groups of the smallest table of two groups or more that holds the items. -/
structure IsSmallest (slots items : Nat) (factor : LoadFactor) (groups : Nat) : Prop where
  power : groups.isPowerOfTwo
  two_le : 2 ≤ groups
  holds : Holds slots items factor groups
  short : ∀ groups', groups'.isPowerOfTwo → 2 ≤ groups' → groups' < groups →
    FallsShort slots items factor groups'

theorem IsSmallest.unique (smallest : IsSmallest slots items factor groups)
    (smallest' : IsSmallest slots items factor groups') : groups = groups' := by
  rcases Nat.lt_trichotomy groups groups' with less | same | more
  · exact absurd smallest.holds (smallest'.short _ smallest.power smallest.two_le less).not_holds
  · exact same
  · exact absurd smallest'.holds (smallest.short _ smallest'.power smallest'.two_le more).not_holds

theorem forItems_found_or_refused (positive : 0 < slots) (items : Nat) (factor : LoadFactor) :
    (∃ scale : Fin 64, forItems slots items factor = .ok (Geometry.ofScale scale) ∧
      IsSmallest slots items factor (2 ^ scale.val)) ∨
    ∃ fault, forItems slots items factor = .error fault ∧
      (2 ≤ slots → fault = .capacityNotAddressable) ∧
      ∀ scale : Fin 64, 1 ≤ scale.val → ¬Holds slots items factor (2 ^ scale.val) := by
  rcases firstHolding_cases positive (show 1 < 64 by decide) (show 64 ≤ 1 + 63 by decide) with
    ⟨scale, grown, found, holds, before⟩ | refused
  · refine Or.inl ⟨scale, found, ⟨scale, rfl⟩, Nat.le_self_pow (Nat.ne_of_gt grown) 2, holds, ?_⟩
    rintro groups ⟨k, rfl⟩ atLeast less
    have below : k < scale.val := (Nat.pow_lt_pow_iff_right (by decide)).1 less
    have grown' : 1 ≤ k := by
      by_contra least
      obtain rfl : k = 0 := by omega
      omega
    exact before ⟨k, Nat.lt_trans below scale.isLt⟩ grown' below
  · exact Or.inr refused

theorem forItems_cases (two : 2 ≤ slots) (items : Nat) (factor : LoadFactor) :
    (∃ scale : Fin 64, forItems slots items factor = .ok (Geometry.ofScale scale) ∧
      IsSmallest slots items factor (2 ^ scale.val)) ∨
    forItems slots items factor = .error .capacityNotAddressable ∧
      ∀ scale : Fin 64, 1 ≤ scale.val → ¬Holds slots items factor (2 ^ scale.val) := by
  rcases forItems_found_or_refused (Nat.lt_of_lt_of_le Nat.two_pos two) items factor with
    found | ⟨fault, refused, cause, none⟩
  · exact Or.inl found
  · exact Or.inr ⟨cause two ▸ refused, none⟩

theorem forItems_eq_ok_iff (two : 2 ≤ slots) {geometry : Geometry} :
    forItems slots items factor = .ok geometry ↔
      IsSmallest slots items factor geometry.groupCount ∧
        Geometry.ofGroupCount geometry.groupCount = .ok geometry := by
  rcases forItems_cases two items factor with ⟨scale, found, smallest⟩ | ⟨refused, none⟩
  · rw [found]
    constructor
    · intro same
      cases same
      exact ⟨smallest, Geometry.ofGroupCount_two_pow scale⟩
    · rintro ⟨smallest', named⟩
      rw [smallest'.unique smallest, Geometry.ofGroupCount_two_pow] at named
      exact congrArg Except.ok (Except.ok.inj named)
  · rw [refused]
    refine iff_of_false nofun ?_
    rintro ⟨smallest, -⟩
    have grown : 1 ≤ geometry.scale.val := by
      by_contra least
      have two' := smallest.two_le
      rw [Geometry.groupCount, show geometry.scale.val = 0 by omega] at two'
      omega
    exact none geometry.scale grown smallest.holds

theorem forItems_refuses_iff (positive : 0 < slots) :
    (∃ fault, forItems slots items factor = .error fault) ↔
      ∀ groups, groups.isPowerOfTwo → 2 ≤ groups → ¬Holds slots items factor groups := by
  rcases forItems_found_or_refused positive items factor with
    ⟨scale, found, smallest⟩ | ⟨fault, refused, -, none⟩
  · rw [found]
    exact iff_of_false nofun fun none => none _ smallest.power smallest.two_le smallest.holds
  · refine iff_of_true ⟨fault, refused⟩ ?_
    rintro groups ⟨k, rfl⟩ two holds
    obtain ⟨count, counted, -⟩ := id holds
    obtain ⟨⟨small, -⟩, -⟩ := Extent.capacity?_eq_some_iff.1 (capacity_eq_ok_iff.1 counted)
    rw [Nat.sub_add_cancel (Nat.two_pow_pos k)] at small
    have inside : k < 64 := (Nat.pow_lt_pow_iff_right (by decide)).1 small
    have grown : 1 ≤ k := by
      refine Nat.pos_of_ne_zero ?_
      rintro rfl
      exact absurd two (by decide)
    exact none ⟨k, inside⟩ grown holds

theorem forItems_refuses_iff_of_few (positive : 0 < slots) (few : 2 * slots < Word.limit) :
    (∃ fault, forItems slots items factor = .error fault) ↔
      ∀ groups, groups.isPowerOfTwo → ¬Holds slots items factor groups := by
  rw [forItems_refuses_iff positive]
  refine ⟨fun none groups power holds => ?_, fun none groups power _ => none groups power⟩
  by_cases two : 2 ≤ groups
  · exact none groups power two holds
  · have least := Nat.pos_of_isPowerOfTwo power
    have found : Extent.capacity? slots (2 - 1) = some (Extent.capacity slots 1) :=
      Extent.capacity?_eq_some_iff.2 ⟨⟨by decide, few, by omega⟩, rfl⟩
    have doubled := holds.of_le positive least (show groups ≤ 2 by omega)
      (capacity_eq_ok_iff.2 found)
    exact none 2 ⟨1, rfl⟩ (Nat.le_refl 2) doubled

theorem forItems_eq_error_iff (two : 2 ≤ slots) (few : slots ≤ 15) :
    (∃ fault, forItems slots items factor = .error fault) ↔
      ∀ groups, groups.isPowerOfTwo → ¬Holds slots items factor groups := by
  apply forItems_refuses_iff_of_few (by omega)
  unfold Word.limit
  omega

/-- A table of the planned geometry takes as many distinct keys as were planned for, in whatever
order and by whatever requests they come. -/
theorem planned_takes {width : Width} {geometry : Geometry}
    (planned : forItems width.slots items factor = .ok geometry) {shape : Shape} {region : Region}
    {hash : shape.Key → UInt64} {opened : Mounted shape}
    (created : Mounted.create width geometry region hash factor = .ok opened)
    {supplies : List (Supply shape)} (distinct : ((Supply.all supplies).map Prod.fst).Nodup)
    (few : (Supply.all supplies).length ≤ items) :
    ∃ last : Table opened.binding,
      opened.run (supplies.map Supply.action) () =
        (⟨opened.binding, last⟩, (), supplies.map Supply.reply) ∧
      ∀ key value, last.Holds key value ↔ (key, value) ∈ Supply.all supplies := by
  obtain ⟨sameWidth, sameGeometry, -, empty, limit, -⟩ := Mounted.create_eq_ok created
  obtain ⟨⟨-, -, ⟨count, counted, enough⟩, -⟩, -⟩ := (forItems_eq_ok_iff width.two_le).1 planned
  have exact := Extent.capacity?_eq_some (capacity_eq_ok_iff.1 counted)
  have same : opened.binding.capacity = count := by
    rw [exact, Binding.capacity, Binding.slots, sameWidth, sameGeometry]
    rfl
  rw [same] at limit
  have room : (Supply.all supplies).length ≤ opened.table.maxLoad := by
    rw [limit]
    exact Nat.le_trans few enough
  obtain ⟨last, -, run, holds⟩ :=
    Mounted.fill (Mounted.sound_create created) empty distinct room
  exact ⟨last, run, holds⟩

/-- Choosing a table by the number of its items. The loop ends, after 63 turns at the latest, with
an answer or a fault. The answer is the smallest power of two, two or more, whose capacity can be
represented and whose threshold reaches the number of items, with the shift that belongs to it; all
smaller ones have a capacity and fall short. The fault, always that of a capacity that is no word,
comes exactly if no power of two has a capacity and reaches the items. A table that is created with
the answer and the same load factor takes this many distinct keys and refuses none of them. -/
theorem smallest_holding (width : Width) (items : Nat) (factor : LoadFactor) :
    let slots := width.slots
    (∀ turns, 63 ≤ turns → Checked.forItems turns slots items factor =
      Checked.of ((forItems slots items factor).map Except.ok)) ∧
    (∀ geometry, forItems slots items factor = .ok geometry ↔
      IsSmallest slots items factor geometry.groupCount ∧
        Geometry.ofGroupCount geometry.groupCount = .ok geometry) ∧
    ((∃ fault, forItems slots items factor = .error fault) ↔
      ∀ groups, groups.isPowerOfTwo → ¬Holds slots items factor groups) ∧
    (∀ fault, forItems slots items factor = .error fault → fault = .capacityNotAddressable) ∧
    ∀ geometry, forItems slots items factor = .ok geometry →
      ∀ (shape : Shape) (region : Region) (hash : shape.Key → UInt64) (opened : Mounted shape),
        Mounted.create width geometry region hash factor = .ok opened →
        ∀ supplies : List (Supply shape), ((Supply.all supplies).map Prod.fst).Nodup →
          (Supply.all supplies).length ≤ items →
          ∃ last : Table opened.binding,
            opened.run (supplies.map Supply.action) () =
              (⟨opened.binding, last⟩, (), supplies.map Supply.reply) ∧
            ∀ key value, last.Holds key value ↔ (key, value) ∈ Supply.all supplies := by
  refine ⟨?_, ?_, ?_, ?_, ?_⟩
  · intro turns enough
    exact Checked.forItems_eq _ _ _ enough
  · intro geometry
    exact forItems_eq_ok_iff width.two_le
  · exact forItems_eq_error_iff width.two_le width.le_fifteen
  · intro fault refused
    rcases forItems_cases width.two_le items factor with ⟨scale, found, -⟩ | ⟨refused', -⟩
    · rw [found] at refused
      cases refused
    · rw [refused'] at refused
      exact (Except.error.inj refused).symm
  · intro geometry planned shape region hash opened created supplies distinct few
    exact planned_takes planned created distinct few

/-- Four items at seven eighths need four groups of two slots, and these take four keys. As many
items as a word can count are held by no number of groups. -/
theorem narrow_smallest_holding :
    let slots := Width.narrow.slots
    let most := Word.limit - 1
    let supplies : List (Supply Shape.bytes) :=
      [.one (.last (Shape.byteKey 3) (Shape.byteValue 1)),
        .many (([1, 2, 4] : List UInt8).map fun byte => (Shape.byteKey byte, Shape.byteValue byte))]
    forItems slots 4 .standard = .ok ⟨62, 2⟩ ∧ IsSmallest slots 4 .standard 4 ∧
      forItems slots most .standard = .error .capacityNotAddressable ∧
      (∀ groups, groups.isPowerOfTwo → ¬Holds slots most .standard groups) ∧
      ∃ opened last : Mounted Shape.bytes,
        Mounted.create .narrow ⟨62, 2⟩ ⟨64, Array.replicate 26 0xCC⟩ Shape.byteHash .standard =
          .ok opened ∧
        opened.run (supplies.map Supply.action) () = (last, (), supplies.map Supply.reply) := by
  intro slots most supplies
  have planned : forItems slots 4 .standard = .ok ⟨62, 2⟩ := by decide +kernel
  have refused : forItems slots most .standard = .error .capacityNotAddressable := by decide +kernel
  obtain ⟨-, answers, -, -, takes⟩ := smallest_holding .narrow 4 .standard
  obtain ⟨-, -, refuses, -, -⟩ := smallest_holding .narrow most .standard
  obtain ⟨last, run, -⟩ := takes _ planned Shape.bytes ⟨64, Array.replicate 26 0xCC⟩ Shape.byteHash
    _ rfl supplies (by decide) (by decide)
  exact ⟨planned, ((answers _).1 planned).1, refused, refuses.1 ⟨_, refused⟩, _, ⟨_, last⟩, rfl,
    run⟩

end Plan

end PackedTable
