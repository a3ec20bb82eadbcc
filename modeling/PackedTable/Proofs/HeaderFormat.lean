import PackedTable.Proofs.HeaderCodec

/-!
Which byte strings are encoded headers. A reader comes to the requirements of the format in a fixed
order, reports the first one that is not met, and otherwise has the header whose numbers stand in
the fields. No bit of the 74 bytes is ignored: a header that was read is encoded as the bytes that
it was read from.
-/

namespace PackedTable

open Transfer

namespace LittleEndian

theorem encode_decode_of_length {bytes : List UInt8} {width : Nat}
    (long : bytes.length = width) : encode width (decode bytes) = bytes := by
  rw [← long]
  exact encode_decode bytes

end LittleEndian

namespace Checksum

theorem toNat_shortened (checksum : Checksum) :
    checksum.shortened.toNat = checksum.toNat % 2 ^ 32 := by
  have high : (0 : UInt64).toNat = 0 := rfl
  simp only [toNat, shortened, UInt32.toNat_toUInt64, UInt64.toNat_toUInt32, high]
  omega

theorem toNat_ofNat {n : Nat} (small : n < 256 ^ 16) : (ofNat n).toNat = n := by
  simp only [toNat, ofNat, UInt64.toNat_ofNat']
  omega

theorem toNat_inj {checksum other : Checksum} :
    checksum.toNat = other.toNat ↔ checksum = other := by
  constructor
  · intro same
    rw [← ofNat_toNat checksum, same, ofNat_toNat]
  · exact congrArg toNat

end Checksum

namespace Geometry

def ofPower (shift : UInt64) (mask : Nat) : Geometry :=
  ⟨shift, ⟨(mask + 1).log2 % 64, Nat.mod_lt _ (by decide)⟩⟩

theorem ofMask_eq (shift : UInt64) (mask : Nat) :
    ofMask shift mask =
      if (mask + 1).isPowerOfTwo ∧ mask + 1 < Word.limit then .ok (ofPower shift mask)
      else .error (.invalidGeometry mask) := by
  have valid : ((mask + 1).log2 < 64 ∧ 2 ^ (mask + 1).log2 = mask + 1) ↔
      ((mask + 1).isPowerOfTwo ∧ mask + 1 < Word.limit) := by
    rw [and_comm, Nat.log2_lt (Nat.succ_ne_zero mask)]
    refine and_congr_left fun small => ⟨fun power => ⟨_, power.symm⟩, ?_⟩
    rintro ⟨scale, power⟩
    rw [power, Nat.log2_two_pow]
  by_cases accepted : (mask + 1).log2 < 64 ∧ 2 ^ (mask + 1).log2 = mask + 1
  · rw [if_pos (valid.1 accepted), ofMask, scaleOf?, dif_pos accepted]
    refine congrArg (fun scale => Except.ok (Geometry.mk shift scale)) ?_
    exact Fin.ext (Nat.mod_eq_of_lt accepted.1).symm
  · rw [if_neg (mt valid.2 accepted), ofMask, scaleOf?, dif_neg accepted]

theorem mask_ofPower (shift : UInt64) {mask : Nat} (power : (mask + 1).isPowerOfTwo)
    (small : mask + 1 < Word.limit) : (ofPower shift mask).mask = mask := by
  have bound : (mask + 1).log2 < 64 := (Nat.log2_lt (Nat.succ_ne_zero mask)).2 small
  have groups : 2 ^ (mask + 1).log2 = mask + 1 := by
    obtain ⟨scale, power⟩ := power
    rw [power, Nat.log2_two_pow]
  calc
    (ofPower shift mask).mask = 2 ^ ((mask + 1).log2 % 64) - 1 := rfl
    _ = 2 ^ (mask + 1).log2 - 1 := by rw [Nat.mod_eq_of_lt bound]
    _ = mask := by rw [groups, Nat.add_sub_cancel]

end Geometry

namespace Header

/-! ### Requirements -/

/-- A requirement, and the error that reports that it is not met. -/
structure Check where
  met : Bool
  error : Error

/-- The error of the first requirement that is not met. -/
def firstUnmet : List Check → Option Error
  | [] => none
  | check :: rest => if check.met then firstUnmet rest else some check.error

theorem firstUnmet_eq_none {checks : List Check} :
    firstUnmet checks = none ↔ ∀ check ∈ checks, check.met = true := by
  induction checks with
  | nil => simp [firstUnmet]
  | cons check rest ih =>
    rw [firstUnmet, List.forall_mem_cons]
    split
    case isTrue met => rw [ih, and_iff_right met]
    case isFalse unmet => simp [unmet]

theorem firstUnmet_append (checks others : List Check) :
    firstUnmet (checks ++ others) = (firstUnmet checks).or (firstUnmet others) := by
  induction checks with
  | nil => rfl
  | cons check rest ih =>
    rw [List.cons_append, firstUnmet, firstUnmet, ih]
    split
    case isTrue => rfl
    case isFalse => rfl

/-- A requirement is told by a stronger one behind it with the same error. -/
theorem firstUnmet_absorb {weak strong : Prop} [Decidable weak] [Decidable strong]
    (implied : strong → weak) (error : Error) (rest : List Check) :
    firstUnmet (⟨weak, error⟩ :: ⟨strong, error⟩ :: rest) =
      firstUnmet (⟨strong, error⟩ :: rest) := by
  by_cases met : strong
  · simp only [firstUnmet, implied met, decide_true, ↓reduceIte]
  · by_cases met' : weak
    · simp only [firstUnmet, met', decide_true, ↓reduceIte]
    · simp only [firstUnmet, met, met', decide_false, Bool.false_eq_true, ↓reduceIte]

def judge {α : Type} (value : α) (checks : List Check) : Except Error α :=
  match firstUnmet checks with
  | none => .ok value
  | some error => .error error

theorem judge_cons {α : Type} (value : α) (met : Prop) [Decidable met] (error : Error)
    (rest : List Check) :
    judge value (⟨met, error⟩ :: rest) = if met then judge value rest else .error error := by
  by_cases holds : met
  · simp only [judge, firstUnmet, holds, decide_true, ↓reduceIte]
  · simp only [judge, firstUnmet, holds, decide_false, Bool.false_eq_true, ↓reduceIte]

namespace Reading

variable {α β : Type} {start middle finish : Position} {checks : List Check} {value : α}

/-- From a position a reading comes to an error, whatever the stream. -/
def Fails (reading : Reading α) (start : Position) (error : Error) : Prop :=
  ∀ stream, start.Of stream → ∃ after, (ExceptT.run reading).run stream = (.error error, after)

theorem Yields.bind_fails {reading : Reading α} {next : α → Reading β} {error : Error}
    (first : Yields reading start value middle) (second : Fails (next value) middle error) :
    Fails (reading >>= next) start error := by
  intro stream stands
  obtain ⟨between, read, stands'⟩ := first stream stands
  obtain ⟨after, further⟩ := second between stands'
  refine ⟨after, ?_⟩
  rw [ExceptT.run_bind, StateT.run_bind, read]
  exact further

theorem Fails.bind {reading : Reading α} {error : Error} (first : Fails reading start error)
    (next : α → Reading β) : Fails (reading >>= next) start error := by
  intro stream stands
  obtain ⟨after, read⟩ := first stream stands
  refine ⟨after, ?_⟩
  rw [ExceptT.run_bind, StateT.run_bind, read]
  rfl

theorem throw_fails (error : Error) : Fails (throw error : Reading α) start error :=
  fun stream _ => ⟨stream, rfl⟩

/-- A reading under requirements comes to the error of the first one that is not met, and yields
the value if there is none. -/
structure Tests (reading : Reading α) (start : Position) (checks : List Check) (value : α)
    (finish : Position) : Prop where
  passes : firstUnmet checks = none → Yields reading start value finish
  fails : ∀ error, firstUnmet checks = some error → Fails reading start error

namespace Tests

theorem of_yields {reading : Reading α} (yields : Yields reading start value finish) :
    Tests reading start [] value finish :=
  ⟨fun _ => yields, nofun⟩

theorem of_judge (value : α) (checks : List Check) :
    Tests (ExceptT.mk (Pure.pure (judge value checks))) start checks value start := by
  constructor
  · intro met stream stands
    exact ⟨stream, by rw [judge, met]; rfl, stands⟩
  · intro error unmet stream _
    exact ⟨stream, by rw [judge, unmet]; rfl⟩

theorem bind {reading : Reading α} {next : α → Reading β} {value' : β} {others : List Check}
    (first : Tests reading start checks value middle)
    (second : Tests (next value) middle others value' finish) :
    Tests (reading >>= next) start (checks ++ others) value' finish := by
  constructor
  · intro met
    rw [firstUnmet_append, Option.or_eq_none_iff] at met
    exact (first.passes met.1).bind (second.passes met.2)
  · intro error unmet
    rw [firstUnmet_append] at unmet
    cases early : firstUnmet checks with
    | none =>
      rw [early, Option.none_or] at unmet
      exact (first.passes early).bind_fails (second.fails error unmet)
    | some error' =>
      rw [early, Option.some_or, Option.some_inj] at unmet
      subst unmet
      exact (first.fails error' early).bind next

theorem congr {reading : Reading α} {others : List Check}
    (tests : Tests reading start checks value finish)
    (same : firstUnmet checks = firstUnmet others) : Tests reading start others value finish := by
  constructor
  · rw [← same]
    exact tests.passes
  · rw [← same]
    exact tests.fails

theorem guard {failing met : Prop} [Decidable failing] [Decidable met] {error : Error}
    {stop rest : Reading α} (stops : Fails stop start error) (opposite : failing ↔ ¬met)
    (further : Tests rest start checks value finish) :
    Tests (if failing then stop else rest) start (⟨met, error⟩ :: checks) value finish := by
  by_cases holds : met
  · rw [if_neg fun fails => opposite.1 fails holds]
    refine further.congr ?_
    simp only [firstUnmet, holds, decide_true, ↓reduceIte]
  · rw [if_pos (opposite.2 holds)]
    constructor
    · intro none
      simp [firstUnmet, holds] at none
    · intro error' first
      simp only [firstUnmet, holds, decide_false, Bool.false_eq_true, ↓reduceIte,
        Option.some_inj] at first
      exact first ▸ stops

end Tests

theorem take_fails {passed left : List UInt8} {count : Nat} (few : left.length < count) :
    Fails (take count) ⟨passed, left⟩ (.stream .reading) := by
  rintro stream ⟨steady, -, there⟩
  change stream.inner.left = left at there
  obtain ⟨after, cut⟩ := Checksummed.readExact_short steady (there ▸ few)
  exact ⟨after, by simp only [take, ExceptT.run_mk, StateT.run, cut]⟩

theorem uncovered_fails {passed left : List UInt8} {count : Nat} (few : left.length < count) :
    Fails (uncovered count) ⟨passed, left⟩ (.stream .reading) := by
  rintro stream ⟨steady, -, there⟩
  change stream.inner.left = left at there
  obtain ⟨turn, cut⟩ := Source.readExact_short steady (there ▸ few)
  refine ⟨{ stream with inner := ⟨[], stream.inner.pace, turn⟩ }, ?_⟩
  simp only [uncovered, ExceptT.run_mk, StateT.run, cut]

end Reading

/-! ### Fields -/

/-- The number in one field of an encoded header. -/
def field (bytes : List UInt8) (offset width : Nat) : Nat :=
  LittleEndian.decode ((bytes.drop offset).take width)

theorem field_lt (bytes : List UInt8) (offset width : Nat) :
    field bytes offset width < 256 ^ width := by
  refine Nat.lt_of_lt_of_le (LittleEndian.decode_lt _) ?_
  exact Nat.pow_le_pow_right (by decide) (List.length_take_le _ _)

theorem encode_field {bytes : List UInt8} {offset width : Nat}
    (there : offset + width ≤ bytes.length) :
    LittleEndian.encode width (field bytes offset width) = (bytes.drop offset).take width := by
  apply LittleEndian.encode_decode_of_length
  rw [List.length_take, List.length_drop]
  omega

theorem take_append_field {bytes : List UInt8} {offset width : Nat}
    (there : offset + width ≤ bytes.length) :
    bytes.take offset ++ LittleEndian.encode width (field bytes offset width) =
      bytes.take (offset + width) := by
  rw [encode_field there, List.take_add]

/-- Where a reader stands that has come `offset` bytes far. -/
def Position.at (bytes : List UInt8) (offset : Nat) : Position :=
  ⟨bytes.take offset, bytes.drop offset⟩

namespace Reading

variable {bytes : List UInt8} {offset width : Nat}

def there (bytes : List UInt8) (bound : Nat) : Check := ⟨bound ≤ bytes.length, .stream .reading⟩

theorem firstUnmet_there {bound : Nat} :
    firstUnmet [there bytes bound] = if bound ≤ bytes.length then none
      else some (.stream .reading) := by
  simp only [firstUnmet, there, decide_eq_true_eq]

theorem take_tests {count : Nat} (positive : 0 < count) :
    Tests (take count) (Position.at bytes offset) [there bytes (offset + count)]
      ((bytes.drop offset).take count) (Position.at bytes (offset + count)) := by
  have left : (bytes.drop offset).length = bytes.length - offset := List.length_drop
  constructor
  · intro met
    have long : offset + count ≤ bytes.length := by
      simpa [firstUnmet_there] using met
    have size : ((bytes.drop offset).take count).length = count := by
      rw [List.length_take]
      omega
    have read := @take_yields (bytes.take offset) _ (bytes.drop (offset + count)) _ size
    rw [← List.drop_drop, List.take_append_drop, ← List.take_add, List.drop_drop] at read
    exact read
  · intro error unmet
    obtain ⟨few, rfl⟩ : ¬offset + count ≤ bytes.length ∧ .stream .reading = error := by
      simpa [firstUnmet_there] using unmet
    exact take_fails (by omega)

theorem number_tests (bytes : List UInt8) (offset : Nat) (positive : 0 < width) :
    Tests (number width) (Position.at bytes offset) [there bytes (offset + width)]
      (field bytes offset width) (Position.at bytes (offset + width)) :=
  (take_tests positive).bind (.of_yields (.pure _))

theorem number_bind_tests {α : Type} {next : Nat → Reading α} {value : α} {finish : Position}
    {last : Nat} (between : offset + width ≤ last) (positive : 0 < width)
    (further : Tests (next (field bytes offset width)) (Position.at bytes (offset + width))
      [there bytes last] value finish) :
    Tests (number width >>= next) (Position.at bytes offset) [there bytes last] value finish :=
  ((number_tests bytes offset positive).bind further).congr
    (firstUnmet_absorb (fun long => Nat.le_trans between long) _ [])

theorem uncovered_tests (bytes : List UInt8) (offset : Nat) (positive : 0 < width) :
    Tests (uncovered width) (Position.at bytes offset) [there bytes (offset + width)]
      (field bytes offset width) ⟨bytes.take offset, bytes.drop (offset + width)⟩ := by
  have left : (bytes.drop offset).length = bytes.length - offset := List.length_drop
  constructor
  · intro met
    have long : offset + width ≤ bytes.length := by
      simpa [firstUnmet_there] using met
    have read := @uncovered_yields (bytes.take offset) (bytes.drop (offset + width)) _ _
      (field_lt bytes offset width)
    rw [encode_field long, ← List.drop_drop, List.take_append_drop, List.drop_drop] at read
    exact read
  · intro error unmet
    obtain ⟨few, rfl⟩ : ¬offset + width ≤ bytes.length ∧ .stream .reading = error := by
      simpa [firstUnmet_there] using unmet
    exact uncovered_fails (by omega)

end Reading

/-! ### The format -/

section

variable (digest : Checksum.Rule) (bytes : List UInt8)

/-- What an encoded header has to be like. -/
structure Formatted : Prop where
  long : 74 ≤ bytes.length
  magic : bytes.take 4 = magic
  version : field bytes 4 1 = 1
  intact : field bytes 70 4 = (digest (bytes.take 70).toArray).toNat % 2 ^ 32
  slots : 2 ≤ field bytes 5 1 ∧ field bytes 5 1 ≤ 15
  keyed : field bytes 6 4 ≠ 0
  power : (field bytes 30 8 + 1).isPowerOfTwo ∧ field bytes 30 8 + 1 < Word.limit

/-- The requirements on a byte string, in the order in which a reader comes to them. All fields
behind the version are read before any of them is looked at. -/
def checks : List Check :=
  let covered := digest (bytes.take 70).toArray
  [ ⟨4 ≤ bytes.length, .stream .reading⟩,
    ⟨bytes.take 4 = magic, .invalidHeader .magic⟩,
    ⟨5 ≤ bytes.length, .stream .reading⟩,
    ⟨field bytes 4 1 = 1, .invalidVersion (UInt8.ofNat (field bytes 4 1))⟩,
    ⟨74 ≤ bytes.length, .stream .reading⟩,
    ⟨field bytes 70 4 = covered.toNat % 2 ^ 32,
      .checksumMismatch covered.shortened (Checksum.ofNat (field bytes 70 4))⟩,
    ⟨2 ≤ field bytes 5 1 ∧ field bytes 5 1 ≤ 15, .invalidHeader .slotsPerGroup⟩,
    ⟨field bytes 6 4 ≠ 0, .invalidHeader .keyLayout⟩,
    ⟨(field bytes 30 8 + 1).isPowerOfTwo ∧ field bytes 30 8 + 1 < Word.limit,
      .invalidGeometry (field bytes 30 8)⟩ ]

theorem formatted_iff : Formatted digest bytes ↔ firstUnmet (checks digest bytes) = none := by
  rw [firstUnmet_eq_none]
  simp only [checks, List.forall_mem_cons, decide_eq_true_eq]
  constructor
  · rintro ⟨long, magic, version, intact, slots, keyed, power⟩
    exact ⟨by omega, magic, by omega, version, long, intact, slots, keyed, power, nofun⟩
  · rintro ⟨-, magic, -, version, long, intact, slots, keyed, power, -⟩
    exact ⟨long, magic, version, intact, slots, keyed, power⟩

/-! ### Decoding -/

def recorded : Fields where
  slotsPerGroup := UInt8.ofNat (field bytes 5 1)
  keySize := UInt32.ofNat (field bytes 6 4)
  keyAlign := UInt32.ofNat (field bytes 10 4)
  valueSize := UInt32.ofNat (field bytes 14 4)
  valueAlign := UInt32.ofNat (field bytes 18 4)
  shift := UInt64.ofNat (field bytes 22 8)
  mask := field bytes 30 8
  size := UInt64.ofNat (field bytes 38 8)
  maxLoad := UInt64.ofNat (field bytes 46 8)
  checksum := Checksum.ofNat (field bytes 54 16)

def ofFields : Header :=
  { recorded bytes with geometry := .ofPower (recorded bytes).shift (recorded bytes).mask }

end

section

variable (digest : Checksum.Rule) {bytes : List UInt8}

theorem version_iff : UInt8.ofNat (field bytes 4 1) = version ↔ field bytes 4 1 = 1 := by
  have small : field bytes 4 1 < 2 ^ 8 := field_lt bytes 4 1
  rw [← UInt8.toNat_inj, UInt8.toNat_ofNat_of_lt' small]
  rfl

theorem slots_iff : (recorded bytes).slotsPerGroup < 2 ∨ 15 < (recorded bytes).slotsPerGroup ↔
    ¬(2 ≤ field bytes 5 1 ∧ field bytes 5 1 ≤ 15) := by
  have small : field bytes 5 1 < 2 ^ 8 := field_lt bytes 5 1
  rw [recorded, UInt8.lt_iff_toNat_lt, UInt8.lt_iff_toNat_lt, UInt8.toNat_ofNat_of_lt' small]
  simp only [UInt8.reduceToNat]
  omega

theorem keyed_iff : (recorded bytes).keySize = 0 ↔ ¬field bytes 6 4 ≠ 0 := by
  have small : field bytes 6 4 < 2 ^ 32 := field_lt bytes 6 4
  rw [recorded, ← UInt32.toNat_inj, UInt32.toNat_ofNat_of_lt' small, ne_eq,
    Decidable.not_not]
  rfl

theorem intact_iff {covered : Checksum} :
    Checksum.ofNat (field bytes 70 4) = covered.shortened ↔
      field bytes 70 4 = covered.toNat % 2 ^ 32 := by
  have small := field_lt bytes 70 4
  rw [← Checksum.toNat_inj, Checksum.toNat_shortened, Checksum.toNat_ofNat (by omega)]

theorem recorded_header :
    (recorded bytes).header = judge (ofFields bytes) ((checks digest bytes).drop 6) := by
  have mask : (recorded bytes).mask = field bytes 30 8 := rfl
  simp only [Fields.header, slots_iff, keyed_iff, ite_not, Geometry.ofMask_eq, mask, checks,
    List.drop, judge_cons]
  congr 2
  by_cases power : (field bytes 30 8 + 1).isPowerOfTwo ∧ field bytes 30 8 + 1 < Word.limit
  · rw [if_pos power, if_pos power]
    rfl
  · rw [if_neg power, if_neg power]
    rfl

namespace Reading

theorem opening_tests (bytes : List UInt8) :
    Tests opening (Position.at bytes 0) ((checks digest bytes).take 4) ()
      (Position.at bytes 5) := by
  have start := @take_tests bytes 0 4 (by decide)
  refine start.bind (.guard ((throw_fails _).bind _) Iff.rfl ?_)
  refine (number_tests bytes 4 (by decide)).bind ?_
  exact .guard (throw_fails _) (not_congr version_iff) (.of_yields (.pure ()))

theorem fields_tests (bytes : List UInt8) :
    Tests fields (Position.at bytes 5) [there bytes 70] (recorded bytes)
      (Position.at bytes 70) := by
  refine number_bind_tests (by decide) (by decide) ?_
  refine number_bind_tests (by decide) (by decide) ?_
  refine number_bind_tests (by decide) (by decide) ?_
  refine number_bind_tests (by decide) (by decide) ?_
  refine number_bind_tests (by decide) (by decide) ?_
  refine number_bind_tests (by decide) (by decide) ?_
  refine number_bind_tests (by decide) (by decide) ?_
  refine number_bind_tests (by decide) (by decide) ?_
  refine number_bind_tests (by decide) (by decide) ?_
  exact (number_tests bytes 54 (by decide)).bind (.of_yields (.pure _))

theorem intact_tests (bytes : List UInt8) :
    Tests (intact digest) (Position.at bytes 70) (((checks digest bytes).drop 4).take 2) ()
      ⟨bytes.take 70, bytes.drop 74⟩ := by
  refine (Tests.of_yields (covered_yields digest _ _)).bind ?_
  refine (uncovered_tests bytes 70 (by decide)).bind ?_
  exact .guard (throw_fails _) (not_congr intact_iff) (.of_yields (.pure ()))

/-- The decoder comes to the requirements in their order. -/
theorem header_tests (bytes : List UInt8) :
    Tests (Reading.header digest) (Position.at bytes 0) (checks digest bytes) (ofFields bytes)
      ⟨bytes.take 70, bytes.drop 74⟩ := by
  have numbers : Tests (ExceptT.mk (Pure.pure (recorded bytes).header))
      ⟨bytes.take 70, bytes.drop 74⟩ ((checks digest bytes).drop 6) (ofFields bytes)
      ⟨bytes.take 70, bytes.drop 74⟩ := by
    rw [recorded_header digest]
    exact .of_judge _ _
  have behind : Tests (do
      let fields ← fields
      intact digest
      ExceptT.mk (Pure.pure fields.header))
      (Position.at bytes 5) (there bytes 70 :: (checks digest bytes).drop 4) (ofFields bytes)
      ⟨bytes.take 70, bytes.drop 74⟩ :=
    (fields_tests bytes).bind ((intact_tests digest bytes).bind numbers)
  -- that the first seventy bytes are there is told by the first seventy-four
  have seventy : firstUnmet (there bytes 70 :: (checks digest bytes).drop 4) =
      firstUnmet ((checks digest bytes).drop 4) :=
    firstUnmet_absorb (fun long => Nat.le_trans (by decide) long) _ _
  exact (opening_tests digest bytes).bind (behind.congr seventy)

end Reading

theorem decode_eq_judge {source : Source} (steady : source.Steady) :
    (decode digest source).1 = judge (ofFields source.left) (checks digest source.left) := by
  have start : Position.Of (Position.at source.left 0) (Checksummed.start source) :=
    ⟨steady, rfl, rfl⟩
  have tests := Reading.header_tests digest source.left
  rw [decode, judge]
  cases unmet : firstUnmet (checks digest source.left) with
  | none =>
    obtain ⟨after, read, -⟩ := tests.passes unmet _ start
    rw [read]
  | some error =>
    obtain ⟨after, read⟩ := tests.fails error unmet _ start
    rw [read]

/-! ### Encoding again -/

theorem encode_ofFields (formatted : Formatted digest bytes) :
    (ofFields bytes).encode digest = bytes.take 74 := by
  obtain ⟨long, magic, version, intact, -, -, power, small⟩ := formatted
  have byte : (UInt8.ofNat (field bytes 5 1)).toNat = field bytes 5 1 :=
    UInt8.toNat_ofNat_of_lt' (field_lt bytes 5 1)
  have half (offset : Nat) : (UInt32.ofNat (field bytes offset 4)).toNat = field bytes offset 4 :=
    UInt32.toNat_ofNat_of_lt' (field_lt bytes offset 4)
  have word (offset : Nat) : (UInt64.ofNat (field bytes offset 8)).toNat = field bytes offset 8 :=
    UInt64.toNat_ofNat_of_lt' (field_lt bytes offset 8)
  have mask : (ofFields bytes).geometry.mask = field bytes 30 8 :=
    Geometry.mask_ofPower _ power small
  have covered : (ofFields bytes).runs.flatten = bytes.take 70 := by
    have first : Header.version.toNat = field bytes 4 1 := version.symm
    rw [flatten_runs, numbers, mask, first, ← magic]
    simp only [ofFields, recorded, Geometry.ofPower, byte, half, word,
      Checksum.toNat_ofNat (field_lt bytes 54 16), ← List.append_assoc]
    -- each field is appended to the bytes before it
    simp (disch := omega) only [take_append_field, Nat.reduceAdd]
  rw [encode, covered, closing, Checksum.toNat_shortened, ← intact]
  exact take_append_field long

/-! ### What is written -/

theorem field_append {before after : List UInt8} {offset width n : Nat}
    (behind : before.length = offset) (small : n < 256 ^ width) :
    field (before ++ (LittleEndian.encode width n ++ after)) offset width = n := by
  rw [field, List.drop_left' behind, List.take_left' (LittleEndian.length_encode width n),
    LittleEndian.decode_encode_of_lt small]

theorem Reading.Yields.unique {α : Type} {reading : Reading α} {start finish finish' : Position}
    {value value' : α} (first : Yields reading start value finish)
    (second : Yields reading start value' finish') : value = value' := by
  let stream : Checksummed Source := ⟨.ofBytes start.left 1, start.passed.toArray⟩
  have stands : start.Of stream := ⟨fun _ => Nat.one_pos, rfl, rfl⟩
  obtain ⟨_, read, _⟩ := first stream stands
  obtain ⟨_, read', _⟩ := second stream stands
  exact Except.ok.inj (congrArg Prod.fst (read.symm.trans read'))

/-- What stands in an encoded header: the magic and the version, the number of each field at its
place, and at the end the low bits of the checksum of all that is before. -/
structure Written (digest : Checksum.Rule) (header : Header) (bytes : List UInt8) : Prop where
  length : bytes.length = 74
  magic : bytes.take 4 = magic
  version : field bytes 4 1 = 1
  numbers : recorded bytes = header.fields
  closing : field bytes 70 4 = (digest (bytes.take 70).toArray).toNat % 2 ^ 32

theorem written_encode (header : Header) : header.Written digest (header.encode digest) := by
  have length : (header.encode digest).length = 74 := header.length_encode digest
  have seventy : header.runs.flatten.length = 70 := by
    rw [encode, List.length_append, closing, LittleEndian.length_encode] at length
    omega
  have split : header.encode digest =
      magic ++ (LittleEndian.encode 1 version.toNat ++ (header.numbers ++
        closing (digest header.runs.flatten.toArray))) := by
    rw [encode]
    generalize closing (digest header.runs.flatten.toArray) = run
    rw [flatten_runs, List.append_assoc, List.append_assoc]
  have opening : (magic ++ LittleEndian.encode 1 version.toNat).length = 5 := rfl
  refine ⟨length, ?magic, ?version, ?numbers, ?closing⟩
  case magic =>
    rw [split]
    exact List.take_left' rfl
  case version =>
    rw [split]
    exact field_append rfl version.toNat_lt
  case numbers =>
    -- the fields are read one way only
    have start : Position.at (header.encode digest) 5 =
        ⟨magic ++ LittleEndian.encode 1 version.toNat,
          header.numbers ++ closing (digest header.runs.flatten.toArray)⟩ := by
      rw [Position.at, split, ← List.append_assoc, List.take_left' opening,
        List.drop_left' opening]
    have there : firstUnmet [Reading.there (header.encode digest) 70] = none := by
      rw [Reading.firstUnmet_there, if_pos (by omega)]
    have read := (Reading.fields_tests (header.encode digest)).passes there
    rw [start] at read
    exact read.unique (Reading.fields_yields header _ _)
  case closing =>
    have last := @field_append header.runs.flatten [] 70 4 _ seventy
      (Checksum.toNat_shortened_lt (digest header.runs.flatten.toArray))
    rw [List.append_nil] at last
    have before : (header.encode digest).take 70 = header.runs.flatten := List.take_left' seventy
    rw [before, ← Checksum.toNat_shortened]
    exact last

end

/-- The decoder accepts exactly the format. It reads a header from the formatted byte strings and
from no others, the header that it reads is encoded as the first 74 of these bytes, and from any
other byte string it returns the error of the first requirement that is not met. -/
theorem decodes_format (digest : Checksum.Rule) {source : Source} (steady : source.Steady) :
    ((∃ header, (decode digest source).1 = .ok header) ↔ Formatted digest source.left) ∧
    (∀ header, (decode digest source).1 = .ok header →
      header.encode digest = source.left.take 74) ∧
    ∀ error, (decode digest source).1 = .error error ↔
      firstUnmet (checks digest source.left) = some error := by
  rw [decode_eq_judge digest steady, formatted_iff, judge]
  cases unmet : firstUnmet (checks digest source.left) with
  | none =>
    refine ⟨⟨fun _ => rfl, fun _ => ⟨_, rfl⟩⟩, ?_, fun _ => ⟨nofun, nofun⟩⟩
    rintro _ ⟨⟩
    exact encode_ofFields digest ((formatted_iff digest source.left).2 unmet)
  | some error =>
    refine ⟨⟨?_, nofun⟩, nofun, fun error' => ?_⟩
    · rintro ⟨_, ⟨⟩⟩
    · rw [Except.error.injEq, Option.some_inj]

/-- The largest header is accepted with two further bytes behind it, and encoded again. It is
refused as cut short without its last byte, and for its version if the fifth byte is another. -/
theorem largest_format :
    let encoded := largest.encode Checksum.of
    let whole := Source.ofBytes (encoded ++ [7, 7]) 3
    let cut := Source.ofBytes (encoded.take 73) 3
    let later := Source.ofBytes (encoded.set 4 2) 3
    (whole.Steady ∧ cut.Steady ∧ later.Steady) ∧
    (∃ header, (decode Checksum.of whole).1 = .ok header ∧
      header.encode Checksum.of = encoded) ∧
    (decode Checksum.of cut).1 = .error (.stream .reading) ∧
    (decode Checksum.of later).1 = .error (.invalidVersion 2) := by
  intro encoded whole cut later
  have steady (bytes : List UInt8) : (Source.ofBytes bytes 3).Steady := fun _ => Nat.succ_pos 2
  refine ⟨⟨steady _, steady _, steady _⟩, ?_, ?_, ?_⟩
  · obtain ⟨accepts, again, -⟩ := decodes_format Checksum.of (steady (encoded ++ [7, 7]))
    have formatted : Formatted Checksum.of whole.left :=
      (formatted_iff _ _).2 (by decide +kernel)
    obtain ⟨header, accepted⟩ := accepts.2 formatted
    refine ⟨header, accepted, ?_⟩
    rw [again header accepted]
    exact List.take_left' (largest.length_encode Checksum.of)
  · exact ((decodes_format Checksum.of (steady _)).2.2 _).2 (by decide +kernel)
  · exact ((decodes_format Checksum.of (steady _)).2.2 _).2 (by decide +kernel)

end Header

end PackedTable
