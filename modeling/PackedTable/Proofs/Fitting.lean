import Mathlib.Order.Bounds.Basic
import PackedTable.Proofs.Accessors
import PackedTable.Proofs.Doubling

/-!
The largest table for a buffer. The exact size of a table grows with its number of groups, so the
tables that fit into a buffer are those up to some number of groups; the planner finds the last one.
It answers none only if two groups are too many, never less for a longer buffer, and the same for
all lengths from the size of a table up to the size of the next larger one.
-/

namespace PackedTable

theorem Word.roundUp_mono {n m : Nat} (ordered : n ≤ m) (unit : Nat) :
    roundUp n unit ≤ roundUp m unit :=
  Nat.mul_le_mul_right unit (Nat.div_le_div_right (by omega))

namespace Extent

theorem bufferSize_mono {mask mask' : Nat} (ordered : mask ≤ mask') (slots : Nat)
    (entry : EntryLayout) : bufferSize slots mask entry ≤ bufferSize slots mask' entry := by
  have metadata : groupsLength slots mask ≤ groupsLength slots mask' :=
    Nat.mul_le_mul_right _ (Nat.succ_le_succ ordered)
  have count : capacity slots mask ≤ capacity slots mask' :=
    Nat.sub_le_sub_right (Nat.mul_le_mul_right _ (Nat.succ_le_succ ordered)) 1
  exact Nat.add_le_add (Word.roundUp_mono metadata _) (Nat.mul_le_mul_right _ count)

end Extent

namespace Plan

/-- A table of so many groups has a size that can be represented and is at most `length`. -/
def Fits (slots : Nat) (entry : EntryLayout) (length groups : Nat) : Prop :=
  Extent.bufferSize slots (groups - 1) entry < Word.limit ∧
    Extent.bufferSize slots (groups - 1) entry ≤ length

section

variable {slots length length' groups groups' : Nat} {entry : EntryLayout}

theorem fits_iff (positive : 0 < slots) (aligned : 0 < entry.align) (scale : Fin 64) :
    fits slots entry length scale = true ↔ Fits slots entry length (2 ^ scale.val) := by
  unfold fits Fits
  split
  case h_1 size found =>
    obtain ⟨-, small, rfl⟩ := (Extent.bufferSize?_eq_some_iff aligned).1 found
    rw [decide_eq_true_iff, and_iff_right small]
  case h_2 missing =>
    refine iff_of_false Bool.false_ne_true fun fitting => ?_
    rw [Extent.bufferSize?_of_lt positive aligned fitting.1] at missing
    cases missing

theorem Fits.of_le (fits : Fits slots entry length groups') (fewer : groups ≤ groups')
    (longer : length ≤ length') : Fits slots entry length' groups := by
  have smaller := Extent.bufferSize_mono (Nat.sub_le_sub_right fewer 1) slots entry
  exact ⟨Nat.lt_of_le_of_lt smaller fits.1, Nat.le_trans smaller (Nat.le_trans fits.2 longer)⟩

theorem Fits.exists_scale (fits : Fits slots entry length groups) (aligned : 0 < entry.align)
    (power : groups.isPowerOfTwo) : ∃ scale : Fin 64, groups = 2 ^ scale.val := by
  obtain ⟨scale, rfl⟩ := power
  have few := Nat.lt_of_le_of_lt (groups_le_bufferSize (Nat.two_pow_pos scale) aligned) fits.1
  exact ⟨⟨scale, (Nat.pow_lt_pow_iff_right (by decide)).1 few⟩, rfl⟩

end

/-! ### The last scale that passes -/

section

variable {n : Nat} {list : List (Fin n)} {test : Fin n → Bool}

theorem takeWhile_eq_filter (ascending : list.Pairwise (· < ·))
    (downward : ∀ a b, a < b → test b = true → test a = true) :
    list.takeWhile test = list.filter test := by
  induction list with
  | nil => rfl
  | cons first rest ih =>
    rw [List.pairwise_cons] at ascending
    by_cases passes : test first = true
    · rw [List.takeWhile_cons_of_pos passes, List.filter_cons_of_pos passes, ih ascending.2]
    · have none : ∀ member ∈ rest, ¬test member = true := fun member inside passes' =>
        passes (downward _ _ (ascending.1 member inside) passes')
      rw [List.takeWhile_cons_of_neg passes, List.filter_cons_of_neg passes,
        List.filter_eq_nil_iff.2 none]

theorem isGreatest_of_getLast? {last : Fin n} (ascending : list.Pairwise (· < ·))
    (found : list.getLast? = some last) : IsGreatest {member | member ∈ list} last := by
  obtain ⟨before, rfl⟩ := List.getLast?_eq_some_iff.1 found
  refine ⟨List.mem_append_right _ List.mem_cons_self, ?_⟩
  intro member inside
  rcases List.mem_append.1 inside with earlier | same
  · exact Fin.le_of_lt ((List.pairwise_append.1 ascending).2.2 member earlier last
      List.mem_cons_self)
  · exact Fin.le_of_eq (List.mem_singleton.1 same)

end

theorem mem_scalesFrom {first : Nat} {scale : Fin 64} :
    scale ∈ scalesFrom first ↔ first ≤ scale.val := by
  rw [scalesFrom, List.mem_drop_iff_getElem]
  constructor
  · rintro ⟨step, inside, rfl⟩
    rw [List.getElem_finRange]
    exact Nat.le_add_right _ _
  · intro reached
    have whole : first + (scale.val - first) = scale.val := by omega
    refine ⟨scale.val - first, ?_, ?_⟩
    · rw [List.length_finRange]
      omega
    · rw [List.getElem_finRange]
      exact Fin.ext whole

theorem scalesFrom_ascending (first : Nat) : (scalesFrom first).Pairwise (· < ·) :=
  (List.pairwise_lt_finRange 64).drop

section

variable {slots length groups : Nat} {entry : EntryLayout}

theorem forLength?_cases (positive : 0 < slots) (aligned : 0 < entry.align) (length : Nat) :
    (forLength? slots entry length = none ∧ ¬Fits slots entry length 2) ∨
      ∃ scale : Fin 64, forLength? slots entry length = some (Geometry.ofScale scale) ∧
        1 ≤ scale.val ∧ Fits slots entry length (2 ^ scale.val) ∧
        ∀ scale' : Fin 64, Fits slots entry length (2 ^ scale'.val) → scale' ≤ scale := by
  have downward : ∀ a b : Fin 64, a < b → fits slots entry length b = true →
      fits slots entry length a = true := by
    intro a b less fitting
    rw [fits_iff positive aligned] at fitting ⊢
    exact fitting.of_le (Nat.pow_le_pow_right Nat.two_pos (Nat.le_of_lt less)) (Nat.le_refl length)
  have searched : forLength? slots entry length =
      ((scalesFrom 1).filter (fits slots entry length)).getLast?.map Geometry.ofScale := by
    rw [← takeWhile_eq_filter (scalesFrom_ascending 1) downward]
    rfl
  have member (scale : Fin 64) : scale ∈ (scalesFrom 1).filter (fits slots entry length) ↔
      1 ≤ scale.val ∧ Fits slots entry length (2 ^ scale.val) := by
    rw [List.mem_filter, mem_scalesFrom, fits_iff positive aligned]
  cases last : ((scalesFrom 1).filter (fits slots entry length)).getLast? with
  | none =>
    rw [last] at searched
    refine Or.inl ⟨searched, fun fitting => ?_⟩
    have first := (member 1).2 ⟨Nat.le_refl 1, fitting⟩
    rw [List.getLast?_eq_none_iff.1 last] at first
    exact List.not_mem_nil first
  | some scale =>
    rw [last] at searched
    obtain ⟨inside, greatest⟩ := isGreatest_of_getLast? ((scalesFrom_ascending 1).filter _) last
    obtain ⟨grown, fitting⟩ := (member scale).1 inside
    refine Or.inr ⟨scale, searched, grown, fitting, fun scale' fitting' => ?_⟩
    by_cases least : 1 ≤ scale'.val
    · exact greatest ((member scale').2 ⟨least, fitting'⟩)
    · exact Fin.le_def.2 (by omega)

def fittingCounts (slots : Nat) (entry : EntryLayout) (length : Nat) : Set Nat :=
  {groups | groups.isPowerOfTwo ∧ 2 ≤ groups ∧ Fits slots entry length groups}

theorem isGreatest_fittingCounts (aligned : 0 < entry.align) {scale : Fin 64}
    (grown : 1 ≤ scale.val)
    (fitting : Fits slots entry length (2 ^ scale.val))
    (largest : ∀ scale' : Fin 64, Fits slots entry length (2 ^ scale'.val) → scale' ≤ scale) :
    IsGreatest (fittingCounts slots entry length) (2 ^ scale.val) := by
  refine ⟨⟨⟨_, rfl⟩, Nat.le_self_pow (Nat.ne_of_gt grown) 2, fitting⟩, ?_⟩
  rintro groups ⟨power, -, fitting'⟩
  obtain ⟨scale', rfl⟩ := fitting'.exists_scale aligned power
  exact Nat.pow_le_pow_right Nat.two_pos (largest scale' fitting')

theorem forLength?_eq_some_iff (positive : 0 < slots) (aligned : 0 < entry.align)
    {geometry : Geometry} :
    forLength? slots entry length = some geometry ↔
      IsGreatest (fittingCounts slots entry length) geometry.groupCount ∧
        Geometry.ofGroupCount geometry.groupCount = .ok geometry := by
  rcases forLength?_cases positive aligned length with
    ⟨missed, few⟩ | ⟨scale, found, grown, fitting, largest⟩
  · rw [missed]
    refine iff_of_false nofun ?_
    rintro ⟨⟨⟨-, two, fitting⟩, -⟩, -⟩
    exact few (fitting.of_le two (Nat.le_refl length))
  · have greatest := isGreatest_fittingCounts aligned grown fitting largest
    rw [found, Option.some_inj]
    constructor
    · rintro rfl
      exact ⟨greatest, Geometry.ofGroupCount_two_pow scale⟩
    · rintro ⟨greatest', named⟩
      rw [greatest'.unique greatest, Geometry.ofGroupCount_two_pow] at named
      exact Except.ok.inj named

theorem forLength?_eq_none_iff (positive : 0 < slots) (aligned : 0 < entry.align) :
    forLength? slots entry length = none ↔ ¬Fits slots entry length 2 := by
  rcases forLength?_cases positive aligned length with
    ⟨missed, few⟩ | ⟨scale, found, grown, fitting, -⟩
  · exact iff_of_true missed few
  · rw [found]
    have two : 2 ≤ 2 ^ scale.val := Nat.le_self_pow (Nat.ne_of_gt grown) 2
    exact iff_of_false nofun fun few => few (fitting.of_le two (Nat.le_refl length))

theorem forLength?_mono (positive : 0 < slots) (aligned : 0 < entry.align) {length' : Nat}
    (longer : length ≤ length') {geometry : Geometry}
    (found : forLength? slots entry length = some geometry) :
    ∃ geometry', forLength? slots entry length' = some geometry' ∧
      geometry.groupCount ≤ geometry'.groupCount := by
  obtain ⟨⟨⟨power, two, fitting⟩, -⟩, -⟩ := (forLength?_eq_some_iff positive aligned).1 found
  cases found' : forLength? slots entry length' with
  | none =>
    have few := (forLength?_eq_none_iff positive aligned).1 found'
    exact absurd (fitting.of_le two longer) few
  | some geometry' =>
    obtain ⟨greatest, -⟩ := (forLength?_eq_some_iff positive aligned).1 found'
    exact ⟨geometry', rfl, greatest.2 ⟨power, two, fitting.of_le (Nat.le_refl _) longer⟩⟩

/-- A number of groups is the largest one exactly if the next one does not fit. -/
theorem isGreatest_fittingCounts_iff (power : groups.isPowerOfTwo) (two : 2 ≤ groups) :
    IsGreatest (fittingCounts slots entry length) groups ↔
      Fits slots entry length groups ∧ ¬Fits slots entry length (2 * groups) := by
  constructor
  · rintro ⟨⟨-, -, fitting⟩, greatest⟩
    refine ⟨fitting, fun fitting' => ?_⟩
    have double : (2 * groups).isPowerOfTwo := by
      rw [Nat.mul_comm]
      exact Nat.isPowerOfTwo_mul_two_of_isPowerOfTwo power
    have bound := greatest ⟨double, by omega, fitting'⟩
    omega
  · rintro ⟨fitting, few⟩
    refine ⟨⟨power, two, fitting⟩, ?_⟩
    rintro groups' ⟨power', -, fitting'⟩
    by_contra more
    obtain ⟨scale, rfl⟩ := power
    obtain ⟨scale', rfl⟩ := power'
    -- a larger power of two is at least the next one
    have apart := (Nat.pow_lt_pow_iff_right (by decide)).1 (Nat.lt_of_not_le more)
    have next : 2 * 2 ^ scale ≤ 2 ^ scale' := by
      rw [← Nat.pow_succ']
      exact Nat.pow_le_pow_right Nat.two_pos apart
    exact few (fitting'.of_le next (Nat.le_refl length))

theorem forLength?_plateau (positive : 0 < slots) (aligned : 0 < entry.align) {size : Nat}
    (power : groups.isPowerOfTwo) (two : 2 ≤ groups)
    (sized : bufferSize slots (groups - 1) entry = .ok size) :
    ∃ geometry, Geometry.ofGroupCount groups = .ok geometry ∧ geometry.groupCount = groups ∧
      ∀ length, length < Word.limit → (forLength? slots entry length = some geometry ↔
        size ≤ length ∧ length < Extent.bufferSize slots (2 * groups - 1) entry) := by
  have found : Extent.bufferSize? slots (groups - 1) entry = some size := by
    unfold bufferSize at sized
    split at sized
    case h_1 found => rw [found, Except.ok.inj sized]
    case h_2 => cases sized
  obtain ⟨-, small, rfl⟩ := (Extent.bufferSize?_eq_some_iff aligned).1 found
  have fitting : Fits slots entry (Extent.bufferSize slots (groups - 1) entry) groups :=
    ⟨small, Nat.le_refl _⟩
  obtain ⟨scale, rfl⟩ := fitting.exists_scale aligned power
  refine ⟨_, Geometry.ofGroupCount_two_pow scale, rfl, fun length bounded => ?_⟩
  rw [forLength?_eq_some_iff positive aligned, Geometry.groupCount_ofScale,
    and_iff_left (Geometry.ofGroupCount_two_pow scale), isGreatest_fittingCounts_iff power two]
  unfold Fits
  omega

end

/-- Choosing a table by the length of its buffer. The loop ends, after 63 turns at the latest. Its
answer is the largest power of two, two or more, whose exact buffer size can be represented and is
at most the length, with the shift that belongs to it; it is none exactly if two groups do not fit.
Longer buffers get tables at least as large, and all lengths from the size of a table up to the size
of the next larger one get this table. -/
theorem largest_fit (width : Width) (shape : Shape) :
    let slots := width.slots
    let entry := shape.entry
    (∀ length turns, 63 ≤ turns →
      Checked.forLength turns slots entry length = pure (forLength? slots entry length)) ∧
    (∀ length geometry, forLength? slots entry length = some geometry ↔
      IsGreatest {groups | groups.isPowerOfTwo ∧ 2 ≤ groups ∧ Fits slots entry length groups}
        geometry.groupCount ∧ Geometry.ofGroupCount geometry.groupCount = .ok geometry) ∧
    (∀ length, forLength? slots entry length = none ↔ ¬Fits slots entry length 2) ∧
    (∀ length length' geometry, length ≤ length' → forLength? slots entry length = some geometry →
      ∃ geometry', forLength? slots entry length' = some geometry' ∧
        geometry.groupCount ≤ geometry'.groupCount) ∧
    ∀ groups size, groups.isPowerOfTwo → 2 ≤ groups →
      bufferSize slots (groups - 1) entry = .ok size →
      ∃ geometry, Geometry.ofGroupCount groups = .ok geometry ∧ geometry.groupCount = groups ∧
        ∀ length, length < Word.limit → (forLength? slots entry length = some geometry ↔
          size ≤ length ∧ length < Extent.bufferSize slots (2 * groups - 1) entry) := by
  have positive : 0 < width.slots := Nat.lt_of_lt_of_le Nat.two_pos width.two_le
  have aligned := shape.entry_align_pos
  refine ⟨?_, ?_, ?_, ?_, ?_⟩
  · intro length turns enough
    exact Checked.forLength_eq _ _ length aligned enough
  · intro length geometry
    exact forLength?_eq_some_iff positive aligned
  · intro length
    exact forLength?_eq_none_iff positive aligned
  · intro length length' geometry longer found
    exact forLength?_mono positive aligned longer found
  · intro groups size power two sized
    exact forLength?_plateau positive aligned power two sized

/-- With slots of thirty-two bytes two groups of two take 112 bytes, and four groups 240. -/
theorem padded_largest_fit :
    let choose := forLength? Width.narrow.slots Shape.padded.entry
    bufferSize Width.narrow.slots 1 Shape.padded.entry = .ok 112 ∧
      Checked.forLength 63 Width.narrow.slots Shape.padded.entry 239 = pure (choose 239) ∧
      choose 111 = none ∧ (∀ length, 112 ≤ length → length < 240 → choose length = some ⟨63, 1⟩) ∧
      ∃ geometry, choose 1000 = some geometry ∧ 2 ≤ geometry.groupCount := by
  intro choose
  obtain ⟨ended, -, few, mono, plateau⟩ := largest_fit .narrow Shape.padded
  have sized : bufferSize Width.narrow.slots 1 Shape.padded.entry = .ok 112 := by decide
  obtain ⟨geometry, named, -, chosen⟩ := plateau 2 112 ⟨1, rfl⟩ (Nat.le_refl 2) sized
  obtain rfl : (⟨63, 1⟩ : Geometry) = geometry := Except.ok.inj named
  have next : Extent.bufferSize Width.narrow.slots 3 Shape.padded.entry = 240 := by decide
  have between (length : Nat) (low : 112 ≤ length) (high : length < 240) :
      choose length = some ⟨63, 1⟩ := by
    have bounded : length < Word.limit := Nat.lt_trans high (by decide)
    exact (chosen length bounded).2 ⟨low, next ▸ high⟩
  refine ⟨sized, ended 239 63 (Nat.le_refl 63), (few 111).2 (by unfold Fits; decide), between, ?_⟩
  exact mono 112 1000 _ (by decide) (between 112 (by decide) (by decide))

end Plan

end PackedTable
