import Mathlib.Data.List.FinRange
import PackedTable.Plan
import PackedTable.Proofs.Checked
import PackedTable.Proofs.HeaderLength

/-!
Planning over bare group counts. Here a planner starts with two groups and doubles their number, in
a word that may overflow, until its condition decides; nothing bounds the loop but the number of
turns it is given. The main fact about each planner is that 63 turns are enough, whatever it is
asked for, and that its answer is then the one of the search over the scales.
-/

namespace PackedTable

variable {σ α : Type}

namespace Geometry

theorem groupCount_ofScale (scale : Fin 64) : (ofScale scale).groupCount = 2 ^ scale.val := rfl

theorem ofGroupCount_two_pow (scale : Fin 64) :
    ofGroupCount (2 ^ scale.val) = .ok (ofScale scale) := by
  have same : (2 ^ scale.val).log2 = scale.val := Nat.log2_two_pow
  have valid : (2 ^ scale.val).log2 < 64 ∧ 2 ^ (2 ^ scale.val).log2 = 2 ^ scale.val := by
    rw [same]
    exact ⟨scale.isLt, rfl⟩
  rw [ofGroupCount, scaleOf?, dif_pos valid]
  exact congrArg (fun scale => Except.ok (ofScale scale)) (Fin.ext same)

end Geometry

namespace Plan

def scalesFrom (scale : Nat) : List (Fin 64) := (List.finRange 64).drop scale

theorem scalesFrom_of_lt {scale : Nat} (inside : scale < 64) :
    scalesFrom scale = ⟨scale, inside⟩ :: scalesFrom (scale + 1) := by
  have long : scale < (List.finRange 64).length := by rwa [List.length_finRange]
  rw [scalesFrom, List.drop_eq_getElem_cons long, List.getElem_finRange]
  rfl

theorem doubled_of_lt {scale : Nat} (inside : scale + 1 < 64) :
    Word.mul? (2 ^ scale) 2 = some (2 ^ (scale + 1)) := by
  rw [Word.mul?, ← Nat.pow_succ]
  exact Word.fit?_of_lt (Nat.pow_lt_pow_right (by decide) inside)

theorem groups_le_bufferSize {slots groups : Nat} (positive : 0 < groups) {entry : EntryLayout}
    (aligned : 0 < entry.align) : groups ≤ Extent.bufferSize slots (groups - 1) entry := by
  have metadata : groups ≤ Extent.groupsLength slots (groups - 1) := by
    rw [Extent.groupsLength, Nat.sub_add_cancel positive]
    exact Nat.le_mul_of_pos_right _ (Nat.succ_pos slots)
  have padded := Word.le_roundUp (Extent.groupsLength slots (groups - 1)) aligned
  exact Nat.le_trans metadata (Nat.le_trans padded (Nat.le_add_right _ _))

theorem not_fits_of_lt {slots length : Nat} {entry : EntryLayout} (aligned : 0 < entry.align)
    {scale : Fin 64} (few : length < 2 ^ scale.val) : ¬fits slots entry length scale = true := by
  intro fitting
  unfold fits at fitting
  split at fitting
  case h_1 size found =>
    have exact := (Extent.bufferSize?_eq_some found).2
    have bound : 2 ^ scale.val ≤ Extent.bufferSize slots (2 ^ scale.val - 1) entry :=
      groups_le_bufferSize (Nat.two_pow_pos _) aligned
    have enough := of_decide_eq_true fitting
    omega
  case h_2 => exact Bool.false_ne_true fitting

section

variable {slots items count : Nat} {factor : LoadFactor} {larger : List (Fin 64)}

theorem firstHolding_of_error (scale : Fin 64) {fault : Fault}
    (refused : capacity slots (2 ^ scale.val - 1) = .error fault) :
    firstHolding slots items factor (scale :: larger) = .error fault := by
  rw [firstHolding, refused]
  rfl

theorem firstHolding_of_lt (scale : Fin 64)
    (counted : capacity slots (2 ^ scale.val - 1) = .ok count)
    (short : Load.threshold count factor < items) :
    firstHolding slots items factor (scale :: larger) = firstHolding slots items factor larger := by
  rw [firstHolding, counted]
  exact if_pos short

theorem firstHolding_of_not_lt (scale : Fin 64)
    (counted : capacity slots (2 ^ scale.val - 1) = .ok count)
    (enough : ¬Load.threshold count factor < items) :
    firstHolding slots items factor (scale :: larger) = .ok (Geometry.ofScale scale) := by
  rw [firstHolding, counted]
  exact if_neg enough

theorem ofGroupCount_of_firstHolding {scales : List (Fin 64)} {geometry : Geometry}
    (found : firstHolding slots items factor scales = .ok geometry) :
    Geometry.ofGroupCount geometry.groupCount = .ok geometry := by
  induction scales with
  | nil => cases found
  | cons scale larger ih =>
    cases counted : capacity slots (2 ^ scale.val - 1) with
    | error fault =>
      rw [firstHolding_of_error scale counted] at found
      cases found
    | ok count =>
      by_cases short : Load.threshold count factor < items
      · rw [firstHolding_of_lt scale counted short] at found
        exact ih found
      · rw [firstHolding_of_not_lt scale counted short] at found
        cases found
        exact Geometry.ofGroupCount_two_pow scale

end

end Plan

namespace Checked

/-- A loop that goes on until its body answers, given a number of turns. -/
def repeated (body : σ → Checked (Stage σ α)) : Nat → σ → Checked α
  | 0, _ => ExceptT.mk none
  | turns + 1, state => do
    match ← body state with
    | .done answer => return answer
    | .onward next => repeated body turns next

/-! ### The smallest table that holds a number of items -/

/-- Twice as many groups as long as the threshold is below the number of items. -/
def holdingTurn (slots items : Nat) (factor : LoadFactor) (groups : Nat) :
    Checked (Stage Nat Nat) := do
  let count ← of (Plan.capacity slots (groups - 1))
  if Load.threshold count factor < items then
    match Word.mul? groups 2 with
    | some next => return .onward next
    | none => throw .itemsNotAddressable
  else return .done groups

def forItems (turns slots items : Nat) (factor : LoadFactor) : Checked (Except Error Geometry) := do
  let groups ← repeated (holdingTurn slots items factor) turns Geometry.minGroupCount
  return Geometry.ofGroupCount groups

section

variable (slots items : Nat) (factor : LoadFactor)

/-- From each power of two the loop does what the search does from its scale on. -/
theorem repeated_holdingTurn {scale turns : Nat} (inside : scale < 64)
    (enough : 64 ≤ scale + turns) :
    repeated (holdingTurn slots items factor) turns (2 ^ scale) =
      of ((Plan.firstHolding slots items factor (Plan.scalesFrom scale)).map
        Geometry.groupCount) := by
  induction turns generalizing scale with
  | zero => omega
  | succ turns ih =>
    rw [repeated, holdingTurn, Plan.scalesFrom_of_lt inside]
    cases counted : Plan.capacity slots (2 ^ scale - 1) with
    | error fault =>
      rw [Plan.firstHolding_of_error ⟨scale, inside⟩ counted]
      rfl
    | ok count =>
      rw [of_ok, pure_bind]
      by_cases short : Load.threshold count factor < items
      · rw [if_pos short, Plan.firstHolding_of_lt ⟨scale, inside⟩ counted short]
        by_cases last : scale + 1 < 64
        · rw [Plan.doubled_of_lt last]
          exact ih last (by omega)
        · -- twice the largest power of two does not fit into a word
          obtain rfl : scale = 63 := by omega
          rfl
      · rw [if_neg short, Plan.firstHolding_of_not_lt ⟨scale, inside⟩ counted short]
        rfl

theorem forItems_eq {turns : Nat} (enough : 63 ≤ turns) :
    forItems turns slots items factor = of ((Plan.forItems slots items factor).map Except.ok) := by
  have looped := repeated_holdingTurn slots items factor (show 1 < 64 by decide)
    (show 64 ≤ 1 + turns by omega)
  rw [Nat.pow_one] at looped
  rw [forItems, Geometry.minGroupCount, looped]
  change (do let groups ← of ((Plan.forItems slots items factor).map Geometry.groupCount)
             return Geometry.ofGroupCount groups) = _
  cases found : Plan.forItems slots items factor with
  | error fault => rfl
  | ok geometry =>
    have same := Plan.ofGroupCount_of_firstHolding found
    change (pure (Geometry.ofGroupCount geometry.groupCount) : Checked _) = _
    rw [same]
    rfl

end

/-! ### The largest table that fits into a number of bytes -/

/-- Twice as many groups as long as the table fits, and as the number of groups itself does not
exceed the number of bytes. The state is the last number of groups that did fit, and the next. -/
def fittingTurn (slots : Nat) (entry : EntryLayout) (length : Nat) :
    Option Nat × Nat → Checked (Stage (Option Nat × Nat) (Option Nat))
  | (best, groups) =>
    if (Extent.bufferSize? slots (groups - 1) entry).any (· ≤ length) then
      match Word.mul? groups 2 with
      | some next =>
        return if next ≤ length then .onward (some groups, next) else .done (some groups)
      | none => return .done (some groups)
    else return .done best

def forLength (turns slots : Nat) (entry : EntryLayout) (length : Nat) :
    Checked (Option Geometry) := do
  let best ← repeated (fittingTurn slots entry length) turns (none, Geometry.minGroupCount)
  return best.bind fun groups => (Geometry.ofGroupCount groups).toOption

section

variable (slots : Nat) (entry : EntryLayout) (length : Nat)

theorem any_eq_fits (scale : Fin 64) :
    (Extent.bufferSize? slots (2 ^ scale.val - 1) entry).any (· ≤ length) =
      Plan.fits slots entry length scale := by
  unfold Plan.fits
  cases Extent.bufferSize? slots (2 ^ scale.val - 1) entry <;> rfl

def fitting (scale : Nat) : List (Fin 64) :=
  (Plan.scalesFrom scale).takeWhile (Plan.fits slots entry length)

theorem fitting_of_lt (aligned : 0 < entry.align) {scale : Nat} (inside : scale < 64)
    (few : length < 2 ^ scale) : fitting slots entry length scale = [] := by
  rw [fitting, Plan.scalesFrom_of_lt inside]
  exact List.takeWhile_cons_of_neg (Plan.not_fits_of_lt aligned few)

theorem getLast?_fitting {scale : Nat} (inside : scale < 64)
    (fits : Plan.fits slots entry length ⟨scale, inside⟩ = true) (best : Option Nat) :
    ((fitting slots entry length scale).getLast?.map fun last => 2 ^ last.val).or best =
      ((fitting slots entry length (scale + 1)).getLast?.map fun last => 2 ^ last.val).or
        (some (2 ^ scale)) := by
  have split : fitting slots entry length scale =
      ⟨scale, inside⟩ :: fitting slots entry length (scale + 1) := by
    rw [fitting, Plan.scalesFrom_of_lt inside, List.takeWhile_cons_of_pos fits, ← fitting]
  rw [split, List.getLast?_cons]
  cases (fitting slots entry length (scale + 1)).getLast? <;> rfl

/-- From each power of two the loop does what the search does from its scale on. Leaving it because
the number of groups exceeds the number of bytes leaves out nothing. -/
theorem repeated_fittingTurn (aligned : 0 < entry.align) {scale turns : Nat} (inside : scale < 64)
    (enough : 64 ≤ scale + turns) (best : Option Nat) :
    repeated (fittingTurn slots entry length) turns (best, 2 ^ scale) =
      pure
        (((fitting slots entry length scale).getLast?.map fun last => 2 ^ last.val).or best) := by
  induction turns generalizing scale best with
  | zero => omega
  | succ turns ih =>
    have tested := any_eq_fits slots entry length ⟨scale, inside⟩
    rw [repeated, fittingTurn, tested]
    by_cases fits : Plan.fits slots entry length ⟨scale, inside⟩ = true
    · rw [if_pos fits, getLast?_fitting slots entry length inside fits]
      by_cases last : scale + 1 < 64
      · rw [Plan.doubled_of_lt last]
        by_cases room : 2 ^ (scale + 1) ≤ length
        · simp only [if_pos room]
          exact ih last (by omega) (some (2 ^ scale))
        · simp only [if_neg room]
          rw [fitting_of_lt slots entry length aligned last (by omega)]
          rfl
      · -- twice the largest power of two does not fit into a word
        obtain rfl : scale = 63 := by omega
        rfl
    · rw [if_neg fits, fitting, Plan.scalesFrom_of_lt inside, List.takeWhile_cons_of_neg fits]
      rfl

theorem forLength_eq (aligned : 0 < entry.align) {turns : Nat} (enough : 63 ≤ turns) :
    forLength turns slots entry length = pure (Plan.forLength? slots entry length) := by
  have looped := repeated_fittingTurn slots entry length aligned (show 1 < 64 by decide)
    (show 64 ≤ 1 + turns by omega) none
  rw [Nat.pow_one] at looped
  rw [forLength, Geometry.minGroupCount, looped, pure_bind, Option.or_none]
  change (pure (((fitting slots entry length 1).getLast?.map fun last => 2 ^ last.val).bind
    fun groups => (Geometry.ofGroupCount groups).toOption) : Checked _) =
      pure ((fitting slots entry length 1).getLast?.map Geometry.ofScale)
  cases (fitting slots entry length 1).getLast? with
  | none => rfl
  | some scale =>
    rw [Option.map_some, Option.bind_some, Geometry.ofGroupCount_two_pow]
    rfl

end

end Checked

end PackedTable
