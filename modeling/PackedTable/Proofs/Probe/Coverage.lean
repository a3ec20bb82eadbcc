import Mathlib.Data.Finset.Card
import Mathlib.Data.Nat.ModEq
import Mathlib.Data.Nat.Prime.Basic
import Mathlib.Tactic.Ring
import PackedTable.Probe

/-!
A probe meets every group once. After `n` steps it has come `1 + 2 + ... + n` places further. Twice
the difference of two such sums is the product of an even and an odd number, so a power of two that
divides it divides the even factor alone, which is too small to be divided.
-/

namespace PackedTable.Probe

def offset : Nat → Nat
  | 0 => 0
  | n + 1 => offset n + (n + 1)

theorem two_mul_offset (n : Nat) : 2 * offset n = n * (n + 1) := by
  induction n with
  | zero => rfl
  | succ n ih =>
    rw [offset, Nat.mul_add, ih]
    ring

theorem two_mul_offset_sub {i j : Nat} (ordered : i ≤ j) :
    2 * (offset j - offset i) = (j - i) * (j + i + 1) := by
  obtain ⟨d, rfl⟩ := Nat.exists_eq_add_of_le ordered
  have first := two_mul_offset i
  have second := two_mul_offset (i + d)
  have expanded : (i + d) * (i + d + 1) = i * (i + 1) + d * (i + d + i + 1) := by ring
  rw [Nat.mul_sub, first, second, expanded, Nat.add_sub_cancel_left, Nat.add_sub_cancel_left]

theorem offset_mono {i j : Nat} (ordered : i ≤ j) : offset i ≤ offset j := by
  induction ordered with
  | refl => exact Nat.le_refl _
  | step _ ih => exact Nat.le_trans ih (Nat.le_add_right _ _)

/-- An odd factor does not help a power of two to divide a product. -/
theorem two_pow_dvd_of_odd {scale odd other : Nat} (parity : odd % 2 = 1)
    (divides : 2 ^ scale ∣ odd * other) : 2 ^ scale ∣ other := by
  have coprime : Nat.Coprime (2 ^ scale) odd :=
    Nat.Coprime.pow_left scale (Nat.coprime_two_left.2 (Nat.odd_iff.2 parity))
  exact coprime.dvd_of_dvd_mul_left divides

theorem offset_mod_ne {scale i j : Nat} (before : i < j) (small : j < 2 ^ scale) (position : Nat) :
    (position + offset i) % 2 ^ scale ≠ (position + offset j) % 2 ^ scale := by
  intro same
  have grown := offset_mono (Nat.le_of_lt before)
  have gap : 2 ^ scale ∣ offset j - offset i := by
    have divides := (Nat.modEq_iff_dvd' (Nat.add_le_add_left grown position)).1 same
    rwa [Nat.add_sub_add_left] at divides
  have doubled : 2 ^ (scale + 1) ∣ (j - i) * (j + i + 1) := by
    rw [← two_mul_offset_sub (Nat.le_of_lt before), Nat.pow_succ, Nat.mul_comm (2 ^ scale)]
    exact Nat.mul_dvd_mul_left 2 gap
  rcases Nat.mod_two_eq_zero_or_one (j - i) with even | odd
  · rw [Nat.mul_comm] at doubled
    have divides := two_pow_dvd_of_odd (by omega) doubled
    have bound := Nat.le_of_dvd (by omega) divides
    rw [Nat.pow_succ] at bound
    omega
  · have divides := two_pow_dvd_of_odd odd doubled
    have bound := Nat.le_of_dvd (by omega) divides
    rw [Nat.pow_succ] at bound
    omega

/-- The position of a probe that has made `n` steps, and the ones after it. -/
theorem positions_from {scale position : Nat} (count n : Nat) :
    positions count ⟨(position + offset n) % 2 ^ scale, n, 2 ^ scale - 1⟩ =
      (List.range count).map fun i => (position + offset (n + i)) % 2 ^ scale := by
  induction count generalizing n with
  | zero => rfl
  | succ count ih =>
    have step : next ⟨(position + offset n) % 2 ^ scale, n, 2 ^ scale - 1⟩ =
        ⟨(position + offset (n + 1)) % 2 ^ scale, n + 1, 2 ^ scale - 1⟩ := by
      simp only [next, offset, Nat.and_two_pow_sub_one_eq_mod, Nat.mod_add_mod, Nat.add_assoc]
    rw [positions, step, ih, List.range_succ_eq_map, List.map_cons, List.map_map]
    simp only [Nat.add_zero, Function.comp_def, Nat.succ_eq_add_one, Nat.add_assoc,
      Nat.add_comm 1]

theorem positions_start {scale position : Nat} (inside : position < 2 ^ scale) (count : Nat) :
    positions count (start position (2 ^ scale - 1)) =
      (List.range count).map fun i => (position + offset i) % 2 ^ scale := by
  have first : start position (2 ^ scale - 1) =
      ⟨(position + offset 0) % 2 ^ scale, 0, 2 ^ scale - 1⟩ := by
    rw [start, offset, Nat.add_zero, Nat.mod_eq_of_lt inside]
  rw [first, positions_from]
  simp only [Nat.zero_add]

theorem positions_nodup {scale position : Nat} (inside : position < 2 ^ scale) :
    (positions (2 ^ scale) (start position (2 ^ scale - 1))).Nodup := by
  rw [positions_start inside]
  refine List.Nodup.map_on ?_ List.nodup_range
  intro i small j small' same
  rw [List.mem_range] at small small'
  rcases Nat.lt_trichotomy i j with before | equal | after
  · exact absurd same (offset_mod_ne before small' position)
  · exact equal
  · exact absurd same.symm (offset_mod_ne after small position)

theorem length_positions (count : Nat) (probe : Probe) :
    (positions count probe).length = count := by
  induction count generalizing probe with
  | zero => rfl
  | succ count ih => rw [positions, List.length_cons, ih]

/-- As many different positions as there are groups leave no group out. -/
theorem mem_positions {scale position group : Nat} (inside : position < 2 ^ scale) :
    group ∈ positions (2 ^ scale) (start position (2 ^ scale - 1)) ↔ group < 2 ^ scale := by
  have bounded : (positions (2 ^ scale) (start position (2 ^ scale - 1))).toFinset ⊆
      Finset.range (2 ^ scale) := by
    intro met member
    rw [List.mem_toFinset, positions_start inside, List.mem_map] at member
    obtain ⟨i, -, rfl⟩ := member
    exact Finset.mem_range.2 (Nat.mod_lt _ (Nat.two_pow_pos scale))
  have whole := Finset.eq_of_subset_of_card_le bounded (by
    rw [Finset.card_range, List.toFinset_card_of_nodup (positions_nodup inside),
      length_positions])
  rw [← List.mem_toFinset, whole, Finset.mem_range]

end PackedTable.Probe

namespace PackedTable.Geometry

def groupsAlong (geometry : Geometry) (count : Nat) (probe : Probe) :
    List (Fin geometry.groupCount) :=
  (Probe.positions count probe).map geometry.groupAt

def route (geometry : Geometry) (hash : UInt64) : List (Fin geometry.groupCount) :=
  geometry.groupsAlong geometry.groupCount (Probe.ofHash geometry hash)

theorem position_lt (geometry : Geometry) (hash : UInt64) :
    geometry.position hash < 2 ^ geometry.scale.val :=
  geometry.masked_lt _

theorem groupAt_of_lt (geometry : Geometry) {n : Nat} (inside : n < geometry.groupCount) :
    geometry.groupAt n = ⟨n, inside⟩ := by
  apply Fin.ext
  change n &&& (2 ^ geometry.scale.val - 1) = n
  rw [Nat.and_two_pow_sub_one_eq_mod]
  exact Nat.mod_eq_of_lt inside

theorem map_val_route (geometry : Geometry) (hash : UInt64) :
    (geometry.route hash).map Fin.val =
      Probe.positions geometry.groupCount (Probe.ofHash geometry hash) := by
  have small : ∀ n ∈ Probe.positions geometry.groupCount (Probe.ofHash geometry hash),
      n < geometry.groupCount :=
    fun n => (Probe.mem_positions (geometry.position_lt hash)).1
  rw [route, groupsAlong, List.map_map]
  conv_rhs => rw [← List.map_id (Probe.positions _ _)]
  refine List.map_congr_left ?_
  intro n member
  rw [Function.comp_apply, groupAt_of_lt geometry (small n member), id_eq]

theorem route_nodup (geometry : Geometry) (hash : UInt64) : (geometry.route hash).Nodup := by
  have numbers := Probe.positions_nodup (geometry.position_lt hash)
  change (Probe.positions geometry.groupCount (Probe.ofHash geometry hash)).Nodup at numbers
  rw [← map_val_route] at numbers
  exact numbers.of_map _

theorem mem_route (geometry : Geometry) (hash : UInt64) (group : Fin geometry.groupCount) :
    group ∈ geometry.route hash := by
  have member := (Probe.mem_positions (geometry.position_lt hash)).2 group.isLt
  change group.val ∈ Probe.positions geometry.groupCount (Probe.ofHash geometry hash) at member
  rw [← map_val_route, List.mem_map] at member
  obtain ⟨found, present, same⟩ := member
  exact Fin.ext same ▸ present

end PackedTable.Geometry
