import PackedTable.Proofs.Checked

/-!
A probe in words. Its steps are taken with additions that may leave a word, and it goes on until a
step says that there is no further group. With up to `2 ^ 63` groups no addition does leave a word,
and the positions up to the last step are the numbers of the groups, each of them once.
-/

namespace PackedTable.Probe

/-- A step as a word takes it: neither its number nor the sum may leave the word. -/
def next? (probe : Probe) : Option Probe := do
  let step ← Word.add? probe.step 1
  let sum ← Word.add? probe.position step
  return ⟨sum &&& probe.mask, step, probe.mask⟩

/-- What a probe comes to: its positions up to the first step after which it does not go on, and how
many of its steps it went on after. -/
structure Round where
  visited : List Nat
  advances : Nat
deriving DecidableEq

/-- The round of a probe, given a number of turns. There is none if an addition leaves the word, or
if the probe wants to go on after the last turn. -/
def round? : Nat → Probe → Option Round
  | 0, _ => none
  | turns + 1, probe => do
    let further ← probe.next?
    if further.live then
      let rest ← round? turns further
      return ⟨probe.position :: rest.visited, rest.advances + 1⟩
    else return ⟨[probe.position], 0⟩

theorem next?_eq {probe : Probe} (small : probe.position + (probe.step + 1) < Word.limit) :
    probe.next? = some probe.next := by
  have counted : Word.add? probe.step 1 = some (probe.step + 1) := Word.fit?_of_lt (by omega)
  have added : Word.add? probe.position (probe.step + 1) =
      some (probe.position + (probe.step + 1)) := Word.fit?_of_lt small
  simp only [next?, counted, added, Option.bind_eq_bind, Option.bind_some]
  rfl

/-- One turn, while there are no more steps than groups. With `2 ^ 63` groups the largest sum is the
largest number of a word. -/
theorem round?_succ {scale : Nat} {probe : Probe} (wide : scale < 64)
    (masked : probe.mask = 2 ^ scale - 1) (inside : probe.position < 2 ^ scale)
    (counted : probe.step ≤ probe.mask) (turns : Nat) :
    round? (turns + 1) probe =
      if probe.step < probe.mask then
        (round? turns probe.next).map fun rest =>
          ⟨probe.position :: rest.visited, rest.advances + 1⟩
      else some ⟨[probe.position], 0⟩ := by
  have groups : 2 ^ scale ≤ 2 ^ 63 := Nat.pow_le_pow_right Nat.two_pos (by omega)
  have small : probe.position + (probe.step + 1) < Word.limit := by
    unfold Word.limit
    omega
  rw [round?, next?_eq small, Option.bind_eq_bind, Option.bind_some]
  simp only [live_next]
  split
  case isTrue => cases round? turns probe.next <;> rfl
  case isFalse => rfl

theorem round?_eq {scale ahead turns : Nat} {probe : Probe} (wide : scale < 64)
    (masked : probe.mask = 2 ^ scale - 1) (inside : probe.position < 2 ^ scale)
    (left : probe.step + ahead = probe.mask) (enough : ahead < turns) :
    round? turns probe = some ⟨positions (ahead + 1) probe, ahead⟩ := by
  -- on the steps that are left; each of them is masked, and so stays below the number of groups
  induction ahead generalizing turns probe with
  | zero =>
    obtain ⟨turns, rfl⟩ := Nat.exists_eq_succ_of_ne_zero (Nat.ne_zero_of_lt enough)
    rw [Nat.succ_eq_add_one, round?_succ wide masked inside (by omega), if_neg (by omega)]
    rfl
  | succ ahead ih =>
    obtain ⟨turns, rfl⟩ := Nat.exists_eq_succ_of_ne_zero (Nat.ne_zero_of_lt enough)
    have inside' : probe.next.position < 2 ^ scale := by
      rw [next, masked, Nat.and_two_pow_sub_one_eq_mod]
      exact Nat.mod_lt _ (Nat.two_pow_pos scale)
    have left' : probe.next.step + ahead = probe.next.mask := by
      change probe.step + 1 + ahead = probe.mask
      omega
    have masked' : probe.next.mask = 2 ^ scale - 1 := masked
    have rest := ih masked' inside' left' (Nat.lt_of_succ_lt_succ enough)
    rw [Nat.succ_eq_add_one, round?_succ wide masked inside (by omega), if_pos (by omega), rest,
      Option.map_some]
    rfl

theorem positions_perm_range {scale position : Nat} (inside : position < 2 ^ scale) :
    (positions (2 ^ scale) (start position (2 ^ scale - 1))).Perm (List.range (2 ^ scale)) := by
  apply (List.perm_ext_iff_of_nodup (positions_nodup inside) List.nodup_range).2
  intro group
  rw [mem_positions inside, List.mem_range]

/-- From each of up to `2 ^ 63` groups, a power of two, a probe makes one round: as many steps go on
as there are groups besides the first, no addition on the way leaves the word, and the positions are
the numbers of the groups, each of them once. -/
theorem visits_each_group_once {scale position : Nat} (wide : scale ≤ 63)
    (inside : position ≤ 2 ^ scale - 1) :
    let mask := 2 ^ scale - 1
    let probe := start position mask
    (∀ turns, mask < turns → probe.round? turns = some ⟨positions (mask + 1) probe, mask⟩) ∧
      (positions (mask + 1) probe).Perm (List.range (mask + 1)) := by
  intro mask probe
  have groups : mask + 1 = 2 ^ scale := Nat.sub_add_cancel (Nat.two_pow_pos scale)
  have below : position < 2 ^ scale := by omega
  refine ⟨fun turns enough => ?_, ?_⟩
  · exact round?_eq (Nat.lt_succ_of_le wide) rfl below (Nat.zero_add mask) enough
  · rw [groups]
    exact positions_perm_range below

/-- Eight groups from the sixth one on, and `2 ^ 63` groups from the last one on. -/
theorem eight_groups_visited :
    (3 ≤ 63 ∧ 5 ≤ 2 ^ 3 - 1 ∧
      (start 5 7).round? 8 = some ⟨[5, 6, 0, 3, 7, 4, 2, 1], 7⟩ ∧
      [5, 6, 0, 3, 7, 4, 2, 1].Perm (List.range 8)) ∧
    63 ≤ 63 ∧ 2 ^ 63 - 1 ≤ 2 ^ 63 - 1 ∧
      ∃ visited, (start (2 ^ 63 - 1) (2 ^ 63 - 1)).round? (2 ^ 63) =
        some ⟨visited, 2 ^ 63 - 1⟩ ∧ visited.Perm (List.range (2 ^ 63)) := by
  obtain ⟨round, whole⟩ := visits_each_group_once (show 3 ≤ 63 by decide)
    (show 5 ≤ 2 ^ 3 - 1 by decide)
  obtain ⟨round', whole'⟩ := visits_each_group_once (Nat.le_refl 63) (Nat.le_refl (2 ^ 63 - 1))
  exact ⟨⟨by decide, by decide, round 8 (by decide), whole⟩, by decide, Nat.le_refl _,
    _, round' _ (by decide), whole'⟩

end PackedTable.Probe
