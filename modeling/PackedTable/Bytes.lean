/-!
Runs of bytes inside a longer run. The main facts say what a byte reads as after a run has been
written: the new byte inside the run, the old one outside.
-/

namespace PackedTable.Bytes

variable {n count : Nat}

def read (bytes : Vector UInt8 n) (offset count : Nat) (within : offset + count ≤ n) :
    Vector UInt8 count :=
  Vector.ofFn fun i => bytes[offset + i.val]

def write (bytes : Vector UInt8 n) (offset : Nat) (run : Vector UInt8 count)
    (within : offset + count ≤ n) : Vector UInt8 n :=
  Nat.fold count (fun i inside bytes => bytes.set (offset + i) run[i]) bytes

def clear (bytes : Vector UInt8 n) (count : Nat) (within : count ≤ n) : Vector UInt8 n :=
  Nat.fold count (fun i inside bytes => bytes.set i 0) bytes

theorem getElem_read (bytes : Vector UInt8 n) (offset : Nat) (within : offset + count ≤ n)
    (i : Nat) (inside : i < count) :
    (read bytes offset count within)[i] = bytes[offset + i] := by
  simp [read]

theorem getElem_write (bytes : Vector UInt8 n) (offset : Nat) (run : Vector UInt8 count)
    (within : offset + count ≤ n) (i : Nat) (inside : i < n) :
    (write bytes offset run within)[i] =
      if h : offset ≤ i ∧ i < offset + count then run[i - offset] else bytes[i] := by
  induction count with
  | zero =>
    have outside : ¬(offset ≤ i ∧ i < offset + 0) := by omega
    rw [dif_neg outside]
    rfl
  | succ count ih =>
    have before := ih run.pop (by omega)
    have unfolded : write bytes offset run within =
        (write bytes offset run.pop (by omega)).set (offset + count) run[count] := by
      simp [write, Nat.fold_succ]
    simp only [unfolded, Vector.getElem_set, before]
    by_cases last : offset + count = i
    · subst last
      simp
    · have split : (offset ≤ i ∧ i < offset + (count + 1)) ↔ (offset ≤ i ∧ i < offset + count) := by
        omega
      simp [last, split]

theorem getElem_clear (bytes : Vector UInt8 n) (within : count ≤ n) (i : Nat) (inside : i < n) :
    (clear bytes count within)[i] = if i < count then 0 else bytes[i] := by
  induction count with
  | zero => simp [clear]
  | succ count ih =>
    have unfolded : clear bytes (count + 1) within =
        (clear bytes count (by omega)).set count 0 := by
      simp [clear, Nat.fold_succ]
    simp only [unfolded, Vector.getElem_set, ih (by omega)]
    by_cases last : count = i
    · simp [last]
    · have split : i < count + 1 ↔ i < count := by omega
      simp [last, split]

theorem read_write (bytes : Vector UInt8 n) (offset : Nat) (run : Vector UInt8 count)
    (within : offset + count ≤ n) :
    read (write bytes offset run within) offset count within = run := by
  ext i inside
  simp [getElem_read, getElem_write, inside]

theorem read_write_apart {other : Nat} (bytes : Vector UInt8 n) (offset start : Nat)
    (run : Vector UInt8 count) (within : offset + count ≤ n) (inside : start + other ≤ n)
    (apart : start + other ≤ offset ∨ offset + count ≤ start) :
    read (write bytes offset run within) start other inside = read bytes start other inside := by
  ext i small
  have outside : ¬(offset ≤ start + i ∧ start + i < offset + count) := by omega
  simp [getElem_read, getElem_write, outside]

end PackedTable.Bytes
