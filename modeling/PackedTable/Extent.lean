import PackedTable.Layout

/-!
The extent of a table buffer: group metadata first, then padding up to the slot alignment, then
one slot of storage for every position but the last, which holds the sentinel.

Each quantity is given twice, as the exact number and as a run of checked word operations. The
main fact is `bufferSize?_eq_some`: a checked size that exists is the exact one.
-/

namespace PackedTable.Extent

def capacity (slots mask : Nat) : Nat := (mask + 1) * slots - 1

def groupsLength (slots mask : Nat) : Nat := (mask + 1) * (slots + 1)

def entriesOffset (slots mask : Nat) (entry : EntryLayout) : Nat :=
  Word.roundUp (groupsLength slots mask) entry.align

def bufferSize (slots mask : Nat) (entry : EntryLayout) : Nat :=
  entriesOffset slots mask entry + capacity slots mask * entry.size

def capacity? (slots mask : Nat) : Option Nat := do
  let groups ← Word.add? mask 1
  let all ← Word.mul? groups slots
  Word.sub? all 1

def groupsLength? (slots mask : Nat) : Option Nat := do
  let groups ← Word.add? mask 1
  let width ← Word.add? slots 1
  Word.mul? groups width

def entriesOffset? (slots mask : Nat) (entry : EntryLayout) : Option Nat := do
  let groups ← groupsLength? slots mask
  Word.roundUp? groups entry.align

def bufferSize? (slots mask : Nat) (entry : EntryLayout) : Option Nat := do
  let count ← capacity? slots mask
  let entries ← Word.mul? count entry.size
  let offset ← entriesOffset? slots mask entry
  Word.add? offset entries

theorem capacity?_eq_some {slots mask count : Nat} (found : capacity? slots mask = some count) :
    count = capacity slots mask := by
  simp only [capacity?, Word.add?, Word.mul?, Word.sub?, Option.bind_eq_bind,
    Option.bind_eq_some_iff, Word.fit?_eq_some] at found
  obtain ⟨groups, ⟨_, rfl⟩, all, ⟨_, rfl⟩, last⟩ := found
  split at last
  · exact (Option.some.inj last).symm
  · contradiction

theorem groupsLength?_eq_some {slots mask length : Nat}
    (found : groupsLength? slots mask = some length) : length = groupsLength slots mask := by
  simp only [groupsLength?, Word.add?, Word.mul?, Option.bind_eq_bind,
    Option.bind_eq_some_iff, Word.fit?_eq_some] at found
  obtain ⟨groups, ⟨_, rfl⟩, width, ⟨_, rfl⟩, _, last⟩ := found
  exact last

theorem entriesOffset?_eq_some {slots mask offset : Nat} {entry : EntryLayout}
    (found : entriesOffset? slots mask entry = some offset) :
    offset = entriesOffset slots mask entry := by
  simp only [entriesOffset?, Option.bind_eq_bind, Option.bind_eq_some_iff] at found
  obtain ⟨length, region, rounded⟩ := found
  rw [(Word.roundUp?_eq_some rounded).2.2, groupsLength?_eq_some region]
  rfl

theorem bufferSize?_eq_some {slots mask size : Nat} {entry : EntryLayout}
    (found : bufferSize? slots mask entry = some size) :
    size < Word.limit ∧ size = bufferSize slots mask entry := by
  simp only [bufferSize?, Word.add?, Word.mul?, Option.bind_eq_bind,
    Option.bind_eq_some_iff, Word.fit?_eq_some] at found
  obtain ⟨count, counted, entries, ⟨_, rfl⟩, offset, placed, small, last⟩ := found
  have exactCount := capacity?_eq_some counted
  have exactOffset := entriesOffset?_eq_some placed
  subst exactCount exactOffset
  exact ⟨last ▸ small, last⟩

end PackedTable.Extent
