import PackedTable.Word

/-!
Where values lie in memory: the size and alignment of one value, and the slot that holds a key
followed by a value. The main facts are that the key ends before the value starts and that the
value ends inside the slot.
-/

namespace PackedTable

/-- Size and alignment of a value. The alignment is a power of two, and the size stays
addressable when it is rounded up to the alignment. -/
structure Layout where
  size : Nat
  align : Nat
  power : align.isPowerOfTwo
  addressable : Word.roundUp size align < 2 ^ 63

namespace Layout

def of? (size align : Nat) : Option Layout :=
  if valid : align.isPowerOfTwo ∧ Word.roundUp size align < 2 ^ 63 then
    some ⟨size, align, valid.1, valid.2⟩
  else none

theorem align_pos (layout : Layout) : 0 < layout.align :=
  Nat.pos_of_isPowerOfTwo layout.power

end Layout

/-- Size, alignment and value offset of one slot. The key is at offset zero. -/
structure EntryLayout where
  size : Nat
  align : Nat
  valueOffset : Nat
deriving DecidableEq

namespace EntryLayout

/-- The value is placed at the first aligned offset after the key, and the slot is padded to its
own alignment so that slots can follow each other. -/
def pair (key value : Layout) : EntryLayout :=
  let align := max key.align value.align
  let valueOffset := Word.roundUp key.size value.align
  ⟨Word.roundUp (valueOffset + value.size) align, align, valueOffset⟩

/-- Refuses a pair that is not addressable. -/
def pair? (key value : Layout) : Option EntryLayout :=
  let entry := pair key value
  if entry.size < 2 ^ 63 then some entry else none

def text (entry : EntryLayout) : String :=
  s!"EntryLayout \x7b size: {entry.size}, align: {entry.align}, " ++
    s!"value_offset: {entry.valueOffset} \x7d"

end EntryLayout

/-- The key and value layouts of a table whose slots are addressable. -/
structure Shape where
  key : Layout
  value : Layout
  addressable : (EntryLayout.pair key value).size < 2 ^ 63

namespace Shape

def of? (key value : Layout) : Option Shape :=
  if small : (EntryLayout.pair key value).size < 2 ^ 63 then some ⟨key, value, small⟩ else none

def entry (shape : Shape) : EntryLayout := EntryLayout.pair shape.key shape.value

/-- A key as the bytes that lie in memory. Two keys are equal if their bytes are: a key type with
an equality of its own is covered as far as that equality compares the bytes. -/
abbrev Key (shape : Shape) : Type := Vector UInt8 shape.key.size

/-- A value as the bytes that lie in memory. -/
abbrev Value (shape : Shape) : Type := Vector UInt8 shape.value.size

theorem entry_align_pos (shape : Shape) : 0 < shape.entry.align :=
  Nat.lt_of_lt_of_le shape.key.align_pos (Nat.le_max_left _ _)

theorem key_end_le (shape : Shape) : shape.key.size ≤ shape.entry.valueOffset :=
  Word.le_roundUp shape.key.size shape.value.align_pos

theorem value_end_le (shape : Shape) :
    shape.entry.valueOffset + shape.value.size ≤ shape.entry.size :=
  Word.le_roundUp _ shape.entry_align_pos

end Shape

end PackedTable
