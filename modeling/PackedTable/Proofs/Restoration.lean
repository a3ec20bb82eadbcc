import PackedTable.Header.Attach
import PackedTable.Proofs.Copy
import PackedTable.Proofs.HeaderCodec

/-!
Saving a table and opening it again. The header of a table in use passes every check of the
decoder and of the attachment, as long as the buffer begins with the bytes that were described; what
is opened is a copy of the table. Under another shape or group width the header is refused before
the buffer is looked at.
-/

namespace PackedTable

/-- Sizes and alignments that a header can record. -/
structure Shape.Narrow (shape : Shape) : Prop where
  keySize : shape.key.size < 2 ^ 32
  keyAlign : shape.key.align < 2 ^ 32
  valueSize : shape.value.size < 2 ^ 32
  valueAlign : shape.value.align < 2 ^ 32

theorem Layout.of?_self (layout : Layout) : of? layout.size layout.align = some layout :=
  dif_pos ⟨layout.power, layout.addressable⟩

theorem EntryLayout.pair?_shape (shape : Shape) : pair? shape.key shape.value = some shape.entry :=
  if_pos shape.addressable

namespace Header

theorem ofNat_inj {n m : Nat} (small : n < 2 ^ 32) (small' : m < 2 ^ 32)
    (same : UInt32.ofNat n = UInt32.ofNat m) : n = m := by
  have numbers := congrArg UInt32.toNat same
  rwa [UInt32.toNat_ofNat_of_lt' small, UInt32.toNat_ofNat_of_lt' small'] at numbers

section

variable {header : Header} {shape : Shape} {width : Width}

theorem checkShape_cases (header : Header) (shape : Shape) (width : Width) :
    header.checkShape shape width = .ok () ∨
      ∃ part, header.checkShape shape width = .error (.headerMismatch part) := by
  unfold checkShape
  split
  · exact Or.inr ⟨_, rfl⟩
  · split
    · exact Or.inr ⟨_, rfl⟩
    · split
      · exact Or.inr ⟨_, rfl⟩
      · exact Or.inl rfl

theorem checkShape_eq_ok :
    header.checkShape shape width = .ok () ↔
      header.slotsPerGroup.toNat = width.slots ∧
      (header.keySize, header.keyAlign) =
        (UInt32.ofNat shape.key.size, UInt32.ofNat shape.key.align) ∧
      (header.valueSize, header.valueAlign) =
        (UInt32.ofNat shape.value.size, UInt32.ofNat shape.value.align) := by
  constructor
  case mp =>
    intro passed
    unfold checkShape at passed
    split at passed
    case isTrue => cases passed
    case isFalse slots =>
      split at passed
      case isTrue => cases passed
      case isFalse key =>
        split at passed
        case isTrue => cases passed
        case isFalse value => exact ⟨not_not.1 slots, not_not.1 key, not_not.1 value⟩
  case mpr =>
    rintro ⟨slots, key, value⟩
    rw [checkShape, if_neg (not_not.2 slots), if_neg (not_not.2 key), if_neg (not_not.2 value)]

theorem layout_ofNat {recorded : Layout} (size : recorded.size < 2 ^ 32)
    (align : recorded.align < 2 ^ 32) (part : HeaderPart) :
    layout part (UInt32.ofNat recorded.size) (UInt32.ofNat recorded.align) = .ok recorded := by
  simp only [layout, UInt32.toNat_ofNat_of_lt' size, UInt32.toNat_ofNat_of_lt' align,
    Layout.of?_self]

/-- The length that is described is the one of a table of the recorded shape. -/
theorem bufferLength_of_checkShape (passed : header.checkShape shape width = .ok ())
    (narrow : shape.Narrow) :
    header.bufferLength =
      match Extent.bufferSize? width.slots header.geometry.mask shape.entry with
      | some length => .ok length
      | none => .error (.invalidHeader .bufferLength) := by
  obtain ⟨slots, key, value⟩ := checkShape_eq_ok.1 passed
  obtain ⟨keySize, keyAlign⟩ := Prod.ext_iff.1 key
  obtain ⟨valueSize, valueAlign⟩ := Prod.ext_iff.1 value
  dsimp only at keySize keyAlign valueSize valueAlign
  rw [bufferLength, keySize, keyAlign, valueSize, valueAlign, slots,
    layout_ofNat narrow.keySize narrow.keyAlign, layout_ofNat narrow.valueSize narrow.valueAlign]
  simp only [bind, Except.bind, EntryLayout.pair?_shape]
  cases Extent.bufferSize? width.slots header.geometry.mask shape.entry <;> rfl

theorem attach_of_mismatch (digest : Checksum.Rule) {part : ShapePart} {region : Region}
    {hash : shape.Key → UInt64}
    (refused : header.checkShape shape width = .error (.headerMismatch part)) :
    header.attach digest width region hash = .error (.error (.headerMismatch part)) := by
  have admits : header.admits digest shape width region = .error (.headerMismatch part) := by
    rw [Header.admits, refused]
    rfl
  rw [attach, admits]

end

end Header

namespace Table

variable {shape : Shape} {length : Nat} {binding : Binding shape length} (digest : Checksum.Rule)

/-! ### The header of a table -/

theorem slotsPerGroup_header (table : Table binding) :
    (table.header digest).slotsPerGroup.toNat = binding.slots := by
  have bound : binding.slots ≤ 15 := binding.width.le_fifteen
  exact UInt8.toNat_ofNat_of_lt' (show binding.slots < 256 by omega)

theorem decodable_header (table : Table binding) (narrow : shape.Narrow) :
    (table.header digest).Decodable where
  slots := by
    rw [UInt8.le_iff_toNat_le, UInt8.le_iff_toNat_le, slotsPerGroup_header]
    exact ⟨binding.width.two_le, binding.width.le_fifteen⟩
  keyed := by
    intro zero
    have size : shape.key.size = 0 := Header.ofNat_inj narrow.keySize (by decide) zero
    exact absurd binding.keyed (by omega)

theorem checkShape_header (table : Table binding) :
    (table.header digest).checkShape shape binding.width = .ok () :=
  Header.checkShape_eq_ok.2 ⟨table.slotsPerGroup_header digest, rfl, rfl⟩

theorem bufferLength_header (table : Table binding) (narrow : shape.Narrow) :
    (table.header digest).bufferLength = .ok binding.size := by
  have length : Extent.bufferSize? binding.width.slots (table.header digest).geometry.mask
      shape.entry =
      some binding.size := binding.bufferSize?_eq
  rw [Header.bufferLength_of_checkShape (table.checkShape_header digest) narrow, length]

theorem verify_header (table : Table binding) (narrow : shape.Narrow) {bytes : Array UInt8}
    (copied : bytes.extract 0 binding.size = table.buffer.used) :
    (table.header digest).verify digest bytes = .ok () := by
  have enough : binding.size ≤ bytes.size := by
    have size := congrArg Array.size copied
    rw [Array.size_extract, Buffer.size_used] at size
    omega
  have unchanged : digest (bytes.extract 0 binding.size) = (table.header digest).checksum :=
    congrArg digest copied
  simp only [Header.verify, bufferLength_header digest table narrow, bind, Except.bind,
    if_pos enough, if_pos unchanged]

theorem size_header {table : Table binding} (sound : table.Sound) :
    (table.header digest).size.toNat = table.size :=
  UInt64.toNat_ofNat_of_lt' sound.size_lt_limit

theorem maxLoad_header {table : Table binding} (sound : table.Sound) :
    (table.header digest).maxLoad.toNat = table.maxLoad :=
  UInt64.toNat_ofNat_of_lt' (Nat.lt_of_le_of_lt sound.threshold binding.capacity_lt_limit)

/-- A header is refused by every width and every narrow shape but its own. -/
theorem attach_header_mismatch (table : Table binding) (narrow : shape.Narrow) {shape' : Shape}
    {width' : Width}
    (differs : width'.slots ≠ binding.slots ∨ shape'.Narrow ∧
      ((shape'.key.size, shape'.key.align) ≠ (shape.key.size, shape.key.align) ∨
        (shape'.value.size, shape'.value.align) ≠ (shape.value.size, shape.value.align)))
    (region : Region) (hash : shape'.Key → UInt64) :
    ∃ part, (table.header digest).attach digest width' region hash =
      .error (.error (.headerMismatch part)) := by
  rcases (table.header digest).checkShape_cases shape' width' with passed | ⟨part, refused⟩
  case inr => exact ⟨part, Header.attach_of_mismatch digest refused⟩
  case inl =>
    obtain ⟨slots, key, value⟩ := Header.checkShape_eq_ok.1 passed
    rw [slotsPerGroup_header] at slots
    obtain ⟨keySize, keyAlign⟩ := Prod.ext_iff.1 key
    obtain ⟨valueSize, valueAlign⟩ := Prod.ext_iff.1 value
    rcases differs with otherSlots | ⟨narrow', otherKey | otherValue⟩
    · exact absurd slots.symm otherSlots
    · have size := Header.ofNat_inj narrow'.keySize narrow.keySize keySize.symm
      have align := Header.ofNat_inj narrow'.keyAlign narrow.keyAlign keyAlign.symm
      exact absurd (Prod.ext size align) otherKey
    · have size := Header.ofNat_inj narrow'.valueSize narrow.valueSize valueSize.symm
      have align := Header.ofNat_inj narrow'.valueAlign narrow.valueAlign valueAlign.symm
      exact absurd (Prod.ext size align) otherValue

end Table

namespace Mounted

variable {shape : Shape} {mounted : Mounted shape} {region : Region}

theorem copy_copyAt
    (copied : region.bytes.extract 0 mounted.binding.size = mounted.table.buffer.used)
    (site : mounted.binding.Site region.bytes.size) :
    mounted.Copy (mounted.copyAt region site mounted.table.maxLoad) :=
  ⟨rfl, rfl, copied, rfl, rfl, rfl⟩

theorem attach_header (digest : Checksum.Rule) (sound : mounted.table.Sound) (narrow : shape.Narrow)
    (copied : region.bytes.extract 0 mounted.binding.size = mounted.table.buffer.used)
    (aligned : region.address % shape.entry.align = 0) :
    (mounted.table.header digest).attach digest mounted.binding.width region mounted.table.hash =
      .ok (mounted.copyAt region (mounted.siteOf region copied aligned) mounted.table.maxLoad) := by
  have admits : (mounted.table.header digest).admits digest shape mounted.binding.width region =
      .ok () := by
    rw [Header.admits, mounted.table.checkShape_header]
    exact mounted.table.verify_header digest narrow copied
  have attached := attach_copy copied aligned mounted.table.maxLoad
  rw [if_pos ⟨sound.bounded, sound.threshold⟩] at attached
  rw [Header.attach, admits]
  simp only [Header.mount, Table.size_header digest sound, Table.maxLoad_header digest sound]
  exact attached

/-- A table in use is saved and opened again. Its header goes through every sink and every source;
the decoded header opens, over any aligned buffer that begins with the used bytes, a table that
every further session takes for the old one; and it opens nothing under another width or another
layout of keys or values. -/
theorem Reachable.restoration (digest : Checksum.Rule) (reachable : mounted.Reachable)
    (narrow : shape.Narrow)
    (copied : region.bytes.extract 0 mounted.binding.size = mounted.table.buffer.used)
    (aligned : region.address % shape.entry.align = 0) :
    let header := mounted.table.header digest
    (∀ sink : Transfer.Sink, sink.Open → ∃ after, header.encodeInto digest sink = (.ok (), after) ∧
      after.taken = sink.taken ++ header.encode digest) ∧
    (∀ (source : Transfer.Source) (rest : List UInt8), source.Steady →
      source.left = header.encode digest ++ rest →
      ∃ after, Header.decode digest source = (.ok header, after) ∧ after.left = rest) ∧
    (∃ restored,
      header.attach digest mounted.binding.width region mounted.table.hash = .ok restored ∧
      mounted.Copy restored ∧
      ∀ {σ : Type} (actions : List (Action shape σ)) (state : σ),
        (restored.run actions state).2 = (mounted.run actions state).2 ∧
        (mounted.run actions state).1.Copy (restored.run actions state).1) ∧
    ∀ (shape' : Shape) (width' : Width) (region' : Region) (hash' : shape'.Key → UInt64),
      width'.slots ≠ mounted.binding.slots ∨ shape'.Narrow ∧
        ((shape'.key.size, shape'.key.align) ≠ (shape.key.size, shape.key.align) ∨
          (shape'.value.size, shape'.value.align) ≠ (shape.value.size, shape.value.align)) →
      ∃ part,
        header.attach digest width' region' hash' = .error (.error (.headerMismatch part)) := by
  have sound := reachable.sound
  have copy := copy_copyAt copied (mounted.siteOf region copied aligned)
  refine ⟨?_, ?_, ⟨_, attach_header digest sound narrow copied aligned, copy, ?_⟩, ?_⟩
  · intro sink opened
    obtain ⟨turn, encoded⟩ := (mounted.table.header digest).encodeInto_eq_ok digest opened
    exact ⟨_, encoded, rfl⟩
  · intro source rest steady there
    have decodable := mounted.table.decodable_header digest narrow
    obtain ⟨after, decoded, -, left⟩ := Header.decode_eq_ok digest decodable steady there
    exact ⟨after, decoded, left⟩
  · intro σ actions state
    obtain ⟨last, replies⟩ := copy.run sound actions state
    exact ⟨replies, last⟩
  · intro shape' width' region' hash' differs
    exact mounted.table.attach_header_mismatch digest narrow differs region' hash'

/-- The full small table, restored at another address with two bytes behind it from a header that
is read byte by byte, still has its third element. No table of the standard width is restored. -/
theorem filled_restored :
    let region : Region := ⟨128, #[9, 3, 0, 2, 1, 8, 1, 10, 3, 30, 2, 20, 0xAA, 0xAA]⟩
    let header := filled.table.header Checksum.of
    (filled.Reachable ∧ Shape.bytes.Narrow ∧
      region.bytes.extract 0 filled.binding.size = filled.table.buffer.used ∧
      region.address % Shape.bytes.entry.align = 0) ∧
    (∃ after,
      Header.decode Checksum.of (.ofBytes (header.encode Checksum.of) 1) = (.ok header, after)) ∧
    (∃ restored,
      header.attach Checksum.of filled.binding.width region filled.table.hash = .ok restored ∧
      (restored.run [.ask (.get (Shape.byteKey 3))] ()).2.2 =
        [.value (some (Shape.byteValue 30))]) ∧
    ∃ part, header.attach Checksum.of .standard region filled.table.hash =
      .error (.error (.headerMismatch part)) := by
  intro region header
  have narrow : Shape.bytes.Narrow := ⟨by decide, by decide, by decide, by decide⟩
  have copied : region.bytes.extract 0 filled.binding.size = filled.table.buffer.used := by
    decide +kernel
  have aligned : region.address % Shape.bytes.entry.align = 0 := by decide
  obtain ⟨-, decoding, ⟨restored, attached, -, sessions⟩, mismatch⟩ :=
    reachable_filled.restoration Checksum.of narrow copied aligned
  obtain ⟨after, decoded, -⟩ := decoding (.ofBytes (header.encode Checksum.of) 1) []
    (fun _ => Nat.one_pos) (List.append_nil _).symm
  have replies := (sessions [.ask (.get (Shape.byteKey 3))] ()).1
  have found : (filled.run [.ask (.get (Shape.byteKey 3))] ()).2.2 =
      [.value (some (Shape.byteValue 30))] := by decide +kernel
  refine ⟨⟨reachable_filled, narrow, copied, aligned⟩, ⟨after, decoded⟩, ⟨restored, attached, ?_⟩,
    ?_⟩
  · rw [replies]
    exact found
  · have wider : Width.standard.slots ≠ filled.binding.slots := by decide +kernel
    exact mismatch Shape.bytes .standard region filled.table.hash (Or.inl wider)

end Mounted

end PackedTable
