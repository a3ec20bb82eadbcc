import PackedTable.Proofs.Restoration

/-!
The length that a header describes, whatever its fields are. A header may come from anywhere, so
every number in it is recorded, not known; the length is computed from them step by step, with a
check at each step. It comes out right whenever it fits into a word, and a header is refused for
nothing else than an alignment that is none, no slots, or a length that does not fit. Under a shape
that can be recorded and passes the check against the header it is the length that the table of this
shape has: so what is verified are the bytes of the table, all of them and no others.
-/

namespace PackedTable

theorem Word.roundUp_lt (n : Nat) {unit : Nat} (positive : 0 < unit) :
    Word.roundUp n unit < n + unit := by
  have multiple := Nat.div_mul_le_self (n + unit - 1) unit
  unfold Word.roundUp
  omega

namespace Extent

variable {slots mask size : Nat} {entry : EntryLayout}

theorem bufferSize?_zero (mask : Nat) (entry : EntryLayout) : bufferSize? 0 mask entry = none := by
  have count : capacity? 0 mask = none := by
    unfold capacity?
    cases Word.add? mask 1 <;> rfl
  rw [bufferSize?, count]
  rfl

theorem bufferSize?_eq_some_iff (aligned : 0 < entry.align) :
    bufferSize? slots mask entry = some size ↔ 1 ≤ slots ∧
      bufferSize slots mask entry < Word.limit ∧ size = bufferSize slots mask entry := by
  constructor
  · intro found
    obtain ⟨small, same⟩ := bufferSize?_eq_some found
    refine ⟨Nat.pos_of_ne_zero ?_, same ▸ small, same⟩
    rintro rfl
    rw [bufferSize?_zero] at found
    cases found
  · rintro ⟨positive, small, rfl⟩
    exact bufferSize?_of_lt positive aligned small

end Extent

namespace Header

variable {header : Header} {align : UInt32}

/-! ### Recorded layouts -/

theorem layout_of_power (part : HeaderPart) (size : UInt32) (power : align.toNat.isPowerOfTwo) :
    ∃ found : Layout, layout part size align = .ok found ∧ found.size = size.toNat ∧
      found.align = align.toNat := by
  have rounded := Word.roundUp_lt size.toNat (Nat.pos_of_isPowerOfTwo power)
  have sizeBound := size.toNat_lt
  have alignBound := align.toNat_lt
  have small : Word.roundUp size.toNat align.toNat < 2 ^ 63 := by omega
  refine ⟨⟨size.toNat, align.toNat, power, small⟩, ?_, rfl, rfl⟩
  rw [layout, Layout.of?, dif_pos ⟨power, small⟩]

theorem layout_of_not_power (part : HeaderPart) (size : UInt32)
    (wrong : ¬align.toNat.isPowerOfTwo) :
    layout part size align = .error (.invalidHeader part) := by
  rw [layout, Layout.of?, dif_neg fun valid => wrong valid.1]

def entryAlign (header : Header) : Nat := max header.keyAlign.toNat header.valueAlign.toNat

/-- The size of a pair as recorded: the value behind the key, at the next place that is aligned for
it, and padding behind the value. -/
def entrySize (header : Header) : Nat :=
  Word.roundUp (Word.roundUp header.keySize.toNat header.valueAlign.toNat + header.valueSize.toNat)
    header.entryAlign

/-- The length of the described buffer, as a number: all metadata, padding, and a slot of storage
for every place but the last one. -/
def exactLength (header : Header) : Nat :=
  let groups := header.geometry.mask + 1
  let slots := header.slotsPerGroup.toNat
  Word.roundUp (groups * (slots + 1)) header.entryAlign + (groups * slots - 1) * header.entrySize

theorem pair?_recorded {key value : Layout}
    (sameKey : key.size = header.keySize.toNat ∧ key.align = header.keyAlign.toNat)
    (sameValue : value.size = header.valueSize.toNat ∧ value.align = header.valueAlign.toNat) :
    ∃ entry, EntryLayout.pair? key value = some entry ∧ entry.align = header.entryAlign ∧
      entry.size = header.entrySize ∧ 0 < entry.align := by
  have keySize := header.keySize.toNat_lt
  have keyAlign := header.keyAlign.toNat_lt
  have valueSize := header.valueSize.toNat_lt
  have valueAlign := header.valueAlign.toNat_lt
  have positive : 0 < max key.align value.align :=
    Nat.lt_of_lt_of_le key.align_pos (Nat.le_max_left _ _)
  have offset := Word.roundUp_lt key.size value.align_pos
  have padded := Word.roundUp_lt (Word.roundUp key.size value.align + value.size) positive
  have small : (EntryLayout.pair key value).size < 2 ^ 63 := by
    change Word.roundUp _ _ < 2 ^ 63
    omega
  refine ⟨_, if_pos small, ?_, ?_, positive⟩
  · rw [EntryLayout.pair, entryAlign, sameKey.2, sameValue.2]
  · rw [EntryLayout.pair, entrySize, entryAlign, sameKey.1, sameKey.2, sameValue.1, sameValue.2]

theorem bufferSize_recorded {entry : EntryLayout} (align : entry.align = header.entryAlign)
    (size : entry.size = header.entrySize) :
    Extent.bufferSize header.slotsPerGroup.toNat header.geometry.mask entry =
      header.exactLength := by
  rw [Extent.bufferSize, Extent.entriesOffset, align, size]
  rfl

/-- What a header describes, or the first part of it that is wrong. -/
theorem bufferLength_eq (header : Header) :
    header.bufferLength =
      if ¬header.keyAlign.toNat.isPowerOfTwo then .error (.invalidHeader .keyLayout)
      else if ¬header.valueAlign.toNat.isPowerOfTwo then .error (.invalidHeader .valueLayout)
      else if 1 ≤ header.slotsPerGroup.toNat ∧ header.exactLength < Word.limit then
        .ok header.exactLength
      else .error (.invalidHeader .bufferLength) := by
  by_cases keyPower : header.keyAlign.toNat.isPowerOfTwo
  case neg =>
    rw [if_pos keyPower, bufferLength, layout_of_not_power .keyLayout _ keyPower]
    rfl
  case pos =>
    obtain ⟨key, keyFound, sameKey⟩ := layout_of_power .keyLayout header.keySize keyPower
    rw [if_neg (not_not.2 keyPower), bufferLength, keyFound]
    by_cases valuePower : header.valueAlign.toNat.isPowerOfTwo
    case neg =>
      rw [if_pos valuePower, layout_of_not_power .valueLayout _ valuePower]
      rfl
    case pos =>
      obtain ⟨value, valueFound, sameValue⟩ :=
        layout_of_power .valueLayout header.valueSize valuePower
      obtain ⟨entry, paired, align, size, positive⟩ := pair?_recorded sameKey sameValue
      have checked (length : Nat) : Extent.bufferSize? header.slotsPerGroup.toNat
          header.geometry.mask entry = some length ↔ _ := Extent.bufferSize?_eq_some_iff positive
      rw [bufferSize_recorded align size] at checked
      rw [if_neg (not_not.2 valuePower), valueFound]
      simp only [bind, Except.bind, paired]
      by_cases fits : 1 ≤ header.slotsPerGroup.toNat ∧ header.exactLength < Word.limit
      · rw [if_pos fits, (checked header.exactLength).2 ⟨fits.1, fits.2, rfl⟩]
      · have refused : Extent.bufferSize? header.slotsPerGroup.toNat header.geometry.mask entry =
            none := by
          refine Option.eq_none_iff_forall_ne_some.2 fun length found => fits ?_
          exact ⟨((checked length).1 found).1, ((checked length).1 found).2.1⟩
        rw [if_neg fits, refused]

/-! ### The table of a shape -/

variable {shape : Shape} {width : Width} {region : Region}

/-- What a header of a shape says about a region: how long the table of this shape is, and whether
the bytes of the table are the ones that were described. -/
structure Describes (digest : Checksum.Rule) (header : Header) (shape : Shape) (width : Width)
    (region : Region) : Prop where
  length : ∀ length, header.bufferLength = .ok length ↔
    Extent.bufferSize? width.slots header.geometry.mask shape.entry = some length
  /-- Where the table is bound, the checksum of its bytes decides. -/
  verified : ∀ binding : Binding shape region.bytes.size,
    Binding.bind shape width header.geometry region.address region.bytes.size = .ok binding →
    let buffer : Buffer binding := ⟨region.bytes.toVector⟩
    header.bufferLength = .ok binding.size ∧
      header.verify digest region.bytes =
        if buffer.checksum digest = header.checksum then .ok ()
        else .error (.checksumMismatch (buffer.checksum digest) header.checksum)
  /-- A table that is attached has the bytes that were verified. -/
  attached : ∀ (hash : shape.Key → UInt64) (mounted : Mounted shape),
    header.attach digest width region hash = .ok mounted →
    header.bufferLength = .ok mounted.binding.size ∧
      mounted.table.buffer.used = region.bytes.extract 0 mounted.binding.size ∧
      mounted.table.buffer.checksum digest = header.checksum

section

variable (passed : header.checkShape shape width = .ok ()) (narrow : shape.Narrow)
include passed narrow

theorem bufferLength_eq_ok_iff (length : Nat) :
    header.bufferLength = .ok length ↔
      Extent.bufferSize? width.slots header.geometry.mask shape.entry = some length := by
  rw [bufferLength_of_checkShape passed narrow]
  cases Extent.bufferSize? width.slots header.geometry.mask shape.entry with
  | none => exact iff_of_false nofun nofun
  | some found => exact ⟨fun same => congrArg some (Except.ok.inj same),
      fun same => congrArg Except.ok (Option.some.inj same)⟩

theorem bufferLength_of_binding (binding : Binding shape region.bytes.size)
    (sameWidth : binding.width = width) (sameGeometry : binding.geometry = header.geometry) :
    header.bufferLength = .ok binding.size := by
  rw [bufferLength_eq_ok_iff passed narrow, ← sameWidth, ← sameGeometry]
  exact binding.bufferSize?_eq

theorem verify_of_binding (digest : Checksum.Rule) (binding : Binding shape region.bytes.size)
    (sameWidth : binding.width = width) (sameGeometry : binding.geometry = header.geometry) :
    let buffer : Buffer binding := ⟨region.bytes.toVector⟩
    header.verify digest region.bytes =
      if buffer.checksum digest = header.checksum then .ok ()
      else .error (.checksumMismatch (buffer.checksum digest) header.checksum) := by
  rw [verify, bufferLength_of_binding passed narrow binding sameWidth sameGeometry]
  exact if_pos binding.size_le

theorem describes (digest : Checksum.Rule) (region : Region) :
    header.Describes digest shape width region where
  length := bufferLength_eq_ok_iff passed narrow
  verified binding bound := by
    obtain ⟨sameWidth, sameGeometry, -⟩ := Binding.bind_eq_ok bound
    exact ⟨bufferLength_of_binding passed narrow binding sameWidth sameGeometry,
      verify_of_binding passed narrow digest binding sameWidth sameGeometry⟩
  attached hash mounted attached := by
    rw [attach, admits, passed] at attached
    simp only [bind, Except.bind] at attached
    cases verified : header.verify digest region.bytes with
    | error refused =>
      rw [verified] at attached
      cases attached
    | ok _ =>
      rw [verified] at attached
      obtain ⟨binding, sameWidth, sameGeometry, -, -, rfl⟩ := Mounted.attach_eq_ok attached
      refine ⟨bufferLength_of_binding passed narrow binding sameWidth sameGeometry, rfl, ?_⟩
      rw [verify_of_binding passed narrow digest binding sameWidth sameGeometry] at verified
      by_contra differs
      rw [if_neg differs] at verified
      cases verified

end

/-- The length that any header describes is the exact number if the recorded alignments are powers
of two, there are slots, and the number fits into a word; otherwise the header is refused for the
first of these that fails. A header that passes the check of a shape whose sizes and alignments can
be recorded describes the table of this shape: it has the length that the table has, and it is
checked against all the bytes of the table and no others. -/
theorem length_agreement (digest : Checksum.Rule) (header : Header) :
    (header.bufferLength =
      if ¬header.keyAlign.toNat.isPowerOfTwo then .error (.invalidHeader .keyLayout)
      else if ¬header.valueAlign.toNat.isPowerOfTwo then .error (.invalidHeader .valueLayout)
      else if 1 ≤ header.slotsPerGroup.toNat ∧ header.exactLength < Word.limit then
        .ok header.exactLength
      else .error (.invalidHeader .bufferLength)) ∧
    ∀ (shape : Shape) (width : Width), header.checkShape shape width = .ok () → shape.Narrow →
      ∀ region : Region, header.Describes digest shape width region :=
  ⟨header.bufferLength_eq, fun _ _ passed narrow region => describes passed narrow digest region⟩

/-- The header of the filled table describes twelve bytes. With an alignment that is none it
describes nothing. -/
theorem filled_length_agreement :
    let header := Mounted.filled.table.header Checksum.of
    header.checkShape Shape.bytes .narrow = .ok () ∧ Shape.bytes.Narrow ∧
      header.bufferLength = .ok 12 ∧
      { header with keyAlign := 3 }.bufferLength = .error (.invalidHeader .keyLayout) ∧
      ∀ region, header.Describes Checksum.of Shape.bytes .narrow region := by
  intro header
  have passed : header.checkShape Shape.bytes .narrow = .ok () :=
    Mounted.filled.table.checkShape_header Checksum.of
  have narrow : Shape.bytes.Narrow := ⟨by decide, by decide, by decide, by decide⟩
  have describes := (length_agreement Checksum.of header).2 Shape.bytes .narrow passed narrow
  have length : header.bufferLength = .ok 12 :=
    ((describes .small).length 12).2 (by decide +kernel)
  have refused := (length_agreement Checksum.of { header with keyAlign := 3 }).1
  rw [if_pos (by decide)] at refused
  exact ⟨passed, narrow, length, refused, describes⟩

end Header

/-- Values of four gibibytes. Their size is recorded as zero. -/
def Shape.vast : Shape where
  key := Shape.bytes.key
  value := ⟨2 ^ 32, 1, Shape.bytes.value.power, by decide⟩
  addressable := by decide

namespace Header

def hollow : Header where
  slotsPerGroup := 2
  keySize := 1
  keyAlign := 1
  valueSize := 0
  valueAlign := 1
  geometry := Binding.small.geometry
  size := 0
  maxLoad := 0
  checksum := ⟨0, 0⟩

/-- Sizes that cannot be recorded have to be excluded: a header without values passes the check of a
shape with vast ones, and the length that it describes is not the one of the table. -/
theorem vast_length_differs :
    hollow.checkShape Shape.vast .narrow = .ok () ∧ hollow.bufferLength = .ok 9 ∧
      Extent.bufferSize? Width.narrow.slots hollow.geometry.mask Shape.vast.entry =
        some 12884901897 ∧
      ¬∀ length, hollow.bufferLength = .ok length ↔
        Extent.bufferSize? Width.narrow.slots hollow.geometry.mask Shape.vast.entry =
          some length := by
  have described : hollow.bufferLength = .ok 9 := by decide +kernel
  have length : Extent.bufferSize? Width.narrow.slots hollow.geometry.mask Shape.vast.entry =
      some 12884901897 := by decide +kernel
  refine ⟨by decide +kernel, described, length, fun agreement => ?_⟩
  have same := (agreement 9).1 described
  rw [length] at same
  exact absurd same (by decide)

end Header

end PackedTable
