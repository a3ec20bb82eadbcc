import PackedTable.Checksum
import PackedTable.Extent
import PackedTable.Geometry
import PackedTable.Group

/-!
The side header of a table buffer. The buffer itself carries no description; a header records
what is needed to use it again: the shape, the geometry, the size control and a checksum of the
content.
-/

namespace PackedTable

structure Header where
  slotsPerGroup : UInt8
  keySize : UInt32
  keyAlign : UInt32
  valueSize : UInt32
  valueAlign : UInt32
  geometry : Geometry
  size : UInt64
  maxLoad : UInt64
  checksum : Checksum
deriving DecidableEq

namespace Header

def magic : List UInt8 := [0x46, 0x4D, 0x4D, 0x01]

def version : UInt8 := 1

/-- Bytes of an encoded header: the magic, two single bytes, the four numbers of the shape, two for
the geometry, two for the size control, and the checksums of the content and of the header. -/
def encodedLength : Nat := magic.length + 1 + 1 + 4 * 4 + 2 * 8 + 2 * 8 + 16 + 4

def layout (part : HeaderPart) (size align : UInt32) : Except Error Layout :=
  match Layout.of? size.toNat align.toNat with
  | some layout => .ok layout
  | none => .error (.invalidHeader part)

def bufferLength (header : Header) : Except Error Nat := do
  let key ← layout .keyLayout header.keySize header.keyAlign
  let value ← layout .valueLayout header.valueSize header.valueAlign
  match EntryLayout.pair? key value with
  | none => .error (.invalidHeader .entryLayout)
  | some entry =>
    match Extent.bufferSize? header.slotsPerGroup.toNat header.geometry.mask entry with
    | none => .error (.invalidHeader .bufferLength)
    | some length => .ok length

def verify (digest : Checksum.Rule) (header : Header) (bytes : Array UInt8) :
    Except Error Unit := do
  let required ← header.bufferLength
  if required ≤ bytes.size then
    let got := digest (bytes.extract 0 required)
    if got = header.checksum then .ok ()
    else .error (.checksumMismatch got header.checksum)
  else .error (.bufferTooSmall required bytes.size)

def checkShape (header : Header) (shape : Shape) (width : Width) : Except Error Unit :=
  if header.slotsPerGroup.toNat ≠ width.slots then .error (.headerMismatch .slotsPerGroup)
  else if (header.keySize, header.keyAlign) ≠
      (UInt32.ofNat shape.key.size, UInt32.ofNat shape.key.align) then
    .error (.headerMismatch .keyType)
  else if (header.valueSize, header.valueAlign) ≠
      (UInt32.ofNat shape.value.size, UInt32.ofNat shape.value.align) then
    .error (.headerMismatch .valueType)
  else .ok ()

def text (header : Header) : String :=
  s!"Header \x7b slots_per_group: {header.slotsPerGroup}, key_size: {header.keySize}, " ++
    s!"key_align: {header.keyAlign}, value_size: {header.valueSize}, " ++
    s!"value_align: {header.valueAlign}, geometry: {header.geometry.text}, " ++
    s!"size: {header.size}, max_load: {header.maxLoad}, checksum: {header.checksum.text} \x7d"

end Header

end PackedTable
