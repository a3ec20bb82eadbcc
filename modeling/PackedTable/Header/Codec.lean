import PackedTable.Header.Basic
import PackedTable.LittleEndian
import PackedTable.Transfer.Checksummed

/-!
The encoded form of a side header: 74 bytes, all numbers in little-endian order. The last four
bytes are the low bits of the checksum of the 70 bytes before them, so that a damaged header is
told from a valid one before any of its numbers is used.
-/

namespace PackedTable.Header

open Transfer

/-- The runs that are covered by the header's own checksum, in the order of writing. -/
def runs (header : Header) : List (List UInt8) :=
  [ magic,
    [version],
    [header.slotsPerGroup],
    LittleEndian.encode 4 header.keySize.toNat,
    LittleEndian.encode 4 header.keyAlign.toNat,
    LittleEndian.encode 4 header.valueSize.toNat,
    LittleEndian.encode 4 header.valueAlign.toNat,
    LittleEndian.encode 8 header.geometry.shift.toNat,
    LittleEndian.encode 8 header.geometry.mask,
    LittleEndian.encode 8 header.size.toNat,
    LittleEndian.encode 8 header.maxLoad.toNat,
    LittleEndian.encode 16 header.checksum.toNat ]

/-- The run that closes a header whose earlier bytes have this checksum. -/
def closing (covered : Checksum) : List UInt8 := LittleEndian.encode 4 covered.shortened.toNat

def encode (digest : Checksum.Rule) (header : Header) : List UInt8 :=
  let covered := header.runs.flatten
  covered ++ closing (digest covered.toArray)

def encodeInto (digest : Checksum.Rule) (header : Header) (sink : Sink) :
    Except Error Unit × Sink :=
  match (Checksummed.start sink).writeRuns header.runs with
  | (.error cut, stream) => (.error (.stream cut), stream.inner)
  | (.ok (), stream) =>
    match stream.inner.writeAll (closing (stream.checksum digest)) with
    | (.error cut, sink) => (.error (.stream cut), sink)
    | (.ok (), sink) => (.ok (), sink)

/-- The numbers of an encoded header, before any of them is interpreted. -/
structure Fields where
  slotsPerGroup : UInt8
  keySize : UInt32
  keyAlign : UInt32
  valueSize : UInt32
  valueAlign : UInt32
  shift : UInt64
  mask : Nat
  size : UInt64
  maxLoad : UInt64
  checksum : Checksum

/-- The header with these numbers, unless they are none that a table can have. -/
def Fields.header (fields : Fields) : Except Error Header :=
  if fields.slotsPerGroup < 2 ∨ 15 < fields.slotsPerGroup then
    .error (.invalidHeader .slotsPerGroup)
  else if fields.keySize = 0 then .error (.invalidHeader .keyLayout)
  else (Geometry.ofMask fields.shift fields.mask).map fun geometry =>
    { fields with geometry }

/-- Reading from a checksummed source, where an error leaves the source where it was raised. -/
abbrev Reading (α : Type) : Type := ExceptT Error (StateM (Checksummed Source)) α

namespace Reading

def take (count : Nat) : Reading (List UInt8) := ExceptT.mk fun stream =>
  match stream.readExact count with
  | (.ok bytes, after) => (.ok bytes, after)
  | (.error cut, after) => (.error (.stream cut), after)

def number (count : Nat) : Reading Nat := do
  return LittleEndian.decode (← take count)

/-- Reads a number that the running checksum does not cover. -/
def uncovered (count : Nat) : Reading Nat := ExceptT.mk fun stream =>
  match stream.inner.readExact count with
  | (.ok bytes, inner) => (.ok (LittleEndian.decode bytes), { stream with inner })
  | (.error cut, inner) => (.error (.stream cut), { stream with inner })

def covered (digest : Checksum.Rule) : Reading Checksum := ExceptT.mk fun stream =>
  (.ok (stream.checksum digest), stream)

/-- What tells a header from other bytes, and its version from later ones. -/
def opening : Reading Unit := do
  let start ← take 4
  if start ≠ magic then throw (.invalidHeader .magic)
  let found := UInt8.ofNat (← number 1)
  if found ≠ version then throw (.invalidVersion found)

/-- The fields in the order of writing. -/
def fields : Reading Fields := do
  let slotsPerGroup := UInt8.ofNat (← number 1)
  let keySize := UInt32.ofNat (← number 4)
  let keyAlign := UInt32.ofNat (← number 4)
  let valueSize := UInt32.ofNat (← number 4)
  let valueAlign := UInt32.ofNat (← number 4)
  let shift := UInt64.ofNat (← number 8)
  let mask ← number 8
  let size := UInt64.ofNat (← number 8)
  let maxLoad := UInt64.ofNat (← number 8)
  let checksum := Checksum.ofNat (← number 16)
  return { slotsPerGroup, keySize, keyAlign, valueSize, valueAlign, shift, mask, size, maxLoad,
           checksum }

/-- The checksum of all that was read before, which has to be the one that is recorded. -/
def intact (digest : Checksum.Rule) : Reading Unit := do
  let got := (← covered digest).shortened
  let expected := Checksum.ofNat (← uncovered 4)
  if expected ≠ got then throw (.checksumMismatch got expected)

/-- The checksum is compared once all bytes are there, and before any number is interpreted. -/
def header (digest : Checksum.Rule) : Reading Header := do
  opening
  let fields ← fields
  intact digest
  ExceptT.mk (pure fields.header)

end Reading

def decode (digest : Checksum.Rule) (source : Source) : Except Error Header × Source :=
  let (result, stream) := (ExceptT.run (Reading.header digest)).run (Checksummed.start source)
  (result, stream.inner)

end PackedTable.Header
