import PackedTable.Checksum

/-!
What can go wrong. An `Error` is an answer about a buffer or a side header that the caller may
act on; a `Fault` is the refusal of a call whose contract does not hold. Each cause has its own
constructor, and its wording is in one place.
-/

namespace PackedTable

inductive StreamEnd where
  | reading
  | writing
deriving DecidableEq

namespace StreamEnd

def kind : StreamEnd → String
  | reading => "UnexpectedEof"
  | writing => "WriteZero"

def message : StreamEnd → String
  | reading => "failed to fill whole buffer"
  | writing => "failed to write whole buffer"

end StreamEnd

inductive HeaderPart where
  | magic
  | slotsPerGroup
  | keyLayout
  | valueLayout
  | entryLayout
  | bufferLength
deriving DecidableEq

def HeaderPart.name : HeaderPart → String
  | magic => "magic"
  | slotsPerGroup => "slots per group"
  | keyLayout => "key layout"
  | valueLayout => "value layout"
  | entryLayout => "entry layout"
  | bufferLength => "buffer length"

inductive ShapePart where
  | slotsPerGroup
  | keyType
  | valueType
deriving DecidableEq

def ShapePart.name : ShapePart → String
  | slotsPerGroup => "slots per group"
  | keyType => "key type"
  | valueType => "value type"

/-- Why a buffer cannot be bound, a header not be used, or a key not be found. -/
inductive Error where
  | stream (cut : StreamEnd)
  | bufferTooSmall (required actual : Nat)
  | misalignedBuffer (align : Nat)
  | invalidGeometry (mask : Nat)
  | invalidSizeControl (size maxLoad capacity : Nat)
  | keyNotFound
  | invalidHeader (part : HeaderPart)
  | invalidVersion (version : UInt8)
  | headerMismatch (part : ShapePart)
  | checksumMismatch (got expected : Checksum)
deriving DecidableEq

namespace Error

def kind : Error → String
  | stream _ => "Io"
  | bufferTooSmall .. => "BufferTooSmall"
  | misalignedBuffer _ => "MisalignedBuffer"
  | invalidGeometry _ => "InvalidGeometry"
  | invalidSizeControl .. => "InvalidSizeControl"
  | keyNotFound => "KeyNotFound"
  | invalidHeader _ => "InvalidHeader"
  | invalidVersion _ => "InvalidVersion"
  | headerMismatch _ => "HeaderMismatch"
  | checksumMismatch .. => "ChecksumMismatch"

def details : Error → String
  | stream cut => s!"(Error \x7b kind: {cut.kind}, message: \"{cut.message}\" \x7d)"
  | bufferTooSmall required actual => s!" \x7b required: {required}, actual: {actual} \x7d"
  | misalignedBuffer align => s!" \x7b align: {align} \x7d"
  | invalidGeometry mask => s!" \x7b groups_size_mask: {mask} \x7d"
  | invalidSizeControl size maxLoad capacity =>
    s!" \x7b size: {size}, max_load: {maxLoad}, capacity: {capacity} \x7d"
  | keyNotFound => ""
  | invalidHeader part => s!"(\"{part.name}\")"
  | invalidVersion version => s!"({version})"
  | headerMismatch part => s!"(\"{part.name}\")"
  | checksumMismatch got expected => s!" \x7b got: {got.text}, expected: {expected.text} \x7d"

def message (error : Error) : String := "FlatMapError: " ++ error.kind ++ error.details

end Error

/-- Why a call is refused. -/
inductive Fault where
  | zeroSizedKey
  | loadFactorOutOfRange
  | capacityNotAddressable
  | bufferSizeNotAddressable
  | itemsNotAddressable
  | slotOutsideGroup
  | groupOutsideBuffer
  | entryOutsideBuffer
  | tableFull (size maxLoad : Nat)
  | probeExhausted
deriving DecidableEq

def Fault.message : Fault → String
  | zeroSizedKey => "zero-sized keys are not supported"
  | loadFactorOutOfRange => "max load factor must be within (0.0, 1.0]"
  | capacityNotAddressable => "capacity should fit into usize"
  | bufferSizeNotAddressable => "buffer size should fit into usize"
  | itemsNotAddressable => "item count should be addressable"
  | slotOutsideGroup => "slot should be within group"
  | groupOutsideBuffer => "group should be in bounds"
  | entryOutsideBuffer => "entry should be in bounds"
  | tableFull size maxLoad =>
    s!"table is full ({size} elements, max_load={maxLoad}), rehashing is not supported"
  | probeExhausted =>
    "probe sequence exhausted below max_load, buffer does not match its size control"

inductive Failure where
  | error (cause : Error)
  | fault (cause : Fault)
deriving DecidableEq

end PackedTable
