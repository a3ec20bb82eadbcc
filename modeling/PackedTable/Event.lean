import PackedTable.Header.Attach
import PackedTable.Table.Insert

/-!
What a table reports while it is used. Each operation has a function that lists its events, read
off the operation's outcome.
-/

namespace PackedTable

inductive Event where
  | created (geometry : Geometry) (capacity maxLoad : Nat)
  | attached (geometry : Geometry) (size maxLoad : Nat)
  | cleared (geometry : Geometry)
  | full (geometry : Geometry) (size maxLoad : Nat)
  | exhausted (geometry : Geometry) (size maxLoad : Nat)
  | captured (header : Header)
  | attaching (geometry : Geometry) (size maxLoad : Nat)
deriving DecidableEq

namespace Event

def level : Event → String
  | created .. | attached .. | cleared _ => "TRACE"
  | captured _ | attaching .. => "DEBUG"
  | full .. | exhausted .. => "ERROR"

def message : Event → String
  | created geometry capacity maxLoad =>
    s!"Created table {geometry.text}, capacity={capacity}, max_load={maxLoad}"
  | attached geometry size maxLoad =>
    s!"Attached table {geometry.text} with {size}/{maxLoad} elements"
  | cleared geometry => s!"Cleared table {geometry.text}"
  | full geometry size maxLoad =>
    s!"Table {geometry.text} is full ({size}/{maxLoad}), refusing to insert"
  | exhausted geometry size maxLoad =>
    s!"No free slot in {geometry.text} with {size}/{maxLoad} elements, buffer is corrupt"
  | captured header => s!"Captured table header: {header.text}"
  | attaching geometry size maxLoad =>
    s!"Attaching table {geometry.text} with {size}/{maxLoad} elements"

def text (event : Event) : String := event.level ++ " " ++ event.message

end Event

section

variable {shape : Shape} {length : Nat} {binding : Binding shape length}

def Binding.clearEvents (binding : Binding shape length) : List Event :=
  [.cleared binding.geometry]

def Table.headerEvents (digest : Checksum.Rule) (table : Table binding) : List Event :=
  [.captured (table.header digest)]

def Attempt.events {α : Type} (attempt : Attempt binding α) : List Event :=
  let table := attempt.table
  match attempt.outcome with
  | .error (.tableFull ..) => [.full binding.geometry table.size table.maxLoad]
  | .error .probeExhausted => [.exhausted binding.geometry table.size table.maxLoad]
  | _ => []

end

namespace Mounted

variable {shape : Shape}

def createEvents (opened : Except Failure (Mounted shape)) : List Event :=
  match opened with
  | .ok mounted =>
    [.created mounted.binding.geometry mounted.binding.capacity mounted.table.maxLoad]
  | .error _ => []

def attachEvents (opened : Except Failure (Mounted shape)) : List Event :=
  match opened with
  | .ok mounted => [.attached mounted.binding.geometry mounted.table.size mounted.table.maxLoad]
  | .error _ => []

end Mounted

/-- The report of attaching by a header: the attempt itself is reported once the region is known
to hold the table. -/
def Header.attachEvents {shape : Shape} (digest : Checksum.Rule) (header : Header) (width : Width)
    (region : Region) (opened : Except Failure (Mounted shape)) : List Event :=
  match header.admits digest shape width region with
  | .ok () =>
    .attaching header.geometry header.size.toNat header.maxLoad.toNat :: Mounted.attachEvents opened
  | .error _ => []

end PackedTable
