import PackedTable.Checksum
import PackedTable.Transfer.Source

/-!
A stream with a running checksum of the bytes that have actually been moved through it. The
checksum of a run is a function of its bytes alone, so remembering the bytes is all it takes.
-/

namespace PackedTable.Transfer

structure Checksummed (σ : Type) where
  inner : σ
  passed : Array UInt8

namespace Checksummed

variable {σ : Type}

def start (inner : σ) : Checksummed σ := ⟨inner, #[]⟩

def checksum (digest : Checksum.Rule) (stream : Checksummed σ) : Checksum := digest stream.passed

/-- Counts the bytes that a read gave, not those it was asked for. -/
def read (inner : σ → Nat → List UInt8 × σ) (stream : Checksummed σ) (wanted : Nat) :
    List UInt8 × Checksummed σ :=
  let (part, after) := inner stream.inner wanted
  (part, ⟨after, stream.passed ++ part⟩)

/-- Counts the bytes that a write took, not those it was offered. -/
def write (inner : σ → List UInt8 → Nat × σ) (stream : Checksummed σ) (bytes : List UInt8) :
    Nat × Checksummed σ :=
  let (moved, after) := inner stream.inner bytes
  (moved, ⟨after, stream.passed ++ bytes.take moved⟩)

def readExact (stream : Checksummed Source) (count : Nat) :
    Except StreamEnd (List UInt8) × Checksummed Source :=
  Transfer.readExact (read Source.read) count stream

def writeAll (stream : Checksummed Sink) (bytes : List UInt8) :
    Except StreamEnd Unit × Checksummed Sink :=
  Transfer.writeAll (write Sink.write) bytes stream

def writeRuns (stream : Checksummed Sink) :
    List (List UInt8) → Except StreamEnd Unit × Checksummed Sink
  | [] => (.ok (), stream)
  | bytes :: rest =>
    match stream.writeAll bytes with
    | (.ok (), after) => writeRuns after rest
    | (.error cut, after) => (.error cut, after)

end Checksummed

end PackedTable.Transfer
