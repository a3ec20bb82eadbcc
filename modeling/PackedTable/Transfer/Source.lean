import PackedTable.Transfer.Basic

/-!
A source of bytes that gives them out in pieces of its own choosing, and a sink that takes them
likewise.
-/

namespace PackedTable.Transfer

/-- The bytes that are left, and the most that each read in turn gives. -/
structure Source where
  left : List UInt8
  pace : Nat → Nat
  turn : Nat

namespace Source

def ofBytes (bytes : List UInt8) (chunk : Nat) : Source := ⟨bytes, fun _ => chunk, 0⟩

def read (source : Source) (wanted : Nat) : List UInt8 × Source :=
  let given := min wanted (source.pace source.turn)
  (source.left.take given,
    { source with left := source.left.drop given, turn := source.turn + 1 })

def readExact (source : Source) (count : Nat) : Except StreamEnd (List UInt8) × Source :=
  Transfer.readExact read count source

end Source

/-- The bytes taken so far, how many more will be taken if there is a limit, and the most that
each write in turn takes. -/
structure Sink where
  taken : Array UInt8
  room : Option Nat
  pace : Nat → Nat
  turn : Nat

namespace Sink

def limited (limit : Option Nat) (chunk : Nat) : Sink := ⟨#[], limit, fun _ => chunk, 0⟩

def write (sink : Sink) (bytes : List UInt8) : Nat × Sink :=
  let offered := min bytes.length (sink.pace sink.turn)
  let moved := match sink.room with
    | some room => min offered room
    | none => offered
  (moved,
    { sink with
      taken := sink.taken ++ bytes.take moved
      room := sink.room.map (· - moved)
      turn := sink.turn + 1 })

def writeAll (sink : Sink) (bytes : List UInt8) : Except StreamEnd Unit × Sink :=
  Transfer.writeAll write bytes sink

end Sink

end PackedTable.Transfer
