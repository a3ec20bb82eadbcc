import PackedTable.Digest
import PackedTable.Hexadecimal

/-!
The 128-bit checksum of a run of bytes.
-/

namespace PackedTable

structure Checksum where
  high : UInt64
  low : UInt64
deriving DecidableEq

namespace Checksum

/-- What gives a run of bytes its checksum. Tables and headers are checked under any such rule; that
it is a function of the bytes is all that is asked of it. -/
abbrev Rule : Type := Array UInt8 → Checksum

/-- The rule in use: the wide digest. -/
def of : Rule := fun bytes =>
  let words := Digest.pair bytes
  ⟨words.1, words.2⟩

def toNat (checksum : Checksum) : Nat := checksum.high.toNat * 2 ^ 64 + checksum.low.toNat

def ofNat (n : Nat) : Checksum := ⟨UInt64.ofNat (n / 2 ^ 64), UInt64.ofNat n⟩

def shortened (checksum : Checksum) : Checksum := ⟨0, checksum.low.toUInt32.toUInt64⟩

def hex (checksum : Checksum) : String := Hexadecimal.padded 32 checksum.toNat

def text (checksum : Checksum) : String := s!"Checksum({checksum.toNat})"

end Checksum

end PackedTable
