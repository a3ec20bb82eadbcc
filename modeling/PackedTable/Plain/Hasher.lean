import PackedTable.Digest
import PackedTable.Plain.Basic

/-!
Hashes of plain keys. A key is fed as a run of bytes in which every row of numbers is preceded by
its length, so that rows of different lengths are told apart; a borrowed row of bytes is fed as
the row itself and so hashes alike.
-/

namespace PackedTable

namespace Part

def lengthMark (count : Nat) : List UInt8 := LittleEndian.encode 8 count

def feed : Part → List UInt8 → List UInt8
  | scalar _, bytes => bytes
  | array _ count, bytes => lengthMark count ++ bytes

end Part

def Plain.feed (plain : Plain) (bytes : List UInt8) : List UInt8 :=
  (split plain.parts bytes).flatMap fun (part, run) => part.feed run

inductive Hasher where
  /-- The single digest of the bytes. -/
  | digest
  /-- The last eight bytes read as a number, the most significant byte first; a key that is one
  word stands for itself. -/
  | direct
deriving DecidableEq

namespace Hasher

def ofFeed (hasher : Hasher) (feed : List UInt8) : UInt64 :=
  match hasher with
  | digest => Digest.single feed.toArray
  | direct => feed.foldl (fun hash byte => hash <<< 8 ||| byte.toUInt64) 0

def hash (hasher : Hasher) (plain : Plain) (bytes : List UInt8) : UInt64 :=
  match hasher, plain with
  | direct, .single (.scalar kind) =>
    if kind.size = 8 then UInt64.ofNat (LittleEndian.decode bytes) else hasher.ofFeed bytes
  | _, _ => hasher.ofFeed (plain.feed bytes)

def hashRow (hasher : Hasher) (row : List UInt8) : UInt64 :=
  hasher.ofFeed (Part.lengthMark row.length ++ row)

end Hasher

end PackedTable
