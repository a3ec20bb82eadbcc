import PackedTable.Error

/-!
Whole transfers over a stream that moves as many bytes at a time as it likes. A step that moves
nothing means that the stream has ended.
-/

namespace PackedTable.Transfer

variable {σ : Type}

/-- Reads until `wanted` bytes are there, in at most `turns` reads. -/
def fill (read : σ → Nat → List UInt8 × σ) :
    Nat → Nat → σ → Except StreamEnd (List UInt8) × σ
  | _, 0, stream => (.ok [], stream)
  | 0, _ + 1, stream => (.error .reading, stream)
  | turns + 1, wanted + 1, stream =>
    match read stream (wanted + 1) with
    | ([], after) => (.error .reading, after)
    | (part, after) =>
      match fill read turns (wanted + 1 - part.length) after with
      | (.ok rest, last) => (.ok (part ++ rest), last)
      | (.error cut, last) => (.error cut, last)

/-- Reads exactly `count` bytes. Every read yields a byte or ends the stream, so `count` reads are
enough. -/
def readExact (read : σ → Nat → List UInt8 × σ) (count : Nat) (stream : σ) :
    Except StreamEnd (List UInt8) × σ :=
  fill read count count stream

/-- Writes until nothing is left, in at most `turns` writes. -/
def drain (write : σ → List UInt8 → Nat × σ) :
    Nat → List UInt8 → σ → Except StreamEnd Unit × σ
  | _, [], stream => (.ok (), stream)
  | 0, _ :: _, stream => (.error .writing, stream)
  | turns + 1, byte :: rest, stream =>
    match write stream (byte :: rest) with
    | (0, after) => (.error .writing, after)
    | (moved + 1, after) => drain write turns (rest.drop moved) after

/-- Writes all bytes. Every write takes a byte or ends the stream, so as many writes as there are
bytes are enough. -/
def writeAll (write : σ → List UInt8 → Nat × σ) (bytes : List UInt8) (stream : σ) :
    Except StreamEnd Unit × σ :=
  drain write bytes.length bytes stream

end PackedTable.Transfer
