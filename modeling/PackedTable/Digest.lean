import PackedTable.Digest.Long
import PackedTable.Digest.Medium
import PackedTable.Digest.Short

/-!
The XXH3 digests of a run of bytes, without a seed: one word, or a pair of words. The length of
the input alone decides which of three schemes computes them.
-/

namespace PackedTable.Digest

def single (bytes : Array UInt8) : UInt64 :=
  if bytes.size ≤ 16 then Short.single bytes
  else if bytes.size ≤ 240 then Medium.single bytes
  else Long.single bytes

def pair (bytes : Array UInt8) : UInt64 × UInt64 :=
  if bytes.size ≤ 16 then Short.pair bytes
  else if bytes.size ≤ 240 then Medium.pair bytes
  else Long.pair bytes

end PackedTable.Digest
