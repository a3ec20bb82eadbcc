import PackedTable.Digest.Mix

/-!
Digests of inputs of 17 to 240 bytes. Up to 128 bytes are consumed from both ends towards the
middle; longer inputs go from front to back in steps, with a second spread after the first 128.
-/

namespace PackedTable.Digest.Medium

/-- The outermost `ring` is zero; ring `i` lies `16 * i` bytes further inside. -/
def rings (count : Nat) : List Nat := [3, 2, 1, 0].filter fun ring => 32 * ring < count

def single (bytes : Array UInt8) : UInt64 :=
  let count := bytes.size
  let start := UInt64.ofNat count * prime64A
  if count ≤ 128 then
    avalanche <| (rings count).foldl (fun acc ring =>
      acc + mix16 bytes (16 * ring) (32 * ring) +
        mix16 bytes (count - 16 - 16 * ring) (32 * ring + 16)) start
  else
    let front := (List.range 8).foldl (fun acc i => acc + mix16 bytes (16 * i) (16 * i)) start
    let back := (List.range (count / 16 - 8)).foldl
      (fun acc i => acc + mix16 bytes (16 * (i + 8)) (16 * i + 3)) (avalanche front)
    avalanche (back + mix16 bytes (count - 16) 119)

structure Lanes where
  low : UInt64
  high : UInt64

def Lanes.mix (lanes : Lanes) (bytes : Array UInt8) (first second keyAt : Nat) : Lanes :=
  ⟨(lanes.low + mix16 bytes first keyAt) ^^^ (word bytes second + word bytes (second + 8)),
    (lanes.high + mix16 bytes second (keyAt + 16)) ^^^ (word bytes first + word bytes (first + 8))⟩

def Lanes.finish (lanes : Lanes) (length : UInt64) : UInt64 × UInt64 :=
  (0 - avalanche (lanes.low * prime64A + lanes.high * prime64D + length * prime64B),
    avalanche (lanes.low + lanes.high))

def pair (bytes : Array UInt8) : UInt64 × UInt64 :=
  let count := bytes.size
  let length := UInt64.ofNat count
  let start : Lanes := ⟨length * prime64A, 0⟩
  if count ≤ 128 then
    let lanes := (rings count).foldl (fun (lanes : Lanes) ring =>
      lanes.mix bytes (16 * ring) (count - 16 - 16 * ring) (32 * ring)) start
    lanes.finish length
  else
    let front := (List.range 4).foldl
      (fun (lanes : Lanes) i => lanes.mix bytes (32 * i) (32 * i + 16) (32 * i)) start
    let back := (List.range (count / 32 - 4)).foldl
      (fun (lanes : Lanes) i => lanes.mix bytes (32 * (i + 4)) (32 * (i + 4) + 16) (32 * i + 3))
      (Lanes.mk (avalanche front.low) (avalanche front.high))
    (back.mix bytes (count - 16) (count - 32) 103).finish length

end PackedTable.Digest.Medium
