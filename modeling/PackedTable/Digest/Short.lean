import PackedTable.Digest.Mix

/-!
Digests of inputs of at most sixteen bytes. Every byte reaches the result through one or two
words that may overlap in the middle of the input.
-/

namespace PackedTable.Digest.Short

/-- One to three bytes and their count in one word: the last byte is lowest. -/
def packed (bytes : Array UInt8) : UInt64 :=
  let count := bytes.size
  byteAt bytes 0 <<< 16 ||| byteAt bytes (count / 2) <<< 24 |||
    byteAt bytes (count - 1) ||| UInt64.ofNat count <<< 8

def turned (x : UInt64) : UInt64 :=
  let reversed := swap x >>> 32
  (reversed <<< 13 ||| reversed >>> 19) &&& 0xFFFFFFFF

def single (bytes : Array UInt8) : UInt64 :=
  let count := bytes.size
  let length := UInt64.ofNat count
  if count = 0 then avalancheShort (key 56 ^^^ key 64)
  else if count ≤ 3 then
    avalancheShort (packed bytes ^^^ (half secret 0 ^^^ half secret 4))
  else if count ≤ 8 then
    let joined := half bytes (count - 4) + half bytes 0 <<< 32
    let keyed := joined ^^^ (key 8 ^^^ key 16)
    let mixed := (keyed ^^^ rotateLeft keyed 49 ^^^ rotateLeft keyed 24) * primeMix
    xorShift ((mixed ^^^ (mixed >>> 35 + length)) * primeMix) 28
  else
    let low := word bytes 0 ^^^ (key 24 ^^^ key 32)
    let high := word bytes (count - 8) ^^^ (key 40 ^^^ key 48)
    avalanche (length + swap low + high + fold low high)

def pair (bytes : Array UInt8) : UInt64 × UInt64 :=
  let count := bytes.size
  let length := UInt64.ofNat count
  if count = 0 then
    (avalancheShort (key 80 ^^^ key 88), avalancheShort (key 64 ^^^ key 72))
  else if count ≤ 3 then
    let low := packed bytes
    (avalancheShort (turned low ^^^ (half secret 8 ^^^ half secret 12)),
      avalancheShort (low ^^^ (half secret 0 ^^^ half secret 4)))
  else if count ≤ 8 then
    let joined := half bytes 0 + half bytes (count - 4) <<< 32
    let keyed := joined ^^^ (key 16 ^^^ key 24)
    let words := product keyed (prime64A + length <<< 2)
    let high := words.1 + words.2 <<< 1
    let low := words.2 ^^^ (high >>> 3)
    (avalanche high, xorShift (xorShift low 35 * primeMix) 28)
  else
    let low := word bytes 0
    let high := word bytes (count - 8)
    let keyed := high ^^^ (key 48 ^^^ key 56)
    let words := product (low ^^^ high ^^^ (key 32 ^^^ key 40)) prime64A
    let upper := words.1 + (keyed + (keyed &&& 0xFFFFFFFF) * (prime32B - 1))
    let lower := (words.2 + (length - 1) <<< 54) ^^^ swap upper
    let last := product lower prime64B
    (avalanche (last.1 + upper * prime64B), avalanche last.2)

end PackedTable.Digest.Short
