import PackedTable.Digest.Mix

/-!
Digests of inputs of more than 240 bytes: stripes of 64 bytes are taken into eight accumulators,
which are scrambled after every block of sixteen stripes and merged at the end.
-/

namespace PackedTable.Digest.Long

abbrev Accumulators := Vector UInt64 8

def start : Accumulators :=
  #v[prime32C, prime64A, prime64B, prime64C, prime64D, prime32B, prime64E, prime32A]

def Accumulators.stripe (acc : Accumulators) (bytes : Array UInt8) (offset keyAt : Nat) :
    Accumulators :=
  Vector.ofFn fun (lane : Fin 8) =>
    let neighbour := if lane.val % 2 = 0 then lane.val + 1 else lane.val - 1
    let keyed : UInt64 := word bytes (offset + 8 * lane.val) ^^^ key (keyAt + 8 * lane.val)
    let lowHalf : UInt64 := keyed &&& 0xFFFFFFFF
    acc.get lane + word bytes (offset + 8 * neighbour) + lowHalf * (keyed >>> 32)

def Accumulators.scramble (acc : Accumulators) : Accumulators :=
  Vector.ofFn fun (lane : Fin 8) =>
    (xorShift (acc.get lane) 47 ^^^ key (128 + 8 * lane.val)) * prime32A

def Accumulators.stripes (acc : Accumulators) (bytes : Array UInt8) (offset count : Nat) :
    Accumulators :=
  (List.range count).foldl (fun acc i => acc.stripe bytes (offset + 64 * i) (8 * i)) acc

def Accumulators.ofBytes (bytes : Array UInt8) : Accumulators :=
  let blocks := (bytes.size - 1) / 1024
  let whole := (List.range blocks).foldl
    (fun acc i => (Accumulators.stripes acc bytes (1024 * i) 16).scramble) start
  let rest := (bytes.size - 1 - 1024 * blocks) / 64
  (Accumulators.stripes whole bytes (1024 * blocks) rest).stripe bytes (bytes.size - 64) 121

def Accumulators.merge (acc : Accumulators) (keyAt : Nat) (initial : UInt64) : UInt64 :=
  avalanche (initial + fold (acc[0] ^^^ key keyAt) (acc[1] ^^^ key (keyAt + 8)) +
    fold (acc[2] ^^^ key (keyAt + 16)) (acc[3] ^^^ key (keyAt + 24)) +
    fold (acc[4] ^^^ key (keyAt + 32)) (acc[5] ^^^ key (keyAt + 40)) +
    fold (acc[6] ^^^ key (keyAt + 48)) (acc[7] ^^^ key (keyAt + 56)))

def single (bytes : Array UInt8) : UInt64 :=
  (Accumulators.ofBytes bytes).merge 11 (UInt64.ofNat bytes.size * prime64A)

def pair (bytes : Array UInt8) : UInt64 × UInt64 :=
  let acc := Accumulators.ofBytes bytes
  let length := UInt64.ofNat bytes.size
  (acc.merge 117 (~~~(length * prime64B)), acc.merge 11 (length * prime64A))

end PackedTable.Digest.Long
