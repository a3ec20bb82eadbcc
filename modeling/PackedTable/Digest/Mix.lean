import PackedTable.Word

/-!
The word mixing steps of the XXH3 digests, and their fixed key of 192 bytes. All words are read
in little-endian order; a read past the end of the input sees zeros.
-/

namespace PackedTable.Digest

def prime32A : UInt64 := 0x9E3779B1
def prime32B : UInt64 := 0x85EBCA77
def prime32C : UInt64 := 0xC2B2AE3D
def prime64A : UInt64 := 0x9E3779B185EBCA87
def prime64B : UInt64 := 0xC2B2AE3D27D4EB4F
def prime64C : UInt64 := 0x165667B19E3779F9
def prime64D : UInt64 := 0x85EBCA77C2B2AE63
def prime64E : UInt64 := 0x27D4EB2F165667C5
def primeMix : UInt64 := 0x9FB21C651E98DF25

def secret : Array UInt8 := #[
  0xb8, 0xfe, 0x6c, 0x39, 0x23, 0xa4, 0x4b, 0xbe, 0x7c, 0x01, 0x81, 0x2c, 0xf7, 0x21, 0xad, 0x1c,
  0xde, 0xd4, 0x6d, 0xe9, 0x83, 0x90, 0x97, 0xdb, 0x72, 0x40, 0xa4, 0xa4, 0xb7, 0xb3, 0x67, 0x1f,
  0xcb, 0x79, 0xe6, 0x4e, 0xcc, 0xc0, 0xe5, 0x78, 0x82, 0x5a, 0xd0, 0x7d, 0xcc, 0xff, 0x72, 0x21,
  0xb8, 0x08, 0x46, 0x74, 0xf7, 0x43, 0x24, 0x8e, 0xe0, 0x35, 0x90, 0xe6, 0x81, 0x3a, 0x26, 0x4c,
  0x3c, 0x28, 0x52, 0xbb, 0x91, 0xc3, 0x00, 0xcb, 0x88, 0xd0, 0x65, 0x8b, 0x1b, 0x53, 0x2e, 0xa3,
  0x71, 0x64, 0x48, 0x97, 0xa2, 0x0d, 0xf9, 0x4e, 0x38, 0x19, 0xef, 0x46, 0xa9, 0xde, 0xac, 0xd8,
  0xa8, 0xfa, 0x76, 0x3f, 0xe3, 0x9c, 0x34, 0x3f, 0xf9, 0xdc, 0xbb, 0xc7, 0xc7, 0x0b, 0x4f, 0x1d,
  0x8a, 0x51, 0xe0, 0x4b, 0xcd, 0xb4, 0x59, 0x31, 0xc8, 0x9f, 0x7e, 0xc9, 0xd9, 0x78, 0x73, 0x64,
  0xea, 0xc5, 0xac, 0x83, 0x34, 0xd3, 0xeb, 0xc3, 0xc5, 0x81, 0xa0, 0xff, 0xfa, 0x13, 0x63, 0xeb,
  0x17, 0x0d, 0xdd, 0x51, 0xb7, 0xf0, 0xda, 0x49, 0xd3, 0x16, 0x55, 0x26, 0x29, 0xd4, 0x68, 0x9e,
  0x2b, 0x16, 0xbe, 0x58, 0x7d, 0x47, 0xa1, 0xfc, 0x8f, 0xf8, 0xb8, 0xd1, 0x7a, 0xd0, 0x31, 0xce,
  0x45, 0xcb, 0x3a, 0x8f, 0x95, 0x16, 0x04, 0x28, 0xaf, 0xd7, 0xfb, 0xca, 0xbb, 0x4b, 0x40, 0x7e]

def byteAt (bytes : Array UInt8) (offset : Nat) : UInt64 := (bytes.getD offset 0).toUInt64

def half (bytes : Array UInt8) (offset : Nat) : UInt64 :=
  byteAt bytes offset ||| byteAt bytes (offset + 1) <<< 8 |||
    byteAt bytes (offset + 2) <<< 16 ||| byteAt bytes (offset + 3) <<< 24

def word (bytes : Array UInt8) (offset : Nat) : UInt64 :=
  half bytes offset ||| half bytes (offset + 4) <<< 32

def key (offset : Nat) : UInt64 := word secret offset

def rotateLeft (x bits : UInt64) : UInt64 := x <<< bits ||| x >>> (64 - bits)

def swap (x : UInt64) : UInt64 :=
  (List.range 8).foldl (fun acc i => acc <<< 8 ||| (x >>> (8 * UInt64.ofNat i) &&& 0xFF)) 0

def xorShift (x bits : UInt64) : UInt64 := x ^^^ (x >>> bits)

def product (a b : UInt64) : UInt64 × UInt64 :=
  let full := a.toNat * b.toNat
  (UInt64.ofNat (full / 2 ^ 64), a * b)

def fold (a b : UInt64) : UInt64 :=
  let words := product a b
  words.1 ^^^ words.2

def avalanche (x : UInt64) : UInt64 :=
  xorShift (xorShift x 37 * 0x165667919E3779F9) 32

def avalancheShort (x : UInt64) : UInt64 :=
  xorShift (xorShift (xorShift x 33 * prime64B) 29 * prime64C) 32

def mix16 (bytes : Array UInt8) (offset keyAt : Nat) : UInt64 :=
  fold (word bytes offset ^^^ key keyAt) (word bytes (offset + 8) ^^^ key (keyAt + 8))

end PackedTable.Digest
