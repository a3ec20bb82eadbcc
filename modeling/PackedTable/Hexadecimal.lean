/-!
Hexadecimal text of numbers and of runs of bytes. Text is written in lower case and read in
either case.
-/

namespace PackedTable.Hexadecimal

def padded (width n : Nat) : String :=
  let digits := Nat.toDigits 16 n
  String.ofList (List.replicate (width - digits.length) '0' ++ digits)

def digit (c : Char) : Nat :=
  if c ≤ '9' then c.toNat - 48 else if 'a' ≤ c then c.toNat - 87 else c.toNat - 55

def number (digits : List Char) : Nat := digits.foldl (fun n c => 16 * n + digit c) 0

def ofBytes (bytes : List UInt8) : String :=
  String.join (bytes.map fun byte => padded 2 byte.toNat)

def bytes : List Char → List UInt8
  | high :: low :: rest => UInt8.ofNat (number [high, low]) :: bytes rest
  | _ => []

end PackedTable.Hexadecimal
