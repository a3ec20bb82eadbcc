import PackedTable.Layout
import PackedTable.LittleEndian
import PackedTable.Plain.Double

/-!
Plain data: values that are nothing but their bytes in memory. The kind of a value decides its
layout, when two values are equal, and its text.
-/

namespace PackedTable

/-- A number of a given count of bytes. -/
inductive Scalar where
  | unsigned (bytes : Nat)
  | signed (bytes : Nat)
  | double
deriving DecidableEq

namespace Scalar

/-- Numbers are aligned to their size. -/
def size : Scalar → Nat
  | unsigned bytes => bytes
  | signed bytes => bytes
  | double => 8

def equal : Scalar → List UInt8 → List UInt8 → Bool
  | double, left, right =>
    Double.equal ⟨UInt64.ofNat (LittleEndian.decode left)⟩
      ⟨UInt64.ofNat (LittleEndian.decode right)⟩
  | _, left, right => left == right

def text (scalar : Scalar) (bytes : List UInt8) : String :=
  let n := LittleEndian.decode bytes
  match scalar with
  | unsigned _ => toString n
  | signed count =>
    if 2 * n < 256 ^ count then toString n else "-" ++ toString (256 ^ count - n)
  | double => Double.text ⟨UInt64.ofNat n⟩

end Scalar

/-- A number, or a row of numbers of one kind. -/
inductive Part where
  | scalar (kind : Scalar)
  | array (kind : Scalar) (count : Nat)
deriving DecidableEq

namespace Part

def size : Part → Nat
  | scalar kind => kind.size
  | array kind count => kind.size * count

def align : Part → Nat
  | scalar kind => kind.size
  | array kind _ => kind.size

/-- Cuts `count` pieces of `size` bytes from the front. -/
def pieces (size : Nat) : Nat → List UInt8 → List (List UInt8)
  | 0, _ => []
  | count + 1, bytes => bytes.take size :: pieces size count (bytes.drop size)

def equal : Part → List UInt8 → List UInt8 → Bool
  | scalar kind, left, right => kind.equal left right
  | array kind count, left, right =>
    ((pieces kind.size count left).zip (pieces kind.size count right)).all fun (x, y) =>
      kind.equal x y

def text : Part → List UInt8 → String
  | scalar kind, bytes => kind.text bytes
  | array kind count, bytes =>
    "[" ++ ", ".intercalate ((pieces kind.size count bytes).map kind.text) ++ "]"

end Part

/-- Plain data without padding: nothing at all, one part, or named parts one after the other. -/
inductive Plain where
  | unit
  | single (part : Part)
  | record (name : String) (fields : List (String × Part))
deriving DecidableEq

namespace Plain

def parts : Plain → List Part
  | unit => []
  | single part => [part]
  | record _ fields => fields.map Prod.snd

def size (plain : Plain) : Nat := (plain.parts.map Part.size).foldr (· + ·) 0

def align (plain : Plain) : Nat := (plain.parts.map Part.align).foldl max 1

def layout? (plain : Plain) : Option Layout := Layout.of? plain.size plain.align

def split : List Part → List UInt8 → List (Part × List UInt8)
  | [], _ => []
  | part :: rest, bytes => (part, bytes.take part.size) :: split rest (bytes.drop part.size)

def equal (plain : Plain) (left right : List UInt8) : Bool :=
  ((split plain.parts left).zip (split plain.parts right)).all fun ((part, x), (_, y)) =>
    part.equal x y

def text (plain : Plain) (bytes : List UInt8) : String :=
  let written := (split plain.parts bytes).map fun (part, run) => part.text run
  match plain with
  | unit => "()"
  | single _ => "".intercalate written
  | record name fields =>
    let named := (fields.zip written).map fun ((field, _), value) => field ++ ": " ++ value
    name ++ " \x7b " ++ ", ".intercalate named ++ " \x7d"

end Plain

def Shape.ofPlain? (key value : Plain) : Option Shape := do
  Shape.of? (← key.layout?) (← value.layout?)

end PackedTable
