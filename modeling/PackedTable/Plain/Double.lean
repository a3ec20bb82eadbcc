import PackedTable.Word

/-!
Double-precision numbers given by their bits: when two of them are equal, and their shortest
decimal text that reads back as the same number.
-/

namespace PackedTable

structure Double where
  bits : UInt64
deriving DecidableEq

namespace Double

def negative (x : Double) : Bool := x.bits >>> 63 == 1

def exponentField (x : Double) : Nat := (x.bits >>> 52 &&& 0x7FF).toNat

def fraction (x : Double) : Nat := (x.bits &&& 0xFFFFFFFFFFFFF).toNat

def notANumber (x : Double) : Bool := x.exponentField == 2047 && x.fraction != 0

def isZero (x : Double) : Bool := x.exponentField == 0 && x.fraction == 0

/-- Not a number equals nothing, not even itself, and the two zeros are equal. -/
def equal (x y : Double) : Bool :=
  !x.notANumber && !y.notANumber && (x.bits == y.bits || (x.isZero && y.isZero))

def significand (x : Double) : Nat :=
  if x.exponentField = 0 then x.fraction else x.fraction + 2 ^ 52

/-- A finite number is `significand * 2 ^ weight / 2 ^ 1075` apart from its sign. -/
def weight (x : Double) : Nat := max x.exponentField 1

/-- The numerators, over `2 ^ 1077`, of the number and of the ends of the interval that reads
back as it. Below a power of two the next number is half as far away. -/
structure Span where
  lower : Nat
  centre : Nat
  upper : Nat
  closed : Bool

def span (x : Double) : Span :=
  let unit := 2 ^ x.weight
  let centre := 4 * x.significand * unit
  let below := if x.fraction = 0 ∧ 1 < x.exponentField then unit else 2 * unit
  ⟨centre - below, centre, centre + 2 * unit, x.significand % 2 = 0⟩

def Span.holds (span : Span) (n : Nat) : Bool :=
  if span.closed then span.lower ≤ n && n ≤ span.upper else span.lower < n && n < span.upper

/-- Decimal digits `digits` with the point before the first of them, times ten to `point`. -/
structure Decimal where
  digits : Nat
  point : Int

/-- All spans are multiplied by this before they are compared with a decimal grid, so that every
grid point is a whole number. -/
def finest : Nat := 10 ^ 350

/-- The grid of decimals with `count` digits at the size `10 ^ point`, over `2 ^ 1077 / finest`. -/
def grid (count : Nat) (point : Int) : Nat := 2 ^ 1077 * 10 ^ (350 + point - count).toNat

/-- The neighbours of the number on a grid that read back as it, the nearer one first. Of two
that are equally near, the greater one comes first. -/
def neighbours (span : Span) (unit : Nat) : List Nat :=
  let centre := span.centre * finest
  let low := centre / unit
  let nearer := if 2 * (centre % unit) < unit then [low, low + 1] else [low + 1, low]
  let wide : Span := ⟨span.lower * finest, centre, span.upper * finest, span.closed⟩
  nearer.filter fun n => wide.holds (n * unit)

/-- The fewest digits with which a finite number above zero reads back. -/
def shortest (x : Double) : Decimal :=
  let span := x.span
  let above := ((List.range 640).find? fun p =>
    span.centre * finest < 2 ^ 1077 * 10 ^ (p + 26)).getD 640
  let size : Int := Int.ofNat above - 324
  let found := (List.range 17).findSome? fun count =>
    (neighbours span (grid (count + 1) size)).head?.map fun n => (n, count + 1)
  match found with
  | some (n, count) =>
    if n = 10 ^ count then ⟨1, size + 1⟩ else ⟨n, size⟩
  | none => ⟨0, 0⟩

/-- Positional from `0.0001` up to sixteen digits before the point, with at least one digit
after it; beyond that with an exponent. -/
def magnitudeText (decimal : Decimal) : String :=
  let trimmed := ((Nat.toDigits 10 decimal.digits).reverse.dropWhile (· == '0')).reverse
  let count := trimmed.length
  if -3 ≤ decimal.point ∧ decimal.point ≤ 16 then
    if decimal.point ≤ 0 then
      "0." ++ String.ofList (List.replicate (-decimal.point).toNat '0' ++ trimmed)
    else
      let whole := decimal.point.toNat
      let padded := trimmed ++ List.replicate (whole - count) '0'
      let part := padded.drop whole
      String.ofList (padded.take whole) ++ "." ++
        String.ofList (if part.isEmpty then ['0'] else part)
  else
    let lead := String.ofList (trimmed.take 1)
    let part := String.ofList (trimmed.drop 1)
    lead ++ (if part.isEmpty then "" else "." ++ part) ++ s!"e{decimal.point - 1}"

def text (x : Double) : String :=
  if x.notANumber then "NaN"
  else
    let sign := if x.negative then "-" else ""
    if x.exponentField = 2047 then sign ++ "inf"
    else if x.isZero then sign ++ "0.0"
    else sign ++ magnitudeText x.shortest

end Double

end PackedTable
