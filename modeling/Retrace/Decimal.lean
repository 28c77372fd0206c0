import Retrace.Binary
/-!
# Numbers as text

Numbers in positional notation are read in bases up to sixteen (`Digits`).  Writing is `Nat.toDigits`, padded to a fixed
width where a format asks for one.

The decimal text of a number `m · 2 ^ q` has the fewest digits that read back as that number; of two such texts the
nearer to the number is taken, and of two equally near the larger.  It is always positional: no exponent is written,
and a whole number has no point.

A decimal reads back as the number when it lies between the midpoints to its two neighbours, the midpoints included
iff the mantissa is even.  All arithmetic is exact, on natural numbers.
-/
namespace Retrace

/-! ## Digits -/

namespace Digits

/-- The value of a digit; letters of both cases stand for the values from ten on. -/
def digit? (base : Nat) (c : Char) : Option Nat :=
  let value :=
    if '0' ≤ c && c ≤ '9' then c.toNat - '0'.toNat
    else if 'a' ≤ c && c ≤ 'f' then c.toNat - 'a'.toNat + 10
    else if 'A' ≤ c && c ≤ 'F' then c.toNat - 'A'.toNat + 10
    else 16
  if value < base then some value else none

def readFrom? (base acc : Nat) : List Char → Option Nat
  | [] => some acc
  | c :: rest => (digit? base c).bind fun d => readFrom? base (base * acc + d) rest

def read? (base : Nat) (cs : List Char) : Option Nat := if cs.isEmpty then none else readFrom? base 0 cs

def padded (base width n : Nat) : List Char :=
  let cs := Nat.toDigits base n
  List.replicate (width - cs.length) '0' ++ cs

end Digits

/-! ## Shortest decimals -/

structure Decimal where
  digits : Nat
  exponent : Int
  deriving DecidableEq

namespace Decimal

/-- The interval of reals that round to a number, over one scale: the number is `mid · 2 ^ exponent`. -/
structure Rounding where
  low : Nat
  mid : Nat
  high : Nat
  exponent : Int
  closed : Bool

/-- The rounding interval of `mantissa · 2 ^ exponent`, in quarters of the number's unit. -/
def Rounding.of (mantissa : Nat) (exponent : Int) (narrow : Bool) : Rounding where
  low := 4 * mantissa - (if narrow then 1 else 2)
  mid := 4 * mantissa
  high := 4 * mantissa + 2
  exponent := exponent - 2
  closed := mantissa % 2 == 0

/-- On the grid of multiples of `10 ^ g`, the point below the number and the point above: the first of them that reads
back, or the nearer one when both do. -/
def Rounding.onGrid? (r : Rounding) (g : Int) : Option Nat :=
  let num := Nat.pow 2 r.exponent.toNat * Nat.pow 10 (-g).toNat
  let den := Nat.pow 2 (-r.exponent).toNat * Nat.pow 10 g.toNat
  let reads (c : Nat) : Bool :=
    if r.closed then decide (r.low * num ≤ c * den) && decide (c * den ≤ r.high * num)
    else decide (r.low * num < c * den) && decide (c * den < r.high * num)
  let below := r.mid * num / den
  let above := below + 1
  match reads below, reads above with
  | true, true => if r.mid * num - below * den < above * den - r.mid * num then some below else some above
  | true, false => some below
  | false, true => some above
  | false, false => none

/-- Decimal places in front of the point: the least `k` with the number below `10 ^ k`.  Every number of the two formats
is above `10 ^ (-400)`. -/
def Rounding.places (r : Rounding) : Int :=
  let scaled := r.mid * Nat.pow 2 r.exponent.toNat * Nat.pow 10 400 / Nat.pow 2 (-r.exponent).toNat
  ((Nat.toDigits 10 scaled).length : Int) - 400

def Rounding.search (r : Rounding) (places : Int) : (fuel n : Nat) → Decimal
  | 0, n => ⟨(r.onGrid? (places - n)).getD 0, places - n⟩
  | fuel + 1, n =>
    match r.onGrid? (places - n) with
    | some c => ⟨c, places - n⟩
    | none => r.search places fuel (n + 1)

/-- The shortest decimal of `mantissa · 2 ^ exponent`; seventeen digits always suffice. -/
def shortest (mantissa : Nat) (exponent : Int) (narrow : Bool) : Decimal :=
  let r := Rounding.of mantissa exponent narrow
  r.search r.places 16 1

def trimZeros (cs : List Char) : List Char := (cs.reverse.dropWhile (· == '0')).reverse

/-- Positional text: zeros up to the point, no fraction when it is zero. -/
def render (d : Decimal) : String :=
  let shift := (-d.exponent).toNat
  let padded := Digits.padded 10 (shift + 1) d.digits
  let whole := padded.take (padded.length - shift) ++ List.replicate d.exponent.toNat '0'
  let fraction := trimZeros (padded.drop (padded.length - shift))
  if fraction.isEmpty then String.ofList whole else String.ofList (whole ++ '.' :: fraction)

end Decimal

/-- Decimal text of a magnitude under a sign; a not-a-number has none. -/
def Magnitude.render (negative : Bool) : Magnitude → String
  | .nan => "NaN"
  | .infinite => if negative then "-inf" else "inf"
  | .zero => if negative then "-0" else "0"
  | .finite m q narrow => (if negative then "-" else "") ++ (Decimal.shortest m q narrow).render

def Binary32.render (x : Binary32) : String := x.magnitude.render x.isNegative

def Binary64.render (x : Binary64) : String := x.magnitude.render x.isNegative

end Retrace
