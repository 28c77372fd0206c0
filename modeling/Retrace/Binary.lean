/-!
# Floating-point data by bit pattern

A floating-point payload is kept as its bits, so that two payloads are the same exactly when their bits are, and a
not-a-number keeps its payload.  Equality *as numbers* is the separate `sameNumber`: both zeros are one number, and a
not-a-number equals nothing, itself included.

`isNegative` and `magnitude` read the bits as sign and magnitude; the decimal text is in `Retrace.Decimal`.
-/
namespace Retrace

/-- What a bit pattern stands for, its sign apart. -/
inductive Magnitude where
  | nan
  | infinite
  | zero
  /-- The number `mantissa · 2 ^ exponent`.  `narrow` says that the next number below is half as far away as the next
  above: the mantissa is the least of its binade, and a smaller binade exists. -/
  | finite (mantissa : Nat) (exponent : Int) (narrow : Bool)
  deriving DecidableEq

/-- Reads the fields of a binary interchange format with `fraction` bits in the trailing significand, exponent field
`e` of at most `top`, and bias `bias`. -/
def Magnitude.ofFields (fraction top bias e f : Nat) : Magnitude :=
  if e = top then if f = 0 then .infinite else .nan
  else if e = 0 then if f = 0 then .zero else .finite f (1 - (bias + fraction : Nat)) false
  else .finite (Nat.pow 2 fraction + f) ((e : Int) - (bias + fraction : Nat)) (f == 0 && e != 1)

structure Binary32 where
  bits : UInt32
  deriving DecidableEq

namespace Binary32

def isNegative (x : Binary32) : Bool := decide (Nat.pow 2 31 ≤ x.bits.toNat)

def exponent (x : Binary32) : Nat := x.bits.toNat / Nat.pow 2 23 % Nat.pow 2 8

def fraction (x : Binary32) : Nat := x.bits.toNat % Nat.pow 2 23

def magnitude (x : Binary32) : Magnitude :=
  .ofFields 23 255 127 x.exponent x.fraction

def isFinite (x : Binary32) : Bool := x.exponent != 255

def sameNumber (x y : Binary32) : Bool :=
  match x.magnitude, y.magnitude with
  | .nan, _ | _, .nan => false
  | .zero, .zero => true
  | _, _ => x == y

end Binary32

structure Binary64 where
  bits : UInt64
  deriving DecidableEq

namespace Binary64

def isNegative (x : Binary64) : Bool := decide (Nat.pow 2 63 ≤ x.bits.toNat)

def exponent (x : Binary64) : Nat := x.bits.toNat / Nat.pow 2 52 % Nat.pow 2 11

def fraction (x : Binary64) : Nat := x.bits.toNat % Nat.pow 2 52

def magnitude (x : Binary64) : Magnitude :=
  .ofFields 52 2047 1023 x.exponent x.fraction

def isFinite (x : Binary64) : Bool := x.exponent != 2047

def sameNumber (x y : Binary64) : Bool :=
  match x.magnitude, y.magnitude with
  | .nan, _ | _, .nan => false
  | .zero, .zero => true
  | _, _ => x == y

end Binary64

end Retrace
