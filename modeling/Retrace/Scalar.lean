import Retrace.Member
import Retrace.Decimal
/-!
# Scalars and literals

A `Scalar` means the same in a test and in a formula.  A `Literal` is what a test may write down: a scalar, a method
by name, or something the host holds that has no constant.

Structural equality compares floating-point payloads bit for bit; `sameValue` compares them as numbers.
-/
namespace Retrace

inductive Scalar where
  | bool (value : Bool)
  | byte (value : Int8)
  | char (value : Char)
  | short (value : Int16)
  | int (value : Int32)
  | long (value : Int64)
  | float (value : Binary32)
  | double (value : Binary64)
  | string (value : String)
  | classOf (ty : Ty)
  deriving DecidableEq

namespace Scalar

def ty : Scalar → Ty
  | .bool _ => .bool
  | .byte _ => .byte
  | .char _ => .char
  | .short _ => .short
  | .int _ => .int
  | .long _ => .long
  | .float _ => .float
  | .double _ => .double
  | .string _ => .string
  | .classOf _ => .classLiteral

/-- A scalar as it is written in tests and formulas; nothing inside a string is escaped. -/
def render : Scalar → String
  | .bool value => if value then "true" else "false"
  | .byte value => toString value.toInt ++ "b"
  | .char value => "'" ++ value.toString ++ "'"
  | .short value => toString value.toInt ++ "s"
  | .int value => toString value.toInt
  | .long value => toString value.toInt ++ "L"
  | .float value => value.render ++ "f"
  | .double value => value.render
  | .string value => "\"" ++ value ++ "\""
  | .classOf ty => ty.render ++ ".class"

/-- Equality by value: floating-point payloads compare as numbers. -/
def sameValue : Scalar → Scalar → Bool
  | .float x, .float y => x.sameNumber y
  | .double x, .double y => x.sameNumber y
  | a, b => a == b

def isFinite : Scalar → Bool
  | .float x => x.isFinite
  | .double x => x.isFinite
  | _ => true

end Scalar

/-- What a test may write down as a value. -/
inductive Literal where
  | scalar (value : Scalar)
  | method (ref : MethodRef)
  /-- A host object that no constant stands for. -/
  | other (description : String)
  deriving DecidableEq

namespace Literal

def render : Literal → String
  | .scalar value => value.render
  | .method ref => ref.render
  | .other description => "<" ++ description ++ ">"

def sameValue : Literal → Literal → Bool
  | .scalar a, .scalar b => a.sameValue b
  | a, b => a == b

def isFinite : Literal → Bool
  | .scalar value => value.isFinite
  | _ => true

end Literal

end Retrace
