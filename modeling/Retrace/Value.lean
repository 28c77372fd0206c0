import Retrace.Scalar
/-!
# Constants and simulated values

While a test is recorded, each value it handles is simulated: either a known constant or a named unknown of some type.
The recorder keeps simulated values in a table and speaks of them by `Handle`, the place in that table.
-/
namespace Retrace

/-- A value known at recording time.  Floating-point payloads are told apart by their bits. -/
inductive Constant where
  | null
  | scalar (value : Scalar)
  | method (method : Method)
  deriving DecidableEq

namespace Constant

def ty : Constant → Ty
  | .null => .root
  | .scalar value => value.ty
  | .method _ => .methodLiteral

def render : Constant → String
  | .null => "null"
  | .scalar value => value.render
  | .method m => m.render

def isFinite : Constant → Bool
  | .scalar value => value.isFinite
  | _ => true

end Constant

inductive Value where
  | constant (constant : Constant)
  | named (name : String) (ty : Ty)
  deriving DecidableEq

namespace Value

def ty : Value → Ty
  | .constant c => c.ty
  | .named _ ty => ty

/-- The name, or the text of a constant. -/
def name : Value → String
  | .constant c => c.render
  | .named name _ => name

def render : Value → String
  | .constant c => c.render
  | .named name _ => "%" ++ name

end Value

/-- Place of a value in the recorder's table. -/
structure Handle where
  index : UInt32
  deriving DecidableEq

def Handle.render (h : Handle) : String := "#" ++ toString h.index.toNat

end Retrace
