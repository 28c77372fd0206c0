/-!
# Operators

A test writes one of nineteen operators.  Each is either arithmetic or relational and means one opcode; the two
conditional connectives mean the same opcodes as their strict counterparts.
-/
namespace Retrace

inductive ArithOp where
  | add | sub | mul | div | rem | shl | shr | ushr | and | or | xor
  deriving DecidableEq

def ArithOp.symbol : ArithOp → String
  | .add => "+"
  | .sub => "-"
  | .mul => "*"
  | .div => "/"
  | .rem => "%"
  | .shl => "<<"
  | .shr => ">>"
  | .ushr => ">>>"
  | .and => "&"
  | .or => "|"
  | .xor => "^"

inductive RelOp where
  | eq | ne | lt | gt | le | ge
  deriving DecidableEq

def RelOp.symbol : RelOp → String
  | .eq => "=="
  | .ne => "!="
  | .lt => "<"
  | .gt => ">"
  | .le => "<="
  | .ge => ">="

inductive Opcode where
  | arith (op : ArithOp)
  | rel (op : RelOp)
  deriving DecidableEq

def Opcode.symbol : Opcode → String
  | .arith op => op.symbol
  | .rel op => op.symbol

/-- Operators of an expression, as a test writes them. -/
inductive Operator where
  | times | divide | remainder | plus | minus
  | leftShift | rightShiftSigned | rightShiftUnsigned
  | xor | and | conditionalAnd | or | conditionalOr
  | less | greater | lessEquals | greaterEquals | equals | notEquals
  deriving DecidableEq

namespace Operator

/-- Every operator, in the order of their declaration. -/
def all : List Operator :=
  [.times, .divide, .remainder, .plus, .minus, .leftShift, .rightShiftSigned, .rightShiftUnsigned, .xor, .and,
   .conditionalAnd, .or, .conditionalOr, .less, .greater, .lessEquals, .greaterEquals, .equals, .notEquals]

def index (op : Operator) : Nat := all.idxOf op

def symbol : Operator → String
  | .times => "*"
  | .divide => "/"
  | .remainder => "%"
  | .plus => "+"
  | .minus => "-"
  | .leftShift => "<<"
  | .rightShiftSigned => ">>"
  | .rightShiftUnsigned => ">>>"
  | .xor => "^"
  | .and => "&"
  | .conditionalAnd => "&&"
  | .or => "|"
  | .conditionalOr => "||"
  | .less => "<"
  | .greater => ">"
  | .lessEquals => "<="
  | .greaterEquals => ">="
  | .equals => "=="
  | .notEquals => "!="

def opcode : Operator → Opcode
  | .times => .arith .mul
  | .divide => .arith .div
  | .remainder => .arith .rem
  | .plus => .arith .add
  | .minus => .arith .sub
  | .leftShift => .arith .shl
  | .rightShiftSigned => .arith .shr
  | .rightShiftUnsigned => .arith .ushr
  | .xor => .arith .xor
  | .and | .conditionalAnd => .arith .and
  | .or | .conditionalOr => .arith .or
  | .less => .rel .lt
  | .greater => .rel .gt
  | .lessEquals => .rel .le
  | .greaterEquals => .rel .ge
  | .equals => .rel .eq
  | .notEquals => .rel .ne

def arith? (op : Operator) : Option ArithOp :=
  match op.opcode with
  | .arith a => some a
  | .rel _ => none

def rel? (op : Operator) : Option RelOp :=
  match op.opcode with
  | .arith _ => none
  | .rel r => some r

end Operator

end Retrace
