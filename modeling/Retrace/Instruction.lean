import Retrace.Operator
import Retrace.Value
/-!
# Instructions

The low-level operation an action comes down to, with its operands by handle.  How a call reaches its method is
settled by the method's modifiers alone (`CallKind`); the rule that picks it is `Dispatch.select`.
-/
namespace Retrace

inductive CallKind where
  | static | special | interface | virtual
  deriving DecidableEq

/-- Every kind but the static one calls on a receiver. -/
def CallKind.needsReceiver : CallKind → Bool
  | .static => false
  | _ => true

def CallKind.render : CallKind → String
  | .static => "static"
  | .special => "special"
  | .interface => "interface"
  | .virtual => "virtual"

inductive Instruction where
  /-- Reads a field of `owner`, or a static field when there is none. -/
  | fieldLoad (name : String) (field : Field) (owner : Option Handle)
  | fieldStore (field : Field) (owner : Option Handle) (value : Handle)
  | arith (name : String) (op : ArithOp) (lhs rhs : Handle)
  | compare (name : String) (ty : Ty) (op : RelOp) (lhs rhs : Handle)
  /-- A call; it has a name iff it returns a value. -/
  | call (kind : CallKind) (method : Method) (name : Option String) (receiver : Option Handle) (args : List Handle)
  /-- A branch taken inside instrumented code. -/
  | branch (label : String)
  deriving DecidableEq

namespace Instruction

def defined? : Instruction → Option String
  | .fieldLoad name _ _ | .arith name _ _ _ | .compare name _ _ _ _ => some name
  | .call _ _ name _ _ => name
  | .fieldStore _ _ _ | .branch _ => none

def callKind? : Instruction → Option CallKind
  | .call kind _ _ _ _ => some kind
  | _ => none

def renderMember (owner : Option Handle) (owningClass : Class) (member : String) : String :=
  match owner with
  | some handle => handle.render ++ "." ++ member
  | none => owningClass.name ++ "." ++ member

def render : Instruction → String
  | .fieldLoad name field owner => name ++ " = load " ++ renderMember owner field.owner field.name
  | .fieldStore field owner value => "store " ++ renderMember owner field.owner field.name ++ " = " ++ value.render
  | .arith name op lhs rhs => name ++ " = " ++ lhs.render ++ " " ++ op.symbol ++ " " ++ rhs.render
  | .compare name ty op lhs rhs =>
    name ++ ": " ++ ty.render ++ " = " ++ lhs.render ++ " " ++ op.symbol ++ " " ++ rhs.render
  | .call kind method name receiver args =>
    let call := "call" ++ kind.render ++ " " ++ renderMember receiver method.owner method.name ++
      "(" ++ commaSeparated (args.map Handle.render) ++ ")"
    match name with
    | some name => name ++ " = " ++ call
    | none => call
  | .branch label => "branch " ++ label

end Instruction

end Retrace
