import Retrace.Codec.Member
import Retrace.Action
/-!
# Serialized tests
-/
namespace Retrace

namespace Scalar

def encode : Scalar → Json
  | .bool v => .tagged "Bool" (Coded.encode v)
  | .byte v => .tagged "Byte" (Coded.encode v)
  | .char v => .tagged "Char" (Coded.encode v)
  | .short v => .tagged "Short" (Coded.encode v)
  | .int v => .tagged "Int" (Coded.encode v)
  | .long v => .tagged "Long" (Coded.encode v)
  | .float v => .tagged "Float" (Coded.encode v)
  | .double v => .tagged "Double" (Coded.encode v)
  | .string v => .tagged "String" (Coded.encode v)
  | .classOf ty => .tagged "Class" (Coded.encode ty)

def decodeTagged : String → Json → Option Scalar
  | "Bool", p => (decode p).map .bool
  | "Byte", p => (decode p).map .byte
  | "Char", p => (decode p).map .char
  | "Short", p => (decode p).map .short
  | "Int", p => (decode p).map .int
  | "Long", p => (decode p).map .long
  | "Float", p => (decode p).map .float
  | "Double", p => (decode p).map .double
  | "String", p => (decode p).map .string
  | "Class", p => (decode p).map .classOf
  | _, _ => none

end Scalar

instance : Coded Literal where
  encode
    | .scalar v => v.encode
    | .method ref => .tagged "Method" (encode ref)
    | .other description => .tagged "Other" (encode description)
  decode j :=
    match j.tagged? with
    | some ("Method", p) => (decode p).map .method
    | some ("Other", p) => (decode p).map .other
    | some (tag, p) => (Scalar.decodeTagged tag p).map .scalar
    | none => none

instance : Coded RefId := ⟨fun id => encode id.val, fun j => (decode j).map RefId.mk⟩

namespace Reference

/-- The record of a reference: id, type and what kind it is of. -/
def record (id : RefId) (ty : Ty) (kind : Json) : Json := .obj [("id", encode id), ("ty", encode ty), ("kind", kind)]

def encode : Reference → Json
  | .var id ty => record id ty (.str "Variable")
  | .null id ty => record id ty (.str "Null")
  | .array id ty => record id ty (.str "Array")
  | .constant id ty value => record id ty (.tagged "Constant" (Coded.encode value))
  | .staticField id ty field =>
    record id ty (.tagged "Field" (.obj [("source", .null), ("field", Coded.encode field)]))
  | .instanceField id ty source field =>
    record id ty (.tagged "Field" (.obj [("source", source.encode), ("field", Coded.encode field)]))
  | .element id ty base index =>
    record id ty (.tagged "ArrayIndex" (.obj [("array", base.encode), ("index", Coded.encode index)]))

/-- Reads what kind a reference is of, given how to read the references in it. -/
def decodeKind (nested : Json → Option Reference) (id : RefId) (ty : Ty) : Json → Option Reference
  | .str "Variable" => some (.var id ty)
  | .str "Null" => some (.null id ty)
  | .str "Array" => some (.array id ty)
  | j =>
    match j.tagged? with
    | some ("Constant", p) => (decode p).map (.constant id ty)
    | some ("Field", p) => do
      let source ← p.optionalBy nested "source"
      let field ← p.get "field"
      match source with
      | none => return .staticField id ty field
      | some source => return .instanceField id ty source field
    | some ("ArrayIndex", p) => do
      let base ← (p.field? "array").bind nested
      let index ← p.get "index"
      return .element id ty base index
    | _ => none

def decodeWithin : (n : Nat) → Json → Option Reference
  | 0, _ => none
  | n + 1, j => do
    let id ← j.get "id"
    let ty ← j.get "ty"
    let kind ← j.field? "kind"
    decodeKind (decodeWithin n) id ty kind

instance : Coded Reference := ⟨encode, fun j => decodeWithin j.depth j⟩

end Reference

namespace Operator

def name : Operator → String
  | .times => "Times"
  | .divide => "Divide"
  | .remainder => "Remainder"
  | .plus => "Plus"
  | .minus => "Minus"
  | .leftShift => "LeftShift"
  | .rightShiftSigned => "RightShiftSigned"
  | .rightShiftUnsigned => "RightShiftUnsigned"
  | .xor => "Xor"
  | .and => "And"
  | .conditionalAnd => "ConditionalAnd"
  | .or => "Or"
  | .conditionalOr => "ConditionalOr"
  | .less => "Less"
  | .greater => "Greater"
  | .lessEquals => "LessEquals"
  | .greaterEquals => "GreaterEquals"
  | .equals => "Equals"
  | .notEquals => "NotEquals"

instance : Coded Operator where
  encode op := .str op.name
  decode
    | .str s => all.find? (·.name == s)
    | _ => none

end Operator

instance : Coded Thrown where
  encode t := .obj [("exception", encode t.exception), ("message", encode t.message)]
  decode j := do
    let exception ← j.get "exception"
    let message ← j.get "message"
    return { exception, message }

namespace Action

def encode : Action → Json
  | .fieldRead result source field => .tagged "FieldRead" (.obj
      [("result", Coded.encode result), ("source", Coded.encode source), ("field", Coded.encode field)])
  | .assign target value => .tagged "Assignment" (.obj
      [("target", Coded.encode target), ("value", Coded.encode value)])
  | .compute result lhs op rhs => .tagged "Expression" (.obj
      [("result", Coded.encode result), ("lhv", Coded.encode lhs), ("op", Coded.encode op), ("rhv", Coded.encode rhs)])
  | .literal result value => .tagged "Literal" (.obj
      [("result", Coded.encode result), ("value", Coded.encode value)])
  | .call result receiver method args => .tagged "Call" (.obj
      [("result", Coded.encode result), ("callee", Coded.encode receiver), ("method", Coded.encode method),
       ("args", Coded.encode args)])
  | .construct result constructor args => .tagged "Constructor" (.obj
      [("result", Coded.encode result), ("constructor", Coded.encode constructor), ("args", Coded.encode args)])
  | .newArray result length => .tagged "ArrayAccess" (.obj
      [("result", Coded.encode result), ("length", Coded.encode length)])
  | .mock result target => .tagged "Mock" (.obj
      [("result", Coded.encode result), ("target", Coded.encode target)])

def decodeTagged : String → Json → Option Action
  | "FieldRead", p => do
    let result ← p.get "result"
    let source ← p.optional "source"
    let field ← p.get "field"
    return .fieldRead result source field
  | "Assignment", p => do
    let target ← p.get "target"
    let value ← p.get "value"
    return .assign target value
  | "Expression", p => do
    let result ← p.get "result"
    let lhs ← p.get "lhv"
    let op ← p.get "op"
    let rhs ← p.get "rhv"
    return .compute result lhs op rhs
  | "Literal", p => do
    let result ← p.get "result"
    let value ← p.get "value"
    return .literal result value
  | "Call", p => do
    let result ← p.get "result"
    let receiver ← p.optional "callee"
    let method ← p.get "method"
    let args ← p.get "args"
    return .call result receiver method args
  | "Constructor", p => do
    let result ← p.get "result"
    let constructor ← p.get "constructor"
    let args ← p.get "args"
    return .construct result constructor args
  | "ArrayAccess", p => do
    let result ← p.get "result"
    let length ← p.get "length"
    return .newArray result length
  | "Mock", p => do
    let result ← p.get "result"
    let target ← p.get "target"
    return .mock result target
  | _, _ => none

instance : Coded Action := ⟨encode, fun j => j.tagged?.bind fun (tag, p) => decodeTagged tag p⟩

end Action

instance : Coded Test where
  encode t := .obj [("actions", encode t.actions), ("next_ref", encode t.nextRef)]
  decode j := do
    let actions ← j.get "actions"
    let nextRef ← j.get "next_ref"
    return { actions, nextRef }

end Retrace
