import Retrace.Codec.Test
import Retrace.Trace
import Retrace.Recorder.Step
/-!
# Serialized traces
-/
namespace Retrace

namespace ArithOp

def name : ArithOp → String
  | .add => "Add"
  | .sub => "Sub"
  | .mul => "Mul"
  | .div => "Div"
  | .rem => "Rem"
  | .shl => "Shl"
  | .shr => "Shr"
  | .ushr => "Ushr"
  | .and => "And"
  | .or => "Or"
  | .xor => "Xor"

def ofName? : String → Option ArithOp
  | "Add" => some .add
  | "Sub" => some .sub
  | "Mul" => some .mul
  | "Div" => some .div
  | "Rem" => some .rem
  | "Shl" => some .shl
  | "Shr" => some .shr
  | "Ushr" => some .ushr
  | "And" => some .and
  | "Or" => some .or
  | "Xor" => some .xor
  | _ => none

instance : Coded ArithOp := ⟨fun op => .str op.name, fun j => (decode j).bind ofName?⟩

end ArithOp

namespace RelOp

def name : RelOp → String
  | .eq => "Eq"
  | .ne => "Neq"
  | .lt => "Lt"
  | .gt => "Gt"
  | .le => "Le"
  | .ge => "Ge"

def ofName? : String → Option RelOp
  | "Eq" => some .eq
  | "Neq" => some .ne
  | "Lt" => some .lt
  | "Gt" => some .gt
  | "Le" => some .le
  | "Ge" => some .ge
  | _ => none

instance : Coded RelOp := ⟨fun op => .str op.name, fun j => (decode j).bind ofName?⟩

end RelOp

namespace CallKind

def name : CallKind → String
  | .static => "Static"
  | .special => "Special"
  | .interface => "Interface"
  | .virtual => "Virtual"

def ofName? : String → Option CallKind
  | "Static" => some .static
  | "Special" => some .special
  | "Interface" => some .interface
  | "Virtual" => some .virtual
  | _ => none

instance : Coded CallKind := ⟨fun kind => .str kind.name, fun j => (decode j).bind ofName?⟩

end CallKind

instance : Coded Dispatch where
  encode d := .obj [("kind", encode d.kind), ("is_void", encode d.isVoid)]
  decode j := do
    let kind ← j.get "kind"
    let isVoid ← j.get "is_void"
    return { kind, isVoid }

instance : Coded Constant where
  encode
    | .null => .str "Null"
    | .scalar v => v.encode
    | .method m => .tagged "Method" (encode m)
  decode
    | .str "Null" => some .null
    | j =>
      match j.tagged? with
      | some ("Method", p) => (decode p).map .method
      | some (tag, p) => (Scalar.decodeTagged tag p).map .scalar
      | none => none

instance : Coded Value where
  encode
    | .constant c => .tagged "Constant" (encode c)
    | .named name ty => .tagged "Named" (.obj [("name", encode name), ("ty", encode ty)])
  decode j :=
    match j.tagged? with
    | some ("Constant", p) => (decode p).map .constant
    | some ("Named", p) => do
      let name ← p.get "name"
      let ty ← p.get "ty"
      return .named name ty
    | _ => none

instance : Coded Handle := ⟨fun h => encode h.index, fun j => (decode j).map Handle.mk⟩

namespace Instruction

def encode : Instruction → Json
  | .fieldLoad name field owner => .tagged "FieldLoad" (.obj
      [("name", Coded.encode name), ("field", Coded.encode field), ("owner", Coded.encode owner)])
  | .fieldStore field owner value => .tagged "FieldStore" (.obj
      [("field", Coded.encode field), ("owner", Coded.encode owner), ("value", Coded.encode value)])
  | .arith name op lhs rhs => .tagged "Binary" (.obj
      [("name", Coded.encode name), ("opcode", Coded.encode op), ("lhv", Coded.encode lhs), ("rhv", Coded.encode rhs)])
  | .compare name ty op lhs rhs => .tagged "Cmp" (.obj
      [("name", Coded.encode name), ("ty", Coded.encode ty), ("opcode", Coded.encode op), ("lhv", Coded.encode lhs),
       ("rhv", Coded.encode rhs)])
  | .call kind method name receiver args => .tagged "Call" (.obj
      [("kind", Coded.encode kind), ("method", Coded.encode method), ("name", Coded.encode name),
       ("callee", Coded.encode receiver), ("args", Coded.encode args)])
  | .branch label => .tagged "Branch" (.obj [("label", Coded.encode label)])

def decodeTagged : String → Json → Option Instruction
  | "FieldLoad", p => do
    let name ← p.get "name"
    let field ← p.get "field"
    let owner ← p.optional "owner"
    return .fieldLoad name field owner
  | "FieldStore", p => do
    let field ← p.get "field"
    let owner ← p.optional "owner"
    let value ← p.get "value"
    return .fieldStore field owner value
  | "Binary", p => do
    let name ← p.get "name"
    let op ← p.get "opcode"
    let lhs ← p.get "lhv"
    let rhs ← p.get "rhv"
    return .arith name op lhs rhs
  | "Cmp", p => do
    let name ← p.get "name"
    let ty ← p.get "ty"
    let op ← p.get "opcode"
    let lhs ← p.get "lhv"
    let rhs ← p.get "rhv"
    return .compare name ty op lhs rhs
  | "Call", p => do
    let kind ← p.get "kind"
    let method ← p.get "method"
    let name ← p.optional "name"
    let receiver ← p.optional "callee"
    let args ← p.get "args"
    return .call kind method name receiver args
  | "Branch", p => do
    let label ← p.get "label"
    return .branch label
  | _, _ => none

instance : Coded Instruction := ⟨encode, fun j => j.tagged?.bind fun (tag, p) => decodeTagged tag p⟩

end Instruction

namespace Term

mutual

def encode : Term → Json
  | .const value => .tagged "Const" (Coded.encode value)
  | .var ty name => .tagged "Value" (.obj [("ty", Coded.encode ty), ("name", Coded.encode name)])
  | .staticOf owner => .tagged "StaticRef" (Coded.encode owner)
  | .field owner ty name => .tagged "Field" (.obj
      [("owner", owner.encode), ("ty", Coded.encode ty), ("name", Coded.encode name)])
  | .load place => .tagged "Load" place.encode
  | .arith op lhs rhs => .tagged "Binary" (.obj
      [("opcode", Coded.encode op), ("lhv", lhs.encode), ("rhv", rhs.encode)])
  | .compare op lhs rhs => .tagged "Cmp" (.obj
      [("opcode", Coded.encode op), ("lhv", lhs.encode), ("rhv", rhs.encode)])
  | .call owner method args => .tagged "Call" (.obj
      [("owner", owner.encode), ("method", Coded.encode method), ("args", .arr (encodeAll args))])

def encodeAll : List Term → List Json
  | [] => []
  | t :: ts => t.encode :: encodeAll ts

end

/-- Reads an alternative and its payload, given how to read the terms in it. -/
def decodeTagged (nested : Json → Option Term) : String → Json → Option Term
  | "Const", p => (decode p).map .const
  | "Value", p => do
    let ty ← p.get "ty"
    let name ← p.get "name"
    return .var ty name
  | "StaticRef", p => (decode p).map .staticOf
  | "Field", p => do
    let owner ← (p.field? "owner").bind nested
    let ty ← p.get "ty"
    let name ← p.get "name"
    return .field owner ty name
  | "Load", p => (nested p).map .load
  | "Binary", p => do
    let op ← p.get "opcode"
    let lhs ← (p.field? "lhv").bind nested
    let rhs ← (p.field? "rhv").bind nested
    return .arith op lhs rhs
  | "Cmp", p => do
    let op ← p.get "opcode"
    let lhs ← (p.field? "lhv").bind nested
    let rhs ← (p.field? "rhv").bind nested
    return .compare op lhs rhs
  | "Call", p => do
    let owner ← (p.field? "owner").bind nested
    let method ← p.get "method"
    let items ← (p.field? "args").bind Json.items?
    let args ← items.mapM nested
    return .call owner method args
  | _, _ => none

def decodeWithin : (n : Nat) → Json → Option Term
  | 0, _ => none
  | n + 1, j => j.tagged?.bind fun (tag, p) => decodeTagged (decodeWithin n) tag p

instance : Coded Term := ⟨encode, fun j => decodeWithin j.depth j⟩

end Term

namespace Predicate

def encode : Predicate → Json
  | .equal lhs rhs => .tagged "Equality" (.obj [("lhv", Coded.encode lhs), ("rhv", Coded.encode rhs)])
  | .store field value => .tagged "FieldStore" (.obj [("field", Coded.encode field), ("value", Coded.encode value)])
  | .call result applied => .tagged "Call" (.obj [("lhv", Coded.encode result), ("call", Coded.encode applied)])
  | .path condition holds => .tagged "Path" (.obj [("cond", Coded.encode condition), ("holds", Coded.encode holds)])

def decodeTagged : String → Json → Option Predicate
  | "Equality", p => do
    let lhs ← p.get "lhv"
    let rhs ← p.get "rhv"
    return .equal lhs rhs
  | "FieldStore", p => do
    let field ← p.get "field"
    let value ← p.get "value"
    return .store field value
  | "Call", p => do
    let result ← p.optional "lhv"
    let applied ← p.get "call"
    return .call result applied
  | "Path", p => do
    let condition ← p.get "cond"
    let holds ← p.get "holds"
    return .path condition holds
  | _, _ => none

instance : Coded Predicate := ⟨encode, fun j => j.tagged?.bind fun (tag, p) => decodeTagged tag p⟩

end Predicate

instance : Coded Clause where
  encode c := .obj [("instruction", encode c.instruction), ("predicate", encode c.predicate)]
  decode j := do
    let instruction ← j.get "instruction"
    let predicate ← j.get "predicate"
    return { instruction, predicate }

namespace Trace

/-- A trace is a record around its clauses. -/
def encode (t : Trace) : Json := .obj [("clauses", .arr (t.map Coded.encode))]

def decode (j : Json) : Option Trace := do
  let items ← (j.field? "clauses").bind Json.items?
  items.mapM Coded.decode

end Trace

instance : Coded CallSite where
  encode s := .obj [("position", encode s.position), ("method", encode s.method)]
  decode j := do
    let position ← j.get "position"
    let method ← j.get "method"
    return { position, method }

namespace Trace

def encodeEntry (entry : CallSite × Trace) : Json := .arr [Coded.encode entry.1, entry.2.encode]

def decodeEntry : Json → Option (CallSite × Trace)
  | .arr [s, t] => do
    let site ← Coded.decode s
    let trace ← decode t
    return (site, trace)
  | _ => none

def encodeAll (entries : List (CallSite × Trace)) : Json := .arr (entries.map encodeEntry)

def decodeAll (j : Json) : Option (List (CallSite × Trace)) := j.items?.bind fun items => items.mapM decodeEntry

end Trace

end Retrace
