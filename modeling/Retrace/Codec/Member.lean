import Retrace.Codec.Basic
import Retrace.Member
/-!
# Serialized types and members
-/
namespace Retrace

namespace Ty

def encode : Ty → Json
  | .void => .str "Void"
  | .bool => .str "Bool"
  | .byte => .str "Byte"
  | .char => .str "Char"
  | .short => .str "Short"
  | .int => .str "Int"
  | .long => .str "Long"
  | .float => .str "Float"
  | .double => .str "Double"
  | .object name => .tagged "Class" (.str name)
  | .array element => .tagged "Array" element.encode

/-- Types without a payload, by name. -/
def ofName? : String → Option Ty
  | "Void" => some .void
  | "Bool" => some .bool
  | "Byte" => some .byte
  | "Char" => some .char
  | "Short" => some .short
  | "Int" => some .int
  | "Long" => some .long
  | "Float" => some .float
  | "Double" => some .double
  | _ => none

/-- Reads a type nested at most `n` deep. -/
def decodeWithin : (n : Nat) → Json → Option Ty
  | 0, _ => none
  | _ + 1, .str s => ofName? s
  | n + 1, j =>
    match j.tagged? with
    | some ("Class", p) => (decode p).map .object
    | some ("Array", p) => (decodeWithin n p).map .array
    | _ => none

instance : Coded Ty := ⟨encode, fun j => decodeWithin j.depth j⟩

end Ty

instance : Coded Class where
  encode c := .obj [("name", encode c.name), ("is_interface", encode c.isInterface)]
  decode j := do
    let name ← j.get "name"
    let isInterface ← j.get "is_interface"
    return { name, isInterface }

instance : Coded Signature where
  encode s := .obj [("params", encode s.params), ("ret", encode s.ret)]
  decode j := do
    let params ← j.get "params"
    let ret ← j.get "ret"
    return { params, ret }

instance : Coded MethodRef where
  encode m := .obj [("owner", encode m.owner), ("name", encode m.name), ("desc", encode m.sig)]
  decode j := do
    let owner ← j.get "owner"
    let name ← j.get "name"
    let sig ← j.get "desc"
    return { owner, name, sig }

instance : Coded FieldRef where
  encode f := .obj [("owner", encode f.owner), ("name", encode f.name), ("ty", encode f.ty),
    ("is_static", encode f.isStatic)]
  decode j := do
    let owner ← j.get "owner"
    let name ← j.get "name"
    let ty ← j.get "ty"
    let isStatic ← j.get "is_static"
    return { owner, name, ty, isStatic }

instance : Coded Method where
  encode m := .obj [("class", encode m.owner), ("name", encode m.name), ("desc", encode m.sig),
    ("is_static", encode m.isStatic)]
  decode j := do
    let owner ← j.get "class"
    let name ← j.get "name"
    let sig ← j.get "desc"
    let isStatic ← j.get "is_static"
    return { owner, name, sig, isStatic }

instance : Coded Field where
  encode f := .obj [("class", encode f.owner), ("name", encode f.name), ("ty", encode f.ty),
    ("is_static", encode f.isStatic)]
  decode j := do
    let owner ← j.get "class"
    let name ← j.get "name"
    let ty ← j.get "ty"
    let isStatic ← j.get "is_static"
    return { owner, name, ty, isStatic }

end Retrace
