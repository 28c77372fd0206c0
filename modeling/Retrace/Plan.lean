import Retrace.Fault
import Retrace.Shape
/-!
# Construction plans

How a solved value is rebuilt by statements of a test: null needs none, a constant is one literal, an object is made by
its constructor without arguments and then filled field by field, and the value of a static field is built and then
stored.  Arrays have no plan.
-/
namespace Retrace

/-- The literal that stands for a constant; null has none. -/
def Constant.toLiteral : Constant → Except Fault Literal
  | .null => .error (.unplannable .nullLiteral)
  | .scalar s => .ok (.scalar s)
  | .method m => .ok (.method m.ref)

inductive Plan where
  | null (ty : Ty)
  | literal (ty : Ty) (value : Literal)
  | object (ty : Ty) (constructor : MethodRef) (fields : List (FieldRef × Plan))
  | staticField (field : FieldRef) (value : Plan)

namespace Plan

def ty : Plan → Ty
  | .null ty | .literal ty _ | .object ty _ _ => ty
  | .staticField field _ => field.ty

mutual

def statements : Plan → Nat
  | .null _ => 0
  | .literal _ _ => 1
  | .object _ _ fields => 1 + statementsOfFields fields
  | .staticField _ value => value.statements + 1

def statementsOfFields : List (FieldRef × Plan) → Nat
  | [] => 0
  | (_, value) :: rest => value.statements + 1 + statementsOfFields rest

end

def defaultConstructor (owner : Class) : MethodRef := ⟨owner.name, Method.constructorName, ⟨[], .void⟩⟩

mutual

/-- The plan of a solved value.  A field that is given as static has to be one; this is checked before its value. -/
def ofShape : Shape → Except Fault Plan
  | .null ty => .ok (.null ty)
  | .constant .null => .ok (.null .root)
  | .constant value => (value.toLiteral).map (.literal value.ty)
  | .object owner fields => (ofFields fields).map (.object owner.ty (defaultConstructor owner))
  | .staticField field value =>
    if field.isStatic then (ofShape value).map (.staticField field)
    else .error (.unplannable (.notStatic field))
  | .array element _ => .error (.unplannable (.array element))

def ofFields : List (FieldRef × Shape) → Except Fault (List (FieldRef × Plan))
  | [] => .ok []
  | (field, value) :: rest =>
    match ofShape value with
    | .error e => .error e
    | .ok plan => (ofFields rest).map ((field, plan) :: ·)

end

mutual

/-- Equality by value: floating-point payloads compare as numbers. -/
def sameValue : Plan → Plan → Bool
  | .null s, .null t => s == t
  | .literal s a, .literal t b => s == t && a.sameValue b
  | .object s c fs, .object t d gs => s == t && c == d && sameFields fs gs
  | .staticField f a, .staticField g b => f == g && a.sameValue b
  | _, _ => false

def sameFields : List (FieldRef × Plan) → List (FieldRef × Plan) → Bool
  | [], [] => true
  | (f, a) :: fs, (g, b) :: gs => f == g && a.sameValue b && sameFields fs gs
  | _, _ => false

end

end Plan

end Retrace
