/-!
# Declared types of the tested program

A type is void, one of the eight primitives, a class by its full name, or an array.  A class type *is of the kind of*
a primitive when it is that primitive's box, so that a value of either may stand for the other (`Ty.isKindOf`).
-/
namespace Retrace

inductive Ty where
  | void
  | bool
  | byte
  | char
  | short
  | int
  | long
  | float
  | double
  | object (name : String)
  | array (element : Ty)
  deriving DecidableEq

namespace Ty

def rank : Ty → Nat
  | .void => 0
  | .bool => 1
  | .byte => 2
  | .char => 3
  | .short => 4
  | .int => 5
  | .long => 6
  | .float => 7
  | .double => 8
  | .object _ => 9
  | .array _ => 10

/-- The order of types: by kind, then by class name or by element. -/
def order : Ty → Ty → Ordering
  | .object a, .object b => compare a b
  | .array a, .array b => a.order b
  | a, b => compare a.rank b.rank

instance : Ord Ty := ⟨order⟩

def stringClass : String := "java.lang.String"

def literalClass : String := "java.lang.Class"

def methodClass : String := "java.lang.reflect.Method"

def string : Ty := .object stringClass

def classLiteral : Ty := .object literalClass

def methodLiteral : Ty := .object methodClass

/-- Root of the class hierarchy, the type of a bare null. -/
def root : Ty := .object "java.lang.Object"

def isVoid : Ty → Bool
  | .void => true
  | _ => false

def isClassNamed (t : Ty) (name : String) : Bool :=
  match t with
  | .object n => n == name
  | _ => false

def isPrimitive : Ty → Bool
  | .void | .object _ | .array _ => false
  | _ => true

def box? : Ty → Option String
  | .bool => some "java.lang.Boolean"
  | .byte => some "java.lang.Byte"
  | .char => some "java.lang.Character"
  | .short => some "java.lang.Short"
  | .int => some "java.lang.Integer"
  | .long => some "java.lang.Long"
  | .float => some "java.lang.Float"
  | .double => some "java.lang.Double"
  | .void | .object _ | .array _ => none

/-- The type itself, or the box of a primitive. -/
def isKindOf (declared kind : Ty) : Bool :=
  declared == kind ||
    match declared, kind.box? with
    | .object name, some box => name == box
    | _, _ => false

def render : Ty → String
  | .void => "void"
  | .bool => "bool"
  | .byte => "byte"
  | .char => "char"
  | .short => "short"
  | .int => "int"
  | .long => "long"
  | .float => "float"
  | .double => "double"
  | .object name => name
  | .array element => element.render ++ "[]"

@[simp] theorem isKindOf_self (t : Ty) : t.isKindOf t = true := by simp [isKindOf]

/-- A class matches only itself as a kind: it has no box. -/
theorem isKindOf_object (t : Ty) (name : String) : t.isKindOf (.object name) = t.isClassNamed name := by
  rw [Bool.eq_iff_iff]
  cases t <;> simp [isKindOf, isClassNamed, box?]

end Ty

end Retrace
