import Retrace.Ty
/-!
# Classes and their members

Two ways to speak of a member.  A `MethodRef` or `FieldRef` is how a test *names* one: the owner's name, the member's
name and its type.  A `Method` or `Field` is the member itself, with the class that declares it.
-/
namespace Retrace

def commaSeparated (items : List String) : String := ", ".intercalate items

structure Class where
  name : String
  isInterface : Bool := false
  deriving DecidableEq, Ord

def Class.ty (c : Class) : Ty := .object c.name

structure Signature where
  params : List Ty
  ret : Ty
  deriving DecidableEq, Ord

def Signature.render (s : Signature) : String :=
  "(" ++ commaSeparated (s.params.map Ty.render) ++ "): " ++ s.ret.render

/-- A method as a test names it. -/
structure MethodRef where
  owner : String
  name : String
  sig : Signature
  deriving DecidableEq

def MethodRef.render (m : MethodRef) : String := m.owner ++ "::" ++ m.name ++ m.sig.render

/-- A field as a test names it. -/
structure FieldRef where
  owner : String
  name : String
  ty : Ty
  isStatic : Bool
  deriving DecidableEq

def FieldRef.render (f : FieldRef) : String := f.owner ++ "." ++ f.name

structure Method where
  owner : Class
  name : String
  sig : Signature
  isStatic : Bool
  deriving DecidableEq, Ord

namespace Method

/-- The name under which every constructor is declared. -/
def constructorName : String := "<init>"

def isConstructor (m : Method) : Bool := m.name == constructorName

def isVoid (m : Method) : Bool := m.sig.ret.isVoid

def ref (m : Method) : MethodRef := ⟨m.owner.name, m.name, m.sig⟩

def render (m : Method) : String := m.ref.render

end Method

structure Field where
  owner : Class
  name : String
  ty : Ty
  isStatic : Bool
  deriving DecidableEq, Ord

def Field.render (f : Field) : String := f.owner.name ++ "." ++ f.name ++ ": " ++ f.ty.render

end Retrace
