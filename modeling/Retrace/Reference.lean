import Retrace.Scalar
/-!
# References

A reference is how an action speaks of a value: the result of an earlier action, null, an inline constant, a field, an
array or one of its elements.  Every reference carries an id and a declared type; ids tell references of one test
apart.
-/
namespace Retrace

structure RefId where
  val : UInt32
  deriving DecidableEq, Ord

def RefId.render (id : RefId) : String := "v" ++ toString id.val.toNat

/-- A value as an action names it. -/
inductive Reference where
  | var (id : RefId) (ty : Ty)
  | null (id : RefId) (ty : Ty)
  | constant (id : RefId) (ty : Ty) (value : Literal)
  | staticField (id : RefId) (ty : Ty) (field : FieldRef)
  | instanceField (id : RefId) (ty : Ty) (source : Reference) (field : FieldRef)
  | array (id : RefId) (ty : Ty)
  | element (id : RefId) (ty : Ty) (base : Reference) (index : UInt64)
  deriving DecidableEq

namespace Reference

def id : Reference → RefId
  | .var id _ | .null id _ | .constant id _ _ | .staticField id _ _ | .instanceField id _ _ _ | .array id _
  | .element id _ _ _ => id

def ty : Reference → Ty
  | .var _ ty | .null _ ty | .constant _ ty _ | .staticField _ ty _ | .instanceField _ ty _ _ | .array _ ty
  | .element _ ty _ _ => ty

def withId (id : RefId) : Reference → Reference
  | .var _ ty => .var id ty
  | .null _ ty => .null id ty
  | .constant _ ty value => .constant id ty value
  | .staticField _ ty field => .staticField id ty field
  | .instanceField _ ty source field => .instanceField id ty source field
  | .array _ ty => .array id ty
  | .element _ ty base index => .element id ty base index

/-- Name of the value that an action stores in this reference. -/
def name (r : Reference) : String := r.id.render

def render : Reference → String
  | .null _ _ => "null"
  | .constant _ _ value => value.render
  | .staticField _ _ field => field.render
  | .instanceField _ _ source field => source.render ++ "." ++ field.name
  | .element _ _ base index => base.render ++ "[" ++ toString index.toNat ++ "]"
  | .var id _ | .array id _ => id.render

/-- Equality by value: inline floating-point constants compare as numbers. -/
def sameValue : Reference → Reference → Bool
  | .constant i s a, .constant j t b => i == j && s == t && a.sameValue b
  | .instanceField i s a f, .instanceField j t b g => i == j && s == t && a.sameValue b && f == g
  | .element i s a m, .element j t b n => i == j && s == t && a.sameValue b && m == n
  | a, b => a == b

def isFinite : Reference → Bool
  | .constant _ _ value => value.isFinite
  | .instanceField _ _ source _ => source.isFinite
  | .element _ _ base _ => base.isFinite
  | _ => true

@[simp] theorem id_withId (i : RefId) (r : Reference) : (r.withId i).id = i := by cases r <;> rfl

@[simp] theorem ty_withId (i : RefId) (r : Reference) : (r.withId i).ty = r.ty := by cases r <;> rfl

end Reference

end Retrace
