import Retrace.Value
/-!
# Solved values

What a solver found for one input of a call: null, a constant, an object with the values of some of its fields, an
array, or the value of a static field.  One call is fed by its receiver, its arguments and the static state that it
depends on, in this order (`Inputs`).
-/
namespace Retrace

inductive Shape where
  | null (ty : Ty)
  | constant (value : Constant)
  | object (owner : Class) (fields : List (FieldRef × Shape))
  | array (element : Ty) (elements : List Shape)
  | staticField (field : FieldRef) (value : Shape)

namespace Shape

def ty : Shape → Ty
  | .null ty => ty
  | .constant value => value.ty
  | .object owner _ => owner.ty
  | .array element _ => .array element
  | .staticField field _ => field.ty

/-- Adds the value of a field to an object; anything else has no fields and stays as it is. -/
def withField (s : Shape) (f : FieldRef) (value : Shape) : Shape :=
  match s with
  | .object owner fields => .object owner (fields ++ [(f, value)])
  | other => other

mutual

def render : Shape → String
  | .null _ => "null"
  | .constant value => value.render
  | .object owner fields => owner.name ++ " \x7b" ++ commaSeparated (renderFields fields) ++ "\x7d"
  | .array element elements => element.render ++ "[] [" ++ commaSeparated (renderAll elements) ++ "]"
  | .staticField field value => field.render ++ " = " ++ value.render

def renderFields : List (FieldRef × Shape) → List String
  | [] => []
  | (field, value) :: rest => (field.name ++ " = " ++ value.render) :: renderFields rest

def renderAll : List Shape → List String
  | [] => []
  | s :: rest => s.render :: renderAll rest

end

mutual

def same : Shape → Shape → Bool
  | .null s, .null t => s == t
  | .constant a, .constant b => a == b
  | .object c fs, .object d gs => c == d && sameFields fs gs
  | .array s as, .array t bs => s == t && sameAll as bs
  | .staticField f a, .staticField g b => f == g && a.same b
  | _, _ => false

def sameFields : List (FieldRef × Shape) → List (FieldRef × Shape) → Bool
  | [], [] => true
  | (f, a) :: fs, (g, b) :: gs => f == g && a.same b && sameFields fs gs
  | _, _ => false

def sameAll : List Shape → List Shape → Bool
  | [], [] => true
  | a :: as, b :: bs => a.same b && sameAll as bs
  | _, _ => false

end

mutual

theorem same_iff : ∀ a b : Shape, a.same b = true ↔ a = b
  | .null s, b => by cases b <;> simp [same]
  | .constant a, b => by cases b <;> simp [same]
  | .object c fs, b => by cases b <;> simp [same, sameFields_iff fs]
  | .array s as, b => by cases b <;> simp [same, sameAll_iff as]
  | .staticField f a, b => by cases b <;> simp [same, same_iff a]

theorem sameFields_iff : ∀ as bs : List (FieldRef × Shape), sameFields as bs = true ↔ as = bs
  | [], bs => by cases bs <;> simp [sameFields]
  | (f, a) :: as, bs => by
    cases bs with
    | nil => simp [sameFields]
    | cons p bs => obtain ⟨g, b⟩ := p; simp [sameFields, same_iff a, sameFields_iff as]

theorem sameAll_iff : ∀ as bs : List Shape, sameAll as bs = true ↔ as = bs
  | [], bs => by cases bs <;> simp [sameAll]
  | a :: as, bs => by cases bs <;> simp [sameAll, same_iff a, sameAll_iff as]

end

instance : DecidableEq Shape := fun a b => decidable_of_iff _ (same_iff a b)

end Shape

/-! ## Inputs of a call -/

/-- Receiver, arguments and static state of a call. -/
structure Inputs (α : Type) where
  receiver : Option α := none
  arguments : List α := []
  statics : List α := []
  deriving DecidableEq

namespace Inputs

variable {α β : Type}

/-- The receiver first, then the arguments, then the static state. -/
def toList (p : Inputs α) : List α := p.receiver.toList ++ p.arguments ++ p.statics

/-- Runs an effect on every input in order and keeps the shape. -/
def mapM {m : Type → Type} [Monad m] (f : α → m β) (p : Inputs α) : m (Inputs β) := do
  let receiver ← match p.receiver with
    | some a => do
      let b ← f a
      pure (some b)
    | none => pure none
  let arguments ← p.arguments.mapM f
  let statics ← p.statics.mapM f
  return ⟨receiver, arguments, statics⟩

end Inputs

end Retrace
