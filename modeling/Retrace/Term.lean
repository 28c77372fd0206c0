import Retrace.Operator
import Retrace.Value
/-!
# Symbolic terms

A term stands for a value of the recorded test: a constant, a named unknown, or an expression over terms.  Names are
drawn from a supply that numbers them, so that no two are equal even for equal bases.
-/
namespace Retrace

/-- A symbolic value. -/
inductive Term where
  | const (value : Constant)
  | var (ty : Ty) (name : String)
  /-- Stands as the owner of a class's static members. -/
  | staticOf (owner : Class)
  | field (owner : Term) (ty : Ty) (name : String)
  | load (place : Term)
  | arith (op : ArithOp) (lhs rhs : Term)
  | compare (op : RelOp) (lhs rhs : Term)
  | call (owner : Term) (method : Method) (args : List Term)

namespace Term

def varName? : Term → Option String
  | .var _ name => some name
  | _ => none

mutual

/-- A term as it is written in predicates; nothing is put in parentheses. -/
def render : Term → String
  | .const value => value.render
  | .var _ name => name
  | .staticOf owner => "static(" ++ owner.name ++ ")"
  | .field owner ty name => owner.render ++ ".field(" ++ ty.render ++ ", \"" ++ name ++ "\")"
  | .load place => place.render ++ ".load()"
  | .arith op lhs rhs => lhs.render ++ " " ++ op.symbol ++ " " ++ rhs.render
  | .compare op lhs rhs => lhs.render ++ " " ++ op.symbol ++ " " ++ rhs.render
  | .call owner method args =>
    owner.render ++ ".call(" ++ method.name ++ ", [" ++ commaSeparated (renderAll args) ++ "])"

def renderAll : List Term → List String
  | [] => []
  | t :: ts => t.render :: renderAll ts

end

@[simp] theorem renderAll_eq_map : ∀ ts : List Term, renderAll ts = ts.map render
  | [] => rfl
  | t :: ts => by simp [renderAll, renderAll_eq_map ts]

mutual

def same : Term → Term → Bool
  | .const a, .const b => a == b
  | .var s a, .var t b => s == t && a == b
  | .staticOf a, .staticOf b => a == b
  | .field o s a, .field p t b => o.same p && s == t && a == b
  | .load a, .load b => a.same b
  | .arith o a b, .arith p c d => o == p && a.same c && b.same d
  | .compare o a b, .compare p c d => o == p && a.same c && b.same d
  | .call o m as, .call p n bs => o.same p && m == n && sameAll as bs
  | _, _ => false

def sameAll : List Term → List Term → Bool
  | [], [] => true
  | a :: as, b :: bs => a.same b && sameAll as bs
  | _, _ => false

end

mutual

theorem same_iff : ∀ a b : Term, a.same b = true ↔ a = b
  | .const a, b => by cases b <;> simp [same]
  | .var s a, b => by cases b <;> simp [same]
  | .staticOf a, b => by cases b <;> simp [same]
  | .field o s a, b => by cases b <;> simp [same, same_iff o, and_assoc]
  | .load a, b => by cases b <;> simp [same, same_iff a]
  | .arith o x y, b => by cases b <;> simp [same, same_iff x, same_iff y, and_assoc]
  | .compare o x y, b => by cases b <;> simp [same, same_iff x, same_iff y, and_assoc]
  | .call o m as, b => by cases b <;> simp [same, same_iff o, sameAll_iff as, and_assoc]

theorem sameAll_iff : ∀ as bs : List Term, sameAll as bs = true ↔ as = bs
  | [], bs => by cases bs <;> simp [sameAll]
  | a :: as, bs => by cases bs <;> simp [sameAll, same_iff a, sameAll_iff as]

end

instance : DecidableEq Term := fun a b => decidable_of_iff _ (same_iff a b)

mutual

def isFinite : Term → Bool
  | .const value => value.isFinite
  | .var _ _ | .staticOf _ => true
  | .field owner _ _ => owner.isFinite
  | .load place => place.isFinite
  | .arith _ lhs rhs => lhs.isFinite && rhs.isFinite
  | .compare _ lhs rhs => lhs.isFinite && rhs.isFinite
  | .call owner _ args => owner.isFinite && allFinite args

def allFinite : List Term → Bool
  | [] => true
  | t :: ts => t.isFinite && allFinite ts

end

@[simp] theorem allFinite_eq_all : ∀ ts : List Term, allFinite ts = ts.all isFinite
  | [] => rfl
  | t :: ts => by simp [allFinite, allFinite_eq_all ts]

end Term

/-- Counts the names given out. -/
structure NameSupply where
  issued : Nat := 0
  deriving DecidableEq

namespace NameSupply

def nameFor (base : String) (k : Nat) : String := base ++ "!" ++ toString k

def next (s : NameSupply) (base : String) : String × NameSupply := (nameFor base s.issued, ⟨s.issued + 1⟩)

def nextAll (s : NameSupply) : List String → List String × NameSupply
  | [] => ([], s)
  | base :: bases =>
    let (name, s') := s.next base
    let (names, s'') := s'.nextAll bases
    (name :: names, s'')

end NameSupply

end Retrace
