import Retrace.Instruction
import Retrace.Term
/-!
# Traces

A clause is an instruction together with the predicate it makes true, and a trace is a list of clauses in the order
of execution.  A call site is a call of a method at a position of the test.
-/
namespace Retrace

/-- What a step of the execution says about the values involved. -/
inductive Predicate where
  | equal (lhs rhs : Term)
  | store (field value : Term)
  /-- A call, equal to its result if it has one. -/
  | call (result : Option Term) (applied : Term)
  /-- The condition of a branch had this truth value. -/
  | path (condition : Term) (holds : Bool)
  deriving DecidableEq

namespace Predicate

def render : Predicate → String
  | .equal lhs rhs => lhs.render ++ " == " ++ rhs.render
  | .store field value => field.render ++ ".store(" ++ value.render ++ ")"
  | .call (some result) applied => result.render ++ " == " ++ applied.render
  | .call none applied => applied.render
  | .path condition holds => "@P " ++ condition.render ++ " == " ++ (if holds then "true" else "false")

def isFinite : Predicate → Bool
  | .equal lhs rhs => lhs.isFinite && rhs.isFinite
  | .store field value => field.isFinite && value.isFinite
  | .call result applied => result.all Term.isFinite && applied.isFinite
  | .path condition _ => condition.isFinite

end Predicate

structure Clause where
  instruction : Instruction
  predicate : Predicate
  deriving DecidableEq

def Clause.render (c : Clause) : String := c.instruction.render ++ " | " ++ c.predicate.render

abbrev Trace := List Clause

namespace Trace

/-- Number at the right end of a field of three. -/
def lineNumber (n : Nat) : String :=
  let digits := Nat.toDigits 10 n
  String.ofList (List.replicate (3 - digits.length) ' ' ++ digits)

def render (t : Trace) : String := String.join (t.zipIdx.map fun (c, n) => lineNumber n ++ ": " ++ c.render ++ "\n")

def isFinite (t : Trace) : Bool := t.all fun c => c.predicate.isFinite

end Trace

/-- A call of a method at a position of the test; ordered by position first. -/
structure CallSite where
  position : Nat
  method : Method
  deriving DecidableEq, Ord

end Retrace
