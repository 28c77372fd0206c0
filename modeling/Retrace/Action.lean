import Retrace.Operator
import Retrace.Reference
/-!
# Actions and tests

A test is a list of elementary actions, each of which defines one reference.  The test also counts the ids it has
given out: a fresh reference takes the count as its id, and an appended action moves the count past the id it defines.
The count is a 32-bit word, so both can fail; a failure changes nothing (`Test.fresh?`, `Test.push?`).
-/
namespace Retrace

structure Thrown where
  exception : String
  message : String
  deriving DecidableEq

def Thrown.render (t : Thrown) : String := t.exception ++ ": " ++ t.message

inductive Action where
  /-- Reads a field of `source`, or a static field when there is none. -/
  | fieldRead (result : Reference) (source : Option Reference) (field : FieldRef)
  | assign (target value : Reference)
  | compute (result lhs : Reference) (op : Operator) (rhs : Reference)
  | literal (result : Reference) (value : Literal)
  | call (result : Reference) (receiver : Option Reference) (method : MethodRef) (args : List Reference)
  | construct (result : Reference) (constructor : MethodRef) (args : List Reference)
  | newArray (result : Reference) (length : UInt64)
  | mock (result : Reference) (target : Ty)
  deriving DecidableEq

namespace Action

def kind : Action → String
  | .fieldRead .. => "field read"
  | .assign .. => "assignment"
  | .compute .. => "expression"
  | .literal .. => "literal"
  | .call .. => "call"
  | .construct .. => "constructor"
  | .newArray .. => "array"
  | .mock .. => "mock"

/-- The reference an action defines; an assignment defines its target. -/
def result : Action → Reference
  | .fieldRead result _ _ | .compute result _ _ _ | .literal result _ | .call result _ _ _ | .construct result _ _
  | .newArray result _ | .mock result _ => result
  | .assign target _ => target

def renderArgs (args : List Reference) : String := "(" ++ commaSeparated (args.map Reference.render) ++ ")"

def render : Action → String
  | .fieldRead result (some source) field => result.render ++ " = " ++ source.render ++ "." ++ field.name
  | .fieldRead result none field => result.render ++ " = " ++ field.render
  | .assign target value => target.render ++ " = " ++ value.render
  | .compute result lhs op rhs => result.render ++ " = " ++ lhs.render ++ " " ++ op.symbol ++ " " ++ rhs.render
  | .literal result value => result.render ++ " = " ++ value.render
  | .call result receiver method args =>
    let owner := match receiver with
      | some r => r.render
      | none => method.owner
    let call := owner ++ "." ++ method.name ++ renderArgs args
    if method.sig.ret.isVoid then call else result.render ++ " = " ++ call
  | .construct result constructor args => result.render ++ " = new " ++ constructor.owner ++ renderArgs args
  | .newArray result length => result.render ++ " = new " ++ result.ty.render ++ "[" ++ toString length.toNat ++ "]"
  | .mock result target => result.render ++ " = mock(" ++ target.render ++ ")"

def sameArgs : List Reference → List Reference → Bool
  | [], [] => true
  | a :: as, b :: bs => a.sameValue b && sameArgs as bs
  | _, _ => false

def sameSource : Option Reference → Option Reference → Bool
  | none, none => true
  | some a, some b => a.sameValue b
  | _, _ => false

/-- Equality by value: floating-point payloads compare as numbers. -/
def sameValue : Action → Action → Bool
  | .fieldRead r s f, .fieldRead r' s' f' => r.sameValue r' && sameSource s s' && f == f'
  | .assign t v, .assign t' v' => t.sameValue t' && v.sameValue v'
  | .compute r a o b, .compute r' a' o' b' => r.sameValue r' && a.sameValue a' && o == o' && b.sameValue b'
  | .literal r v, .literal r' v' => r.sameValue r' && v.sameValue v'
  | .call r s m a, .call r' s' m' a' => r.sameValue r' && sameSource s s' && m == m' && sameArgs a a'
  | .construct r c a, .construct r' c' a' => r.sameValue r' && c == c' && sameArgs a a'
  | .newArray r n, .newArray r' n' => r.sameValue r' && n == n'
  | .mock r t, .mock r' t' => r.sameValue r' && t == t'
  | _, _ => false

def isFinite : Action → Bool
  | .fieldRead result source _ => result.isFinite && source.all Reference.isFinite
  | .assign target value => target.isFinite && value.isFinite
  | .compute result lhs _ rhs => result.isFinite && lhs.isFinite && rhs.isFinite
  | .literal result value => result.isFinite && value.isFinite
  | .call result receiver _ args => result.isFinite && receiver.all Reference.isFinite && args.all Reference.isFinite
  | .construct result _ args => result.isFinite && args.all Reference.isFinite
  | .newArray result _ => result.isFinite
  | .mock result _ => result.isFinite

end Action

structure Test where
  actions : List Action := []
  /-- Ids below this one are taken. -/
  nextRef : UInt32 := 0
  deriving DecidableEq

namespace Test

def lastId : UInt32 := 4294967295

/-- A new reference under the next free id; none when the ids are used up. -/
def fresh? (t : Test) (make : RefId → Reference) : Option (Reference × Test) :=
  if t.nextRef = lastId then none
  else some (make ⟨t.nextRef⟩, { t with nextRef := t.nextRef + 1 })

/-- Appends an action; none when the id it defines is free and has no successor. -/
def push? (t : Test) (action : Action) : Option Test :=
  let id := action.result.id.val
  if id < t.nextRef then some { t with actions := t.actions ++ [action] }
  else if id = lastId then none
  else some { actions := t.actions ++ [action], nextRef := id + 1 }

def ofActions? (actions : List Action) : Option Test :=
  actions.foldlM push? {}

def render (t : Test) : String := String.join (t.actions.map fun a => a.render ++ ";\n")

def sameActions : List Action → List Action → Bool
  | [], [] => true
  | a :: as, b :: bs => a.sameValue b && sameActions as bs
  | _, _ => false

/-- Equality by value: floating-point payloads compare as numbers. -/
def sameValue (a b : Test) : Bool := sameActions a.actions b.actions && a.nextRef == b.nextRef

def isFinite (t : Test) : Bool := t.actions.all Action.isFinite

end Test

end Retrace
