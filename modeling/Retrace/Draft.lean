import Retrace.Event
import Retrace.Plan
/-!
# Drafting a test

Plans are carried out on a test under construction, and the call under test is appended at the end.  Static state is
stored before the call, which itself takes the receiver and the arguments only.

A step fails when the test has no id left or when the call cannot be written down; the statements written so far stay.
-/
namespace Retrace

inductive Stop where
  | idsExhausted
  | fault (fault : Fault)
  deriving DecidableEq

structure Draft where
  test : Test := {}
  journal : List Event := []

abbrev Draft.M := EStateM Stop Draft

namespace Draft

def fresh (make : RefId → Reference) : M Reference := fun d =>
  match d.test.fresh? make with
  | some (r, test) => .ok r { d with test }
  | none => .error .idsExhausted d

def push (action : Action) : M Unit := fun d =>
  match d.test.push? action with
  | some test => .ok () { d with test }
  | none => .error .idsExhausted d

def log (e : Event) : M Unit := fun d => .ok () { d with journal := d.journal ++ [e] }

/-- The place that an object's field is stored in; a static field has no source. -/
def fieldTarget (object : Reference) (field : FieldRef) (id : RefId) : Reference :=
  if field.isStatic then .staticField id field.ty field else .instanceField id field.ty object field

end Draft

open Draft in
mutual

/-- Carries out a plan and gives the reference to the value built. -/
def Plan.materialize : Plan → Draft.M Reference
  | .null ty => fresh fun id => .null id ty
  | .literal ty value => do
    let result ← fresh fun id => .var id ty
    push (.literal result value)
    return result
  | .object ty constructor fields => do
    let object ← fresh fun id => .var id ty
    push (.construct object constructor [])
    Plan.materializeFields object fields
    log (.objectBuilt ty fields.length)
    return object
  | .staticField field value => do
    let built ← value.materialize
    let target ← fresh fun id => .staticField id field.ty field
    push (.assign target built)
    return target

def Plan.materializeFields (object : Reference) : List (FieldRef × Plan) → Draft.M Unit
  | [] => pure ()
  | (field, value) :: rest => do
    let built ← value.materialize
    let target ← fresh (fieldTarget object field)
    push (.assign target built)
    Plan.materializeFields object rest

end

namespace Draft

def call (method : Method) (inputs : Inputs Reference) : M Unit := do
  if inputs.arguments.length != method.sig.params.length then
    throw (.fault (.unbuildable (.arity method inputs.arguments.length)))
  else if method.isConstructor then
    let result ← fresh fun id => .var id method.owner.ty
    push (.construct result method.ref inputs.arguments)
  else if method.isStatic then
    let result ← fresh fun id => .var id method.sig.ret
    push (.call result none method.ref inputs.arguments)
  else match inputs.receiver with
    | none => throw (.fault (.unbuildable (.noReceiver method)))
    | some receiver => do
      let result ← fresh fun id => .var id method.sig.ret
      push (.call result (some receiver) method.ref inputs.arguments)

def callOn (method : Method) (plans : Inputs Plan) : M Unit := do
  let references ← plans.mapM Plan.materialize
  call method references

end Draft

/-- The test that calls a method on solved inputs, and the events of its construction. -/
def Method.buildTest (method : Method) (inputs : Inputs Shape) : Except Stop Test × List Event :=
  match inputs.mapM Plan.ofShape with
  | .error e => (.error (.fault e), [.building method])
  | .ok plans =>
    let statements := plans.toList.foldl (fun n p => n + p.statements) 0
    let journal := [.building method, .materializing method statements plans.statics.length]
    match (Draft.callOn method plans).run { journal } with
    | .ok _ d => (.ok d.test, d.journal)
    | .error e d => (.error e, d.journal)

end Retrace
