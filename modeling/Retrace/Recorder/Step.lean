import Retrace.Cache
import Retrace.Shape
/-!
# One action

How an action is recorded, given the catalog and the values bound so far.  A field access or an expression comes down
to a clause at once; a literal only binds its result; a call is held back until it has returned.  Arrays, constructor
calls and mocks are not recorded.

Operands are bound before the result, left to right.  The constants bound on the way stay bound when a later part of
the action fails.

A method's modifiers settle how it is called (`Dispatch`).  A constructor on an interface cannot be called at all; else a
static method is called as such, then come constructors, interface methods, and all others.
-/
namespace Retrace

structure Dispatch where
  kind : CallKind
  isVoid : Bool
  deriving DecidableEq

namespace Dispatch

def select (isStatic isConstructor isInterface isVoid : Bool) : Except Fault Dispatch :=
  if isConstructor && isInterface then .error (.unreachable .interfaceConstructor)
  else if isStatic then .ok ⟨.static, isVoid⟩
  else if isConstructor then .ok ⟨.special, isVoid⟩
  else if isInterface then .ok ⟨.interface, isVoid⟩
  else .ok ⟨.virtual, isVoid⟩

def ofMethod (m : Method) : Except Fault Dispatch :=
  select m.isStatic m.isConstructor m.owner.isInterface m.isVoid

end Dispatch

structure PendingCall where
  instruction : Instruction
  method : Method
  /-- Term of the result of a call that returns a value. -/
  result : Option Term
  inputs : Inputs Term
  predicate : Predicate
  deriving DecidableEq

def PendingCall.clause (p : PendingCall) : Clause := ⟨p.instruction, p.predicate⟩

inductive Recording where
  | nothing
  | clause (clause : Clause)
  | call (pending : PendingCall)
  deriving DecidableEq

abbrev Recording.M := EStateM Fault Cache

namespace Recording

def answer {α : Type} : Except Fault α → M α
  | .ok a => pure a
  | .error e => throw e

def optional (cat : Catalog) : Option Reference → M (Option Handle)
  | none => pure none
  | some r => do
    let h ← Cache.valueOf cat r
    return some h

/-- Handles of operands, left to right. -/
def operands (cat : Catalog) : List Reference → M (List Handle)
  | [] => pure []
  | r :: rs => do
    let h ← Cache.valueOf cat r
    let hs ← operands cat rs
    return h :: hs

def terms : List Handle → M (List Term)
  | [] => pure []
  | h :: hs => do
    let t ← Cache.termOf h
    let ts ← terms hs
    return t :: ts

/-- The owner through which a field is reached: none for a static field, and an instance field needs one. -/
def fieldOwner (field : Field) (owner : Option Handle) (missing : Fault.Invariant) : M (Option Handle) :=
  if field.isStatic then pure none
  else match owner with
    | some h => pure (some h)
    | none => throw (.invariant missing)

def place (field : Field) (owner : Option Handle) : M Term :=
  match owner with
  | none => pure (.field (.staticOf field.owner) field.ty field.name)
  | some h => do
    let t ← Cache.termOf h
    return .field t field.ty field.name

def ofFieldRead (cat : Catalog) (result : Reference) (source : Option Reference) (ref : FieldRef) : M Recording := do
  let field ← answer (cat.resolveField ref)
  let given ← optional cat source
  let owner ← fieldOwner field given (.readWithoutOwner field)
  let (_, term) ← Cache.register result.id (.named result.name field.ty)
  let target ← place field owner
  return .clause ⟨.fieldLoad result.name field owner, .equal term (.load target)⟩

def ofFieldWrite (cat : Catalog) (source : Option Reference) (ref : FieldRef) (value : Handle) (term : Term) :
    M Recording := do
  let field ← answer (cat.resolveField ref)
  let given ← optional cat source
  let owner ← fieldOwner field given (.assignedWithoutOwner field)
  let target ← place field owner
  return .clause ⟨.fieldStore field owner value, .store target term⟩

def ofAssign (cat : Catalog) (target value : Reference) : M Recording := do
  let handle ← Cache.valueOf cat value
  let term ← Cache.termOf handle
  match target with
  | .element _ _ _ _ => throw (.unsupported .elementAssignment)
  | .staticField _ _ ref => ofFieldWrite cat none ref handle term
  | .instanceField _ _ source ref => ofFieldWrite cat (some source) ref handle term
  | .var _ _ | .null _ _ | .constant _ _ _ | .array _ _ => throw (.unreachable (.assignmentTarget target))

/-- An expression: arithmetic has the type of its left operand, a comparison that of its result. -/
def ofCompute (cat : Catalog) (result lhs : Reference) (op : Operator) (rhs : Reference) : M Recording := do
  let l ← Cache.valueOf cat lhs
  let r ← Cache.valueOf cat rhs
  match op.opcode with
  | .arith o => do
    let ty ← Cache.tyOf l
    let (_, term) ← Cache.register result.id (.named result.name ty)
    let lt ← Cache.termOf l
    let rt ← Cache.termOf r
    return .clause ⟨.arith result.name o l r, .equal term (.arith o lt rt)⟩
  | .rel o => do
    let (_, term) ← Cache.register result.id (.named result.name result.ty)
    let lt ← Cache.termOf l
    let rt ← Cache.termOf r
    return .clause ⟨.compare result.name result.ty o l r, .equal term (.compare o lt rt)⟩

def ofLiteral (cat : Catalog) (result : Reference) (value : Literal) : M Recording := do
  let k ← answer (value.toConstant result.ty cat)
  let _ ← Cache.register result.id (.constant k)
  return .nothing

/-- The receiver a call is made on: none for a static call, and every other call needs one. -/
def callReceiver (kind : CallKind) (method : Method) (given : Option Handle) : M (Option Handle) :=
  if kind.needsReceiver then
    match given with
    | some h => pure (some h)
    | none => throw (.invariant (.callWithoutReceiver kind method))
  else pure none

/-- Binds the result of a call; a void call has none. -/
def callResult (result : Reference) (method : Method) (isVoid : Bool) : M (Option Term) :=
  if isVoid then pure none
  else do
    let (_, term) ← Cache.register result.id (.named result.name method.sig.ret)
    return some term

def optionalTerm : Option Handle → M (Option Term)
  | none => pure none
  | some h => do
    let t ← Cache.termOf h
    return some t

def ofCall (cat : Catalog) (result : Reference) (given : Option Reference) (ref : MethodRef) (args : List Reference) :
    M Recording := do
  let method ← answer (cat.resolveMethod ref)
  let callee ← optional cat given
  let handles ← operands cat args
  let form ← answer (Dispatch.ofMethod method)
  let receiver ← callReceiver form.kind method callee
  let term ← callResult result method form.isVoid
  let receiverTerm ← optionalTerm receiver
  let argTerms ← terms handles
  let name := if form.isVoid then none else some result.name
  return .call {
    instruction := .call form.kind method name receiver handles
    method
    result := term
    inputs := { receiver := receiverTerm, arguments := argTerms }
    predicate := .call term (.call (receiverTerm.getD (.staticOf method.owner)) method argTerms) }

end Recording

def Action.recording (cat : Catalog) : Action → Recording.M Recording
  | .fieldRead result source field => Recording.ofFieldRead cat result source field
  | .assign target value => Recording.ofAssign cat target value
  | .compute result lhs op rhs => Recording.ofCompute cat result lhs op rhs
  | .literal result value => Recording.ofLiteral cat result value
  | .call result receiver method args => Recording.ofCall cat result receiver method args
  | .newArray _ _ => throw (.unsupported .newArray)
  | .construct _ _ _ => throw (.unsupported .construct)
  | .mock _ _ => throw (.unsupported .mock)

end Retrace
