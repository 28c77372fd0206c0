import Retrace.Action
import Retrace.Trace
/-!
# Faults

Everything that can go wrong, by cause, and the wording of each cause in one place (`Fault.message`).  A fault is
either a broken invariant of the recording itself or a failure of something outside (`Fault.kind`).  Each family ends
in a cause with free text, for what a collaborator reports in its own words.
-/
namespace Retrace

inductive Phase where
  | armed
  | recording
  | suspended
  /-- The execution is over, or an action could not be recorded. -/
  | disabled
  deriving DecidableEq

def Phase.render : Phase → String
  | .armed => "Armed"
  | .recording => "Recording"
  | .suspended => "Suspended"
  | .disabled => "Disabled"

namespace Fault

inductive Unsupported where
  | elementAssignment
  | newArray
  | construct
  | mock
  | arrayOperand (operand : Reference)
  | fieldOperand (operand : Reference)
  | other (what : String)
  deriving DecidableEq

def Unsupported.message : Unsupported → String
  | .elementAssignment => "array element assignment"
  | .newArray => "array statement translation"
  | .construct => "constructor statement translation"
  | .mock => "mocked call translation"
  | .arrayOperand operand => "array reference " ++ operand.render ++ " as an operand"
  | .fieldOperand operand => "field reference " ++ operand.render ++ " as an operand"
  | .other what => what

/-- Cases that no well-formed program reaches. -/
inductive Unreachable where
  | interfaceConstructor
  | assignmentTarget (target : Reference)
  | other (what : String)
  deriving DecidableEq

def Unreachable.message : Unreachable → String
  | .interfaceConstructor => "constructor declared on an interface"
  | .assignmentTarget target => "assignment to " ++ target.render ++ " which is neither a field nor an array element"
  | .other what => what

/-- Conditions that callers have to keep. -/
inductive Invariant where
  | stillRecording
  | disabled
  | notRecording (phase : Phase)
  | readWithoutOwner (field : Field)
  | assignedWithoutOwner (field : Field)
  | callWithoutReceiver (kind : CallKind) (method : Method)
  | alreadyBound (id : RefId)
  | undefined (id : RefId)
  | unallocated (handle : Handle)
  | other (what : String)
  deriving DecidableEq

def Invariant.message : Invariant → String
  | .stillRecording => "before_action called while the previous action is still recording"
  | .disabled => "trace builder is disabled"
  | .notRecording phase => "after_action called in state " ++ phase.render
  | .readWithoutOwner field => "instance field " ++ field.render ++ " read without an owner"
  | .assignedWithoutOwner field => "instance field " ++ field.render ++ " assigned without an owner"
  | .callWithoutReceiver kind method => kind.render ++ " call to " ++ method.render ++ " without a callee"
  | .alreadyBound id => "reference " ++ id.render ++ " already has a value"
  | .undefined id => "reference " ++ id.render ++ " is used before any action defined it"
  | .unallocated handle => "value " ++ handle.render ++ " was never allocated"
  | .other what => what

inductive Entity where
  | owner | method | field
  deriving DecidableEq

def Entity.render : Entity → String
  | .owner => "class"
  | .method => "method"
  | .field => "field"

inductive Unplannable where
  | notStatic (field : FieldRef)
  | array (element : Ty)
  | nullLiteral
  | other (what : String)
  deriving DecidableEq

def Unplannable.message : Unplannable → String
  | .notStatic field => field.render ++ " is not a static field"
  | .array element => "array descriptor of " ++ element.render ++ " has no construction plan"
  | .nullLiteral => "null has no literal form"
  | .other what => what

inductive Unbuildable where
  | arity (method : Method) (given : Nat)
  | noReceiver (method : Method)
  | other (what : String)
  deriving DecidableEq

def Unbuildable.message : Unbuildable → String
  | .arity method given =>
    method.render ++ " takes " ++ toString method.sig.params.length ++ " arguments, got " ++ toString given
  | .noReceiver method => "no receiver for instance method " ++ method.render
  | .other what => what

/-- Settings that cannot be read or used. -/
inductive Misconfigured where
  | range (field : String) (value low high : Int) (hint : String)
  | invalid (what : String)
  | unreadable (what : String)
  | malformed
  deriving DecidableEq

def Misconfigured.message : Misconfigured → String
  | .range field value low high hint =>
    "Invalid range for field '" ++ field ++ "': " ++ toString value ++ " not in " ++ toString low ++ "..=" ++
      toString high ++ ". " ++ hint
  | .invalid what => "Validation error: " ++ what
  | .unreadable what => "IO error: " ++ what
  | .malformed => "YAML parsing error"

inductive Kind where
  | internal | external
  deriving DecidableEq

end Fault

open Fault in
inductive Fault where
  | unsupported (cause : Unsupported)
  | unsupportedLiteral (payload declared : String)
  | unreachable (cause : Unreachable)
  | invariant (cause : Invariant)
  | unknown (entity : Entity) (name : String)
  | execution (what : String)
  | oracle (what : String)
  | solver (what : String)
  | solverTimeout (milliseconds : Nat)
  | unplannable (cause : Unplannable)
  | unbuildable (cause : Unbuildable)
  | misconfigured (cause : Misconfigured)
  | runtime (what : String)
  deriving DecidableEq

namespace Fault

def kind : Fault → Kind
  | .unsupported _ | .unsupportedLiteral _ _ | .unreachable _ | .invariant _ => .internal
  | _ => .external

def message : Fault → String
  | .unsupported cause => "Unsupported construct: " ++ cause.message
  | .unsupportedLiteral payload declared => "Unsupported literal kind: " ++ payload ++ " declared as " ++ declared
  | .unreachable cause => "Unreachable dispatch: " ++ cause.message
  | .invariant cause => "Invariant violated: " ++ cause.message
  | .unknown entity name => "Unknown " ++ entity.render ++ " '" ++ name ++ "'"
  | .execution what => "Execution failed: " ++ what
  | .oracle what => "Oracle error: " ++ what
  | .solver what => "Solver error: " ++ what
  | .solverTimeout milliseconds => "Solver timeout exceeded after " ++ toString milliseconds ++ "ms"
  | .unplannable cause => "Action sequence generation failed: " ++ cause.message
  | .unbuildable cause => "Materialization failed: " ++ cause.message
  | .misconfigured cause => "Configuration error: " ++ cause.message
  | .runtime what => "Runtime error: " ++ what

end Fault

end Retrace
