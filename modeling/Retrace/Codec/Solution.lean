import Retrace.Codec.Trace
import Retrace.Session.Basic
/-!
# Serialized solutions, statistics and settings
-/
namespace Retrace

namespace Shape

mutual

def encode : Shape → Json
  | .null ty => .tagged "Null" (.obj [("ty", Coded.encode ty)])
  | .constant value => .tagged "Constant" (Coded.encode value)
  | .object owner fields => .tagged "Object" (.obj
      [("class", Coded.encode owner), ("fields", .arr (encodeFields fields))])
  | .array element elements => .tagged "Array" (.obj
      [("element", Coded.encode element), ("elements", .arr (encodeAll elements))])
  | .staticField field value => .tagged "StaticField" (.obj
      [("field", Coded.encode field), ("value", value.encode)])

def encodeFields : List (FieldRef × Shape) → List Json
  | [] => []
  | (field, value) :: rest => .arr [Coded.encode field, value.encode] :: encodeFields rest

def encodeAll : List Shape → List Json
  | [] => []
  | s :: rest => s.encode :: encodeAll rest

end

def decodeEntry (nested : Json → Option Shape) : Json → Option (FieldRef × Shape)
  | .arr [f, v] => do
    let field ← decode f
    let value ← nested v
    return (field, value)
  | _ => none

/-- Reads an alternative and its payload, given how to read the shapes in it. -/
def decodeTagged (nested : Json → Option Shape) : String → Json → Option Shape
  | "Null", p => (p.get "ty").map .null
  | "Constant", p => (decode p).map .constant
  | "Object", p => do
    let owner ← p.get "class"
    let items ← (p.field? "fields").bind Json.items?
    let fields ← items.mapM (decodeEntry nested)
    return .object owner fields
  | "Array", p => do
    let element ← p.get "element"
    let items ← (p.field? "elements").bind Json.items?
    let elements ← items.mapM nested
    return .array element elements
  | "StaticField", p => do
    let field ← p.get "field"
    let value ← (p.field? "value").bind nested
    return .staticField field value
  | _, _ => none

def decodeWithin : (n : Nat) → Json → Option Shape
  | 0, _ => none
  | n + 1, j => j.tagged?.bind fun (tag, p) => decodeTagged (decodeWithin n) tag p

instance : Coded Shape := ⟨encode, fun j => decodeWithin j.depth j⟩

end Shape

namespace Plan

mutual

def encode : Plan → Json
  | .null ty => .tagged "Null" (.obj [("ty", Coded.encode ty)])
  | .literal ty value => .tagged "Primitive" (.obj [("ty", Coded.encode ty), ("value", Coded.encode value)])
  | .object ty constructor fields => .tagged "Object" (.obj
      [("ty", Coded.encode ty), ("constructor", Coded.encode constructor), ("fields", .arr (encodeFields fields))])
  | .staticField field value => .tagged "StaticField" (.obj
      [("field", Coded.encode field), ("value", value.encode)])

def encodeFields : List (FieldRef × Plan) → List Json
  | [] => []
  | (field, value) :: rest => .arr [Coded.encode field, value.encode] :: encodeFields rest

end

def decodeEntry (nested : Json → Option Plan) : Json → Option (FieldRef × Plan)
  | .arr [f, v] => do
    let field ← decode f
    let value ← nested v
    return (field, value)
  | _ => none

/-- Reads an alternative and its payload, given how to read the plans in it. -/
def decodeTagged (nested : Json → Option Plan) : String → Json → Option Plan
  | "Null", p => (p.get "ty").map .null
  | "Primitive", p => do
    let ty ← p.get "ty"
    let value ← p.get "value"
    return .literal ty value
  | "Object", p => do
    let ty ← p.get "ty"
    let constructor ← p.get "constructor"
    let items ← (p.field? "fields").bind Json.items?
    let fields ← items.mapM (decodeEntry nested)
    return .object ty constructor fields
  | "StaticField", p => do
    let field ← p.get "field"
    let value ← (p.field? "value").bind nested
    return .staticField field value
  | _, _ => none

def decodeWithin : (n : Nat) → Json → Option Plan
  | 0, _ => none
  | n + 1, j => j.tagged?.bind fun (tag, p) => decodeTagged (decodeWithin n) tag p

instance : Coded Plan := ⟨encode, fun j => decodeWithin j.depth j⟩

end Plan

instance {α : Type} [Coded α] : Coded (Inputs α) where
  encode p := .obj [("instance", encode p.receiver), ("arguments", encode p.arguments), ("statics", encode p.statics)]
  decode j := do
    let receiver ← j.optional "instance"
    let arguments ← j.get "arguments"
    let statics ← j.get "statics"
    return { receiver, arguments, statics }

instance : Coded Candidate where
  encode c := .obj [("method", encode c.method), ("state", Trace.encode c.state)]
  decode j := do
    let method ← j.get "method"
    let state ← (j.field? "state").bind Trace.decode
    return { method, state }

instance : Coded Harvest where
  encode h := .obj [("executions", encode h.executions), ("failures", encode h.failures),
    ("traces_registered", encode h.registered), ("empty_traces", encode h.empty)]
  decode j := do
    let executions ← j.get "executions"
    let failures ← j.get "failures"
    let registered ← j.get "traces_registered"
    let empty ← j.get "empty_traces"
    return { executions, failures, registered, empty }

instance : Coded Tally where
  encode t := .obj [("candidates", encode t.candidates), ("timeouts", encode t.timeouts),
    ("solver_errors", encode t.solverErrors), ("oracle_errors", encode t.oracleErrors),
    ("unsatisfiable", encode t.unsatisfiable), ("build_errors", encode t.buildErrors),
    ("generated", encode t.generated)]
  decode j := do
    let candidates ← j.get "candidates"
    let timeouts ← j.get "timeouts"
    let solverErrors ← j.get "solver_errors"
    let oracleErrors ← j.get "oracle_errors"
    let unsatisfiable ← j.get "unsatisfiable"
    let buildErrors ← j.get "build_errors"
    let generated ← j.get "generated"
    return { candidates, timeouts, solverErrors, oracleErrors, unsatisfiable, buildErrors, generated }

def Settings.decodeField (s : Settings) : String × Json → Option Settings
  | ("smt_timeout_secs", j) => (decode j).map fun n => { s with timeoutSecs := n }
  | ("timeout_multiplier", j) => (decode j).map fun n => { s with timeoutMultiplier := n }
  | ("max_candidates", j) => (decode j).map fun n => { s with maxCandidates := n }
  | _ => none

/-- A missing setting has its default, and there are no others; a missing bound is left out. -/
instance : Coded Settings where
  encode s := .obj ([("smt_timeout_secs", encode s.timeoutSecs), ("timeout_multiplier", encode s.timeoutMultiplier)] ++
    match s.maxCandidates with
    | some n => [("max_candidates", encode n)]
    | none => [])
  decode
    | .obj fields => fields.foldlM Settings.decodeField {}
    | _ => none

end Retrace
