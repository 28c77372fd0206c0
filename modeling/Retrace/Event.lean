import Retrace.Fault
/-!
# Log events

What happens while tests are recorded, harvested and generated, as events that carry the things they speak of.
`Event.level`, `Event.message` and `Event.fields` give the log line of an event.
-/
namespace Retrace

inductive Level where
  | trace | debug | info | warn | error
  deriving DecidableEq

def Level.render : Level → String
  | .trace => "TRACE"
  | .debug => "DEBUG"
  | .info => "INFO"
  | .warn => "WARN"
  | .error => "ERROR"

/-- Something worth a line in the log. -/
inductive Event where
  | recording (position : Nat) (action : Action)
  | committed (clause : Clause)
  | recordingFailed (position : Nat) (kind : String) (fault : Fault)
  | raised (position : Nat) (thrown : Thrown)
  | leftRecording
  | executionFinished (clauses calls : Nat)
  | objectBuilt (ty : Ty) (fields : Nat)
  | configured (name : String) (timeoutMs : Nat)
  | collecting (tests : Nat)
  | testFailed (index : Nat) (fault : Fault) (test : Test)
  | collected (executions failures traces : Nat)
  | generating
  | limitReached (tried : Nat)
  | selectorFailed (fault : Fault)
  | candidateFailed (fault : Fault)
  | unsatisfiable (method : Method)
  | solverFailed (method : Method) (fault : Fault) (state : Trace)
  | skipped (method : Method) (fault : Fault)
  | building (method : Method)
  | materializing (method : Method) (statements statics : Nat)
  | produced (method : Method) (test : Test)
  | buildFailed (method : Method) (fault : Fault) (state : Trace)
  | exhausted (tried : Nat)

namespace Event

def level : Event → Level
  | .recording .. | .committed .. | .raised .. | .objectBuilt .. => .trace
  | .executionFinished .. | .configured .. | .generating | .limitReached .. | .unsatisfiable .. | .building ..
  | .materializing .. | .produced .. | .exhausted .. => .debug
  | .collecting .. | .collected .. => .info
  | .recordingFailed .. | .leftRecording | .skipped .. => .warn
  | .testFailed .. | .selectorFailed .. | .candidateFailed .. | .solverFailed .. | .buildFailed .. => .error

def message : Event → String
  | .recording .. => "recording action"
  | .committed .. => "commit"
  | .recordingFailed .. => "action translation failed, disabling trace builder"
  | .raised .. => "action raised"
  | .leftRecording => "execution finished while an action was still recording"
  | .executionFinished .. => "execution finished"
  | .objectBuilt .. => "materialized object"
  | .configured .. => "test generator configured"
  | .collecting .. => "trace collection"
  | .testFailed _ _ test => "error while running test:\n" ++ test.render
  | .collected .. => "trace collection finished"
  | .generating => "generating test"
  | .limitReached .. => "candidate limit reached"
  | .selectorFailed .. => "path selector failed"
  | .candidateFailed .. => "path selector failed to produce a candidate"
  | .unsatisfiable .. => "candidate path is unsatisfiable"
  | .solverFailed _ _ state => "error while solving state:\n" ++ Trace.render state
  | .skipped .. => "skipping candidate"
  | .building .. => "start test generation"
  | .materializing .. => "materializing"
  | .produced _ test => "produced new test:\n" ++ test.render
  | .buildFailed _ _ state => "error while generating test for state:\n" ++ Trace.render state
  | .exhausted .. => "no new test produced"

def fields : Event → List (String × String)
  | .recording position action => [("position", toString position), ("action", action.render)]
  | .committed clause => [("clause", clause.render)]
  | .recordingFailed position kind fault =>
    [("position", toString position), ("kind", kind), ("error", fault.message)]
  | .raised position thrown => [("position", toString position), ("exception", thrown.render)]
  | .leftRecording | .generating => []
  | .executionFinished clauses calls => [("clauses", toString clauses), ("calls", toString calls)]
  | .objectBuilt ty fields => [("ty", ty.render), ("fields", toString fields)]
  | .configured name timeoutMs => [("config", name), ("solver_timeout_ms", toString timeoutMs)]
  | .collecting tests => [("tests", toString tests)]
  | .testFailed index fault _ => [("test", toString index), ("error", fault.message)]
  | .collected executions failures traces =>
    [("executions", toString executions), ("failures", toString failures), ("traces", toString traces)]
  | .limitReached tried | .exhausted tried => [("tried", toString tried)]
  | .selectorFailed fault | .candidateFailed fault => [("error", fault.message)]
  | .unsatisfiable method | .building method | .produced method _ => [("method", method.render)]
  | .solverFailed method fault _ | .skipped method fault | .buildFailed method fault _ =>
    [("method", method.render), ("error", fault.message)]
  | .materializing method statements statics =>
    [("method", method.render), ("statements", toString statements), ("statics", toString statics)]

end Event

end Retrace
