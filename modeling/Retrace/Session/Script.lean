import Retrace.Session.Basic
/-!
# Scripted hosts

A host that follows a script: a queue of candidates in the order in which they came, a list of solver answers, and a
list of ways to run a test.  It notes what it was asked.  A session over a script can be replayed.
-/
namespace Retrace

structure Execution where
  /-- Fails before the first action. -/
  crash : Option String := none
  /-- Records a branch in the body of every call on a receiver. -/
  branch : Option Bool := none
  /-- The action that raises; the test stops after it. -/
  raiseAt : Option Nat := none
  /-- The last action is begun but not ended. -/
  leaveOpen : Bool := false
  /-- Clears the recorder at the end, unless the last action was left open. -/
  clear : Bool := false
  deriving DecidableEq

namespace Execution

def branchClause (position : Nat) (holds : Bool) : Clause :=
  ⟨.branch ("branch@" ++ toString position), .path (.var .bool "cond") holds⟩

def body (x : Execution) (position : Nat) : Action → List Probe
  | .call _ (some _) _ _ =>
    match x.branch with
    | some holds => [.record (branchClause position holds)]
    | none => []
  | _ => []

def thrown (x : Execution) (position : Nat) : Option Thrown :=
  if x.raiseAt = some position then some ⟨"java.lang.RuntimeException", "scripted"⟩ else none

def close (x : Execution) (r : Recorder) : Recorder := if x.clear then r.clear else r

def actions (x : Execution) (position : Nat) : List Action → Recorder → Except Fault Unit × Recorder
  | [], r => (.ok (), x.close r)
  | a :: rest, r =>
    if x.leaveOpen && rest.isEmpty then
      match (Recorder.before a).run r with
      | .ok _ r => (.ok (), r)
      | .error e r => (.error e, r)
    else
      match (Recorder.recordAction a (x.body position a) (x.thrown position)).run r with
      | .error e r => (.error e, r)
      | .ok _ r => if (x.thrown position).isSome then (.ok (), x.close r) else x.actions (position + 1) rest r

def run (x : Execution) (test : Test) (r : Recorder) : Except Fault Unit × Recorder :=
  match x.crash with
  | some what => (.error (.execution what), r)
  | none => x.actions 0 test.actions r

end Execution

inductive ScriptedReply where
  | solve (inputs : Inputs Shape)
  | unsat
  | fail (what : String)
  | slow (delayMs : Nat) (inputs : Inputs Shape)
  deriving DecidableEq

def ScriptedReply.reply : ScriptedReply → Reply
  | .solve inputs => { answer := .ok (some inputs) }
  | .unsat => { answer := .ok none }
  | .fail what => { answer := .error (.solver what) }
  | .slow delayMs inputs => { delayMs, answer := .ok (some inputs) }

inductive Seen where
  | add (method : Method) (trace : Trace)
  | next
  | solve (method : Method) (clauses : Nat)
  deriving DecidableEq

structure Script where
  candidates : List Candidate := []
  /-- Numbers of the requests to fail, of each kind. -/
  addFailAt : List Nat := []
  hasNextFailAt : List Nat := []
  nextFailAt : List Nat := []
  /-- Claims that a candidate is left even when none is. -/
  endless : Bool := false
  /-- Makes no candidates of the traces it is given. -/
  ignoreTraces : Bool := false
  replies : List ScriptedReply := []
  executions : List Execution := []
  adds : Nat := 0
  hasNexts : Nat := 0
  nexts : Nat := 0
  seen : List Seen := []
  deriving DecidableEq

namespace Script

def run (test : Test) (r : Recorder) (s : Script) : Except Fault Unit × Recorder × Script :=
  let (answer, r) := (s.executions.headD {}).run test r
  (answer, r, { s with executions := s.executions.tail })

def addTrace (method : Method) (trace : Trace) (s : Script) : Except Fault Unit × Script :=
  let n := s.adds
  let s := { s with adds := n + 1, seen := s.seen ++ [.add method trace] }
  if n ∈ s.addFailAt then (.error (.oracle ("add " ++ toString n ++ " failed")), s)
  else if s.ignoreTraces then (.ok (), s)
  else (.ok (), { s with candidates := s.candidates ++ [⟨method, trace⟩] })

def hasNext (s : Script) : Except Fault Bool × Script :=
  let n := s.hasNexts
  let s := { s with hasNexts := n + 1 }
  if n ∈ s.hasNextFailAt then (.error (.oracle ("has_next " ++ toString n ++ " failed")), s)
  else (.ok (s.endless || !s.candidates.isEmpty), s)

def next (s : Script) : Except Fault Candidate × Script :=
  let n := s.nexts
  let s := { s with nexts := n + 1, seen := s.seen ++ [Seen.next] }
  match s.candidates with
  | [] => (.error (.oracle "no candidates left"), s)
  | c :: rest =>
    let s := { s with candidates := rest }
    if n ∈ s.nextFailAt then (.error (.oracle ("ranking failed for " ++ c.method.render)), s) else (.ok c, s)

def solve (method : Method) (trace : Trace) (s : Script) : Reply × Script :=
  ((s.replies.headD .unsat).reply,
    { s with replies := s.replies.tail, seen := s.seen ++ [.solve method trace.length] })

def host : Host Script where
  run := run
  addTrace := addTrace
  hasNext := hasNext
  next := next
  solve := solve

/-- Rounds that a search over a script can take.  A limit bounds them; without one there is a round for each candidate
and one to find none left, or the search ends at the last request that is to fail. -/
def rounds (settings : Settings) (s : Script) : Nat :=
  match settings.maxCandidates with
  | some limit => limit.toNat + 1
  | none => s.candidates.length + s.hasNextFailAt.foldl max 0 + 1

end Script

end Retrace
