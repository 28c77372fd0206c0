import Retrace.Event
import Retrace.Recorder.Step
/-!
# The recorder

One recorder follows one execution.  The host calls `before` and `after` around every action; in between, instrumented
code may add clauses of its own and ask for terms (`probe`).  A call's clause is added by `after`, whether or not the
call raised, and the length of the trace is noted under its call site: the prefix up to that length is the trace of
that call.

An action that cannot be recorded disables the recorder, since its trace can no longer be trusted, until `clear`.
-/
namespace Retrace

abbrev Sites := List (CallSite × Nat)

/-- Notes a length under a site, in place of any earlier one. -/
def Sites.insert (site : CallSite) (length : Nat) : Sites → Sites
  | [] => [(site, length)]
  | (s, n) :: rest =>
    match compare site s with
    | .lt => (site, length) :: (s, n) :: rest
    | .eq => (site, length) :: rest
    | .gt => (s, n) :: Sites.insert site length rest

structure Recorder where
  catalog : Catalog
  cache : Cache := {}
  trace : Trace := []
  sites : Sites := []
  phase : Phase := .armed
  position : Nat := 0
  /-- Number of calls that have returned. -/
  calls : Nat := 0
  journal : List Event := []

/-- Handed out by `before`, and handed back to `after`. -/
structure Ticket where
  position : Nat
  pending : Option PendingCall
  deriving DecidableEq

/-- What instrumented code may ask of the recorder while an action runs. -/
inductive Probe where
  | isLive
  | record (clause : Clause)
  | termOf (reference : Reference)
  deriving DecidableEq

/-- Answers to probes.  Outside an action nothing is recorded and no term is given. -/
inductive Probe.Answer where
  | live (isLive : Bool)
  | recorded (done : Bool)
  | term (term : Option Term)
  | failed (fault : Fault)
  deriving DecidableEq

namespace Recorder

def log (r : Recorder) (e : Event) : Recorder := { r with journal := r.journal ++ [e] }

def commit (r : Recorder) (c : Clause) : Recorder :=
  let r := r.log (.committed c)
  { r with trace := r.trace ++ [c] }

/-- Adds the clause of a call that has returned, and notes its call site. -/
def commitCall (r : Recorder) (position : Nat) (p : PendingCall) : Recorder :=
  let r := r.commit p.clause
  { r with calls := r.calls + 1, sites := Sites.insert ⟨position, p.method⟩ r.trace.length r.sites }

def before (action : Action) : EStateM Fault Recorder Ticket := fun r =>
  match r.phase with
  | .recording => .error (.invariant .stillRecording) r
  | .disabled => .error (.invariant .disabled) r
  | .armed | .suspended =>
    let position := r.position
    let r := { r with position := position + 1, phase := .recording }.log (.recording position action)
    match (action.recording r.catalog).run r.cache with
    | .error e cache =>
      .error e ({ r with cache, phase := .disabled }.log (.recordingFailed position action.kind e))
    | .ok .nothing cache => .ok ⟨position, none⟩ { r with cache }
    | .ok (.clause c) cache => .ok ⟨position, none⟩ ({ r with cache }.commit c)
    | .ok (.call p) cache => .ok ⟨position, some p⟩ { r with cache }

def after (ticket : Ticket) (thrown : Option Thrown) : EStateM Fault Recorder Unit := fun r =>
  if r.phase = .recording then
    let r := { r with phase := .suspended }
    let r := match thrown with
      | some t => r.log (.raised ticket.position t)
      | none => r
    match ticket.pending with
    | some p => .ok () (r.commitCall ticket.position p)
    | none => .ok () r
  else .error (.invariant (.notRecording r.phase)) r

def probe (r : Recorder) : Probe → Probe.Answer × Recorder
  | .isLive => (.live (r.phase = .recording), r)
  | .record c =>
    if r.phase = .recording then (.recorded true, { r with trace := r.trace ++ [c] }) else (.recorded false, r)
  | .termOf ref =>
    if r.phase = .recording then
      match (Cache.valueOf r.catalog ref >>= Cache.termOf).run r.cache with
      | .ok t cache => (.term (some t), { r with cache })
      | .error e cache => (.failed e, { r with cache })
    else (.term none, r)

def probes (r : Recorder) : List Probe → List Probe.Answer × Recorder
  | [] => ([], r)
  | p :: ps =>
    let (a, r') := r.probe p
    let (as, r'') := r'.probes ps
    (a :: as, r'')

/-- Records an action whose body puts the given probes and then raises, or not. -/
def recordAction (action : Action) (body : List Probe) (thrown : Option Thrown) :
    EStateM Fault Recorder (List Probe.Answer) := do
  let ticket ← before action
  let answers ← fun r => let (as, r') := r.probes body; .ok as r'
  after ticket thrown
  return answers

/-- Console output of the tested program is not recorded. -/
def output (r : Recorder) (_position : Nat) (_text : String) : Recorder := r

def finish (r : Recorder) : Recorder :=
  let r := if r.phase = .recording then r.log .leftRecording else r
  { r with phase := .disabled }.log (.executionFinished r.trace.length r.calls)

/-- Makes the recorder ready for another execution; the journal is kept. -/
def clear (r : Recorder) : Recorder := { catalog := r.catalog, cache := r.cache.clear, journal := r.journal }

def callTraces (r : Recorder) : List (CallSite × Trace) :=
  r.sites.map fun (site, n) => (site, r.trace.take n)

end Recorder

end Retrace
