import Retrace.Draft
import Retrace.Recorder.Basic
import Retrace.Settings.Basic
/-!
# Sessions

A session harvests call traces from executed tests, and searches for new tests.  What it does not do itself it asks of
its host: run a test, keep the traces and choose among the paths they open, and solve the path chosen.  The host has a
state of its own, which every request may change.

A failure while one test is harvested, or while one candidate is tried, is logged and counted, and the session goes on.
-/
namespace Retrace

structure Candidate where
  method : Method
  state : Trace
  deriving DecidableEq

structure Harvest where
  executions : Nat := 0
  failures : Nat := 0
  registered : Nat := 0
  empty : Nat := 0
  deriving DecidableEq

structure Tally where
  candidates : Nat := 0
  timeouts : Nat := 0
  solverErrors : Nat := 0
  oracleErrors : Nat := 0
  unsatisfiable : Nat := 0
  buildErrors : Nat := 0
  generated : Nat := 0
  deriving DecidableEq

structure Reply where
  delayMs : Nat := 0
  answer : Except Fault (Option (Inputs Shape))

/-- What a session asks of the outside, over a state `ω`. -/
structure Host (ω : Type) where
  run : Test → Recorder → ω → Except Fault Unit × Recorder × ω
  addTrace : Method → Trace → ω → Except Fault Unit × ω
  /-- Is a path left to try? -/
  hasNext : ω → Except Fault Bool × ω
  next : ω → Except Fault Candidate × ω
  /-- Finds inputs that lead a call down a path. -/
  solve : Method → Trace → ω → Reply × ω

structure Session (ω : Type) where
  settings : Settings
  world : ω
  tally : Tally := {}
  journal : List Event := []

namespace Session

variable {ω : Type}

def start (settings : Settings) (world : ω) : Except Fault (Session ω) :=
  match Checked.check settings with
  | .error e => .error (.misconfigured e)
  | .ok _ =>
    .ok { settings, world, journal := [.configured (Checked.title Settings) settings.timeoutMs] }

def log (s : Session ω) (events : List Event) : Session ω := { s with journal := s.journal ++ events }

/-! ## Harvesting -/

/-- Hands the traces of one execution to the host, up to the first that it does not take. -/
def register (host : Host ω) : List (CallSite × Trace) → Harvest → ω → Except Fault Unit × Harvest × ω
  | [], h, w => (.ok (), h, w)
  | (site, trace) :: rest, h, w =>
    if trace.isEmpty then register host rest { h with empty := h.empty + 1 } w
    else
      match host.addTrace site.method trace w with
      | (.error e, w) => (.error e, h, w)
      | (.ok _, w) => register host rest { h with registered := h.registered + 1 } w

/-- Runs one test on a fresh recorder and hands over the traces of its calls. -/
def harvest (host : Host ω) (catalog : Catalog) (test : Test) (h : Harvest) (s : Session ω) :
    Except Fault Unit × Harvest × Session ω :=
  match host.run test { catalog } s.world with
  | (.error e, r, w) => (.error e, h, { s with world := w }.log r.journal)
  | (.ok _, r, w) =>
    let r := r.finish
    let (answer, h, w) := register host r.callTraces h w
    (answer, h, { s with world := w }.log r.journal)

def collectFrom (host : Host ω) (catalog : Catalog) (index : Nat) :
    List Test → Harvest → Session ω → Harvest × Session ω
  | [], h, s => (h, s)
  | test :: tests, h, s =>
    match harvest host catalog test { h with executions := h.executions + 1 } s with
    | (.ok _, h, s) => collectFrom host catalog (index + 1) tests h s
    | (.error e, h, s) =>
      collectFrom host catalog (index + 1) tests { h with failures := h.failures + 1 }
        (s.log [.testFailed index e test])

def collect (host : Host ω) (catalog : Catalog) (tests : List Test) (s : Session ω) : Harvest × Session ω :=
  let (h, s) := collectFrom host catalog 0 tests {} (s.log [.collecting tests.length])
  (h, s.log [.collected h.executions h.failures h.registered])

/-! ## Searching -/

inductive Verdict where
  | timedOut
  | unsatisfiable
  | solverFailed (fault : Fault)
  | unbuildable (fault : Fault)
  | built (test : Test)
  /-- The test under construction ran out of ids. -/
  | overflowed

/-- What comes of a candidate under a solver's reply, with the events of building a test from it. -/
def verdict (timeoutMs : Nat) (c : Candidate) (reply : Reply) : Verdict × List Event :=
  if timeoutMs ≤ reply.delayMs then (.timedOut, [])
  else
    match reply.answer with
    | .error e => (.solverFailed e, [])
    | .ok none => (.unsatisfiable, [])
    | .ok (some inputs) =>
      match c.method.buildTest inputs with
      | (.ok test, events) => (.built test, events)
      | (.error (.fault e), events) => (.unbuildable e, events)
      | (.error .idsExhausted, events) => (.overflowed, events)

def report (timeoutMs : Nat) (c : Candidate) : Verdict → List Event
  | .timedOut => [.skipped c.method (.solverTimeout timeoutMs)]
  | .unsatisfiable => [.unsatisfiable c.method]
  | .solverFailed e => [.solverFailed c.method e c.state]
  | .unbuildable e => [.buildFailed c.method e c.state]
  | .built test => [.produced c.method test]
  | .overflowed => []

def count (t : Tally) : Verdict → Tally
  | .timedOut => { t with timeouts := t.timeouts + 1 }
  | .unsatisfiable => { t with unsatisfiable := t.unsatisfiable + 1 }
  | .solverFailed _ => { t with solverErrors := t.solverErrors + 1 }
  | .unbuildable _ => { t with buildErrors := t.buildErrors + 1 }
  | .built _ => { t with generated := t.generated + 1 }
  | .overflowed => t

inductive Outcome where
  | found (test : Test)
  | nothing
  /-- A test under construction ran out of ids. -/
  | overflowed
  /-- The rounds allowed were used up. -/
  | unfinished

def atLimit (settings : Settings) (tried : Nat) : Bool := settings.maxCandidates.any (·.toNat ≤ tried)

def countOracleError (s : Session ω) : Session ω :=
  { s with tally := { s.tally with oracleErrors := s.tally.oracleErrors + 1 } }

def attempt (host : Host ω) (c : Candidate) (s : Session ω) : Verdict × Session ω :=
  let (reply, w) := host.solve c.method c.state s.world
  let (v, events) := verdict s.settings.timeoutMs c reply
  (v, { s with world := w, tally := count s.tally v }.log (events ++ report s.settings.timeoutMs c v))

/-- Takes candidates one at a time until one of them yields a test, for at most `rounds` rounds. -/
def search (host : Host ω) : (rounds tried : Nat) → Session ω → Outcome × Session ω
  | 0, _, s => (.unfinished, s)
  | rounds + 1, tried, s =>
    if atLimit s.settings tried then (.nothing, s.log [.limitReached tried, .exhausted tried])
    else
      match host.hasNext s.world with
      | (.error e, w) =>
        (.nothing, ({ s with world := w }.countOracleError).log [.selectorFailed e, .exhausted tried])
      | (.ok false, w) => (.nothing, { s with world := w }.log [.exhausted tried])
      | (.ok true, w) =>
        let tally := { s.tally with candidates := s.tally.candidates + 1 }
        match host.next w with
        | (.error e, w) =>
          search host rounds (tried + 1) (({ s with world := w, tally }.countOracleError).log [.candidateFailed e])
        | (.ok c, w) =>
          match attempt host c { s with world := w, tally } with
          | (.built test, s) => (.found test, s)
          | (.overflowed, s) => (.overflowed, s)
          | (_, s) => search host rounds (tried + 1) s

def generate (host : Host ω) (rounds : Nat) (s : Session ω) : Outcome × Session ω :=
  search host rounds 0 (s.log [.generating])

end Session

end Retrace
