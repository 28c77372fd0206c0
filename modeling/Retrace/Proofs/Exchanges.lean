import Retrace.Session.Basic
/-!
# Exchanges — what a session asks of its host

A session meets its host in requests, each with the host's answer.  `Host.Serves` says that some requests, put to a host
one after the other, get these answers and lead it from one state to another.  The state of a host is its own: one that
keeps a record of all it is asked is a host too.  So a session whose host ends in the state after some requests, for
every host, has put these requests and no others, in this order.

Of each answer something is counted (`Host.Request.counted`), and a tally has grown by just that (`Tally.Counts`).
-/
namespace Retrace

inductive Host.Request where
  /-- A test was run under the recorder `given`, which was then `left`. -/
  | run (test : Test) (given left : Recorder) (answer : Except Fault Unit)
  | addTrace (method : Method) (trace : Trace) (answer : Except Fault Unit)
  | hasNext (answer : Except Fault Bool)
  | next (answer : Except Fault Candidate)
  | solve (method : Method) (trace : Trace) (reply : Reply)

namespace Host

variable {ω : Type} {host : Host ω}

/-- The host in state `w` gives the answer of a request, and is in state `w'` then. -/
def Answers (host : Host ω) (w : ω) : Request → ω → Prop
  | .run test given left answer, w' => host.run test given w = (answer, left, w')
  | .addTrace method trace answer, w' => host.addTrace method trace w = (answer, w')
  | .hasNext answer, w' => host.hasNext w = (answer, w')
  | .next answer, w' => host.next w = (answer, w')
  | .solve method trace reply, w' => host.solve method trace w = (reply, w')

/-- **The requests that lead a host from one state to another**, in order, with its answers. -/
inductive Serves (host : Host ω) : ω → List Request → ω → Prop
  | nil (w : ω) : Serves host w [] w
  | cons {w w₁ w' : ω} {request : Request} {rest : List Request} (first : host.Answers w request w₁)
      (next : Serves host w₁ rest w') : Serves host w (request :: rest) w'

namespace Serves

theorem single {w w' : ω} {request : Request} (h : host.Answers w request w') : host.Serves w [request] w' :=
  .cons h (.nil w')

theorem append {w w₁ w' : ω} {requests more : List Request} (h : host.Serves w requests w₁)
    (h' : host.Serves w₁ more w') : host.Serves w (requests ++ more) w' := by
  induction h with
  | nil w => exact h'
  | cons first next ih => exact .cons first (ih h')

theorem uncons {w w' : ω} {request : Request} {rest : List Request} (h : host.Serves w (request :: rest) w') :
    ∃ w₁, host.Answers w request w₁ ∧ host.Serves w₁ rest w' := by
  cases h with
  | cons first next => exact ⟨_, first, next⟩

theorem split {w w' : ω} {requests more : List Request} (h : host.Serves w (requests ++ more) w') :
    ∃ w₁, host.Serves w requests w₁ ∧ host.Serves w₁ more w' := by
  induction requests generalizing w with
  | nil => exact ⟨w, .nil w, h⟩
  | cons request requests ih =>
    obtain ⟨w₁, hfirst, hrest⟩ := h.uncons
    obtain ⟨w₂, hrequests, hmore⟩ := ih hrest
    exact ⟨w₂, .cons hfirst hrequests, hmore⟩

end Serves
end Host

/-! ## What is counted -/

inductive Counter where
  | candidates | timeouts | solverErrors | oracleErrors | unsatisfiable | buildErrors | generated
  deriving DecidableEq

def Tally.read (t : Tally) : Counter → Nat
  | .candidates => t.candidates
  | .timeouts => t.timeouts
  | .solverErrors => t.solverErrors
  | .oracleErrors => t.oracleErrors
  | .unsatisfiable => t.unsatisfiable
  | .buildErrors => t.buildErrors
  | .generated => t.generated

/-- The counter of a solver's reply, by what comes of it for a method; a test that runs out of ids is not counted. -/
def Reply.counted (timeoutMs : Nat) (method : Method) (reply : Reply) : List Counter :=
  if reply.delayMs < timeoutMs then
    match reply.answer with
    | .error _ => [.solverErrors]
    | .ok none => [.unsatisfiable]
    | .ok (some inputs) =>
      match (method.buildTest inputs).1 with
      | .ok _ => [.generated]
      | .error (.fault _) => [.buildErrors]
      | .error .idsExhausted => []
  else [.timeouts]

/-- **The counters of a request**, by its answer. -/
def Host.Request.counted (timeoutMs : Nat) : Host.Request → List Counter
  | .hasNext (.error _) => [.oracleErrors]
  | .next (.error _) => [.candidates, .oracleErrors]
  | .next (.ok _) => [.candidates]
  | .solve method _ reply => reply.counted timeoutMs method
  | .hasNext (.ok _) | .run .. | .addTrace .. => []

def Host.Request.total (timeoutMs : Nat) (requests : List Host.Request) (k : Counter) : Nat :=
  (requests.flatMap (counted timeoutMs)).count k

theorem Host.Request.total_append {timeoutMs : Nat} {requests more : List Host.Request} (k : Counter) :
    total timeoutMs (requests ++ more) k = total timeoutMs requests k + total timeoutMs more k := by
  rw [total, List.flatMap_append, List.count_append]
  rfl

theorem Host.Request.total_solve {timeoutMs : Nat} {method : Method} {trace : Trace} {reply : Reply} (k : Counter) :
    total timeoutMs [.solve method trace reply] k = (reply.counted timeoutMs method).count k := by
  rw [total, List.flatMap_singleton, counted]

/-- **A tally grows by what is counted of some requests.** -/
def Tally.Counts (timeoutMs : Nat) (requests : List Host.Request) (t t' : Tally) : Prop :=
  ∀ k, t'.read k = t.read k + Host.Request.total timeoutMs requests k

namespace Tally.Counts

variable {timeoutMs : Nat} {requests more : List Host.Request} {t t' t'' : Tally}

theorem nil : Counts timeoutMs [] t t := fun _ => rfl

theorem append (h : Counts timeoutMs requests t t') (h' : Counts timeoutMs more t' t'') :
    Counts timeoutMs (requests ++ more) t t'' := by
  intro k
  rw [h' k, h k, Host.Request.total_append, Nat.add_assoc]

theorem read_le (h : Counts timeoutMs requests t t') (k : Counter) : t.read k ≤ t'.read k := by
  rw [h k]
  exact Nat.le_add_right _ _

end Tally.Counts

theorem Session.count_verdict (timeoutMs : Nat) (c : Candidate) (reply : Reply) (t : Tally) :
    t.Counts timeoutMs [.solve c.method c.state reply] (Session.count t (Session.verdict timeoutMs c reply).1) := by
  intro k
  rw [Host.Request.total_solve]
  unfold Session.verdict Reply.counted
  by_cases htime : reply.delayMs < timeoutMs
  · rw [if_neg (Nat.not_le.2 htime), if_pos htime]
    rcases reply.answer with e | (_ | inputs)
    · cases k <;> rfl
    · cases k <;> rfl
    · dsimp only
      rcases c.method.buildTest inputs with ⟨(_ | e) | test, events⟩ <;> cases k <;> rfl
  · rw [if_pos (Nat.not_lt.1 htime), if_neg htime]
    cases k <;> rfl

end Retrace
