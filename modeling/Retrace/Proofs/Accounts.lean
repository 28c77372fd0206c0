import Retrace.Proofs.FirstSuccess
/-!
# Accounts — the tally of a session against what was asked

Every candidate that a session takes ends in one counter of its tally.  What was asked is read off a host that keeps a
record beside its own state (`Host.recorded`); the record changes nothing (`Session.generateTimes_recorded`).  Some facts
hold of any requests, counted one by one (`Host.Request.Counted`); the others need the rounds of a search, in which a
candidate is asked for before it is solved, and the last round alone may not be skipped (`Session.Settled`).
-/
namespace Retrace

open Host (Request)

namespace Host

variable {ω : Type} {host : Host ω}

/-! ## A record of what is asked -/

/-- The host with a record of all it was asked. -/
def recorded (host : Host ω) : Host (ω × List Request) where
  run test given w :=
    let (answer, left, w₁) := host.run test given w.1
    (answer, left, w₁, w.2 ++ [.run test given left answer])
  addTrace method trace w :=
    let (answer, w₁) := host.addTrace method trace w.1
    (answer, w₁, w.2 ++ [.addTrace method trace answer])
  hasNext w :=
    let (answer, w₁) := host.hasNext w.1
    (answer, w₁, w.2 ++ [.hasNext answer])
  next w :=
    let (answer, w₁) := host.next w.1
    (answer, w₁, w.2 ++ [.next answer])
  solve method trace w :=
    let (reply, w₁) := host.solve method trace w.1
    (reply, w₁, w.2 ++ [.solve method trace reply])

theorem recorded_hasNext {w : ω × List Request} {answer : Except Fault Bool} {w₁ : ω}
    (h : host.hasNext w.1 = (answer, w₁)) : host.recorded.hasNext w = (answer, w₁, w.2 ++ [.hasNext answer]) := by
  simp only [recorded, h]

theorem recorded_next {w : ω × List Request} {answer : Except Fault Candidate} {w₁ : ω}
    (h : host.next w.1 = (answer, w₁)) : host.recorded.next w = (answer, w₁, w.2 ++ [.next answer]) := by
  simp only [recorded, h]

theorem answers_of_recorded {w w' : ω × List Request} {request : Request} (h : host.recorded.Answers w request w') :
    host.Answers w.1 request w'.1 ∧ w'.2 = w.2 ++ [request] := by
  cases request with
  | run test given left answer =>
    simp only [Answers, recorded, Prod.mk.injEq] at h
    obtain ⟨rfl, rfl, rfl⟩ := h
    exact ⟨rfl, rfl⟩
  | _ =>
    simp only [Answers, recorded, Prod.mk.injEq] at h
    obtain ⟨rfl, rfl⟩ := h
    exact ⟨rfl, rfl⟩

/-- **The record of a host holds what it was asked**, all of it and in order. -/
theorem serves_of_recorded {w w' : ω × List Request} {requests : List Request}
    (h : host.recorded.Serves w requests w') : host.Serves w.1 requests w'.1 ∧ w'.2 = w.2 ++ requests := by
  induction h with
  | nil w => exact ⟨.nil w.1, (List.append_nil w.2).symm⟩
  | cons first next ih =>
    obtain ⟨hfirst, hnoted⟩ := answers_of_recorded first
    obtain ⟨hrest, hrecord⟩ := ih
    refine ⟨.cons hfirst hrest, ?_⟩
    rw [hrecord, hnoted, List.append_assoc, List.singleton_append]

end Host

namespace Session

variable {ω : Type} {host : Host ω}

def recording (s : Session ω) : Session (ω × List Request) :=
  { settings := s.settings, world := (s.world, []), tally := s.tally, journal := s.journal }

def forget (s : Session (ω × List Request)) : Session ω :=
  { settings := s.settings, world := s.world.1, tally := s.tally, journal := s.journal }

theorem attempt_recorded {c : Candidate} {s s₁ : Session (ω × List Request)} {v : Verdict}
    (h : attempt host.recorded c s = (v, s₁)) : attempt host c s.forget = (v, s₁.forget) := by
  have hsame : attempt host c s.forget = Prod.map id forget (attempt host.recorded c s) := rfl
  rw [hsame, h]
  rfl

/-- **A record does not change a search.** -/
theorem search_recorded (host : Host ω) (rounds tried : Nat) (s : Session (ω × List Request)) :
    Prod.map id forget (search host.recorded rounds tried s) = search host rounds tried s.forget := by
  induction rounds generalizing tried s with
  | zero => rfl
  | succ rounds ih =>
    have hsettings : s.forget.settings = s.settings := rfl
    have hworld : s.forget.world = s.world.1 := rfl
    rw [search, search, hsettings, hworld]
    by_cases hlimit : atLimit s.settings tried = true
    · rw [if_pos hlimit, if_pos hlimit]
      rfl
    · rw [if_neg hlimit, if_neg hlimit]
      rcases hhas : host.hasNext s.world.1 with ⟨e | (_ | _), w₁⟩
      · rw [Host.recorded_hasNext hhas]
        rfl
      · rw [Host.recorded_hasNext hhas]
        rfl
      · rw [Host.recorded_hasNext hhas]
        dsimp only
        rcases hnext : host.next w₁ with ⟨e | c, w₂⟩
        · rw [Host.recorded_next hnext]
          exact ih _ _
        · rw [Host.recorded_next hnext]
          dsimp only
          -- the two attempts come to one verdict, by which both searches stop or go on
          rcases hattempt : attempt host.recorded c _ with ⟨v, s₁⟩
          have hplain := attempt_recorded hattempt
          dsimp only [forget] at hplain ⊢
          rw [hplain]
          cases v with
          | built test => rfl
          | overflowed => rfl
          | _ => exact ih _ _

theorem generateTimes_recorded (host : Host ω) (rounds calls : Nat) (s : Session (ω × List Request)) :
    Prod.map id forget (generateTimes host.recorded rounds calls s) = generateTimes host rounds calls s.forget := by
  induction calls generalizing s with
  | zero => rfl
  | succ calls ih =>
    have hfirst : Prod.map id forget (generate host.recorded rounds s) = generate host rounds s.forget :=
      search_recorded host rounds 0 (s.log [.generating])
    rw [generateTimes_succ, generateTimes_succ, ← hfirst, Prod.map_snd, ← ih]
    rfl

end Session

/-! ## What is counted of any requests -/

namespace Host.Request

def isNext : Request → Bool
  | .next _ => true
  | _ => false

def isSolve : Request → Bool
  | .solve .. => true
  | _ => false

def hasNextFails : Request → Bool
  | .hasNext (.error _) => true
  | _ => false

def nextFails : Request → Bool
  | .next (.error _) => true
  | _ => false

/-- Inputs were found, but the test built from them runs out of ids. -/
def overflows (timeoutMs : Nat) : Request → Bool
  | .solve method _ reply => (reply.counted timeoutMs method).isEmpty
  | _ => false

end Host.Request

/-- A candidate's counter, by what comes of its solver's reply. -/
theorem Reply.counted_cases (timeoutMs : Nat) (c : Candidate) (reply : Reply) :
    (∃ t, reply.test? timeoutMs c = some t ∧ reply.counted timeoutMs c.method = [.generated]) ∨
    (reply.Overflows timeoutMs c ∧ reply.counted timeoutMs c.method = []) ∨
    (∃ k ∈ [Counter.timeouts, .solverErrors, .unsatisfiable, .buildErrors],
      reply.counted timeoutMs c.method = [k] ∧ reply.test? timeoutMs c = none ∧ ¬ reply.Overflows timeoutMs c) := by
  unfold Reply.test? Reply.Overflows Reply.counted
  by_cases htime : reply.delayMs < timeoutMs
  · simp only [if_pos htime]
    rcases reply.answer with e | (_ | inputs)
    · simp
    · simp
    · dsimp only
      rcases hbuild : c.method.buildTest inputs with ⟨(_ | e) | test, events⟩ <;>
        simp [hbuild, htime, Except.toOption]
  · simp [htime]

namespace Host.Request

variable {timeoutMs : Nat} {requests more : List Request}

/-- **What the counters say of any requests.**  One counter serves two kinds of failure, and a solver's reply has one of
five, unless the test runs out of ids. -/
structure Counted (timeoutMs : Nat) (requests : List Request) : Prop where
  candidates : total timeoutMs requests .candidates = requests.countP isNext
  oracleErrors : total timeoutMs requests .oracleErrors = requests.countP hasNextFails + requests.countP nextFails
  replies : total timeoutMs requests .timeouts + total timeoutMs requests .solverErrors +
      total timeoutMs requests .unsatisfiable + total timeoutMs requests .buildErrors +
      total timeoutMs requests .generated + requests.countP (overflows timeoutMs) = requests.countP isSolve

theorem Counted.append (h : Counted timeoutMs requests) (h' : Counted timeoutMs more) :
    Counted timeoutMs (requests ++ more) := by
  obtain ⟨h₁, h₂, h₃⟩ := h
  obtain ⟨h₁', h₂', h₃'⟩ := h'
  constructor <;> simp only [total_append, List.countP_append] <;> omega

theorem overflows_solve (method : Method) (trace : Trace) (reply : Reply) :
    [Request.solve method trace reply].countP (overflows timeoutMs) =
      if (reply.counted timeoutMs method).isEmpty then 1 else 0 := by
  rw [List.countP_singleton]
  rfl

theorem counted_solve (method : Method) (trace : Trace) (reply : Reply) :
    Counted timeoutMs [.solve method trace reply] := by
  obtain ⟨t, -, hcounted⟩ | ⟨-, hcounted⟩ | ⟨k, hk, hcounted, -⟩ := reply.counted_cases timeoutMs ⟨method, trace⟩
  · constructor <;> simp only [total_solve, overflows_solve, hcounted] <;> rfl
  · constructor <;> simp only [total_solve, overflows_solve, hcounted] <;> rfl
  · simp only [List.mem_cons, List.not_mem_nil, or_false] at hk
    rcases hk with rfl | rfl | rfl | rfl <;> constructor <;> simp only [total_solve, overflows_solve, hcounted] <;> rfl

theorem counted_single (request : Request) : Counted timeoutMs [request] := by
  cases request with
  | run test given left answer => exact ⟨rfl, rfl, rfl⟩
  | addTrace method trace answer => exact ⟨rfl, rfl, rfl⟩
  | hasNext answer => cases answer <;> exact ⟨rfl, rfl, rfl⟩
  | next answer => cases answer <;> exact ⟨rfl, rfl, rfl⟩
  | solve method trace reply => exact counted_solve method trace reply

theorem counted_all (timeoutMs : Nat) : ∀ requests : List Request, Counted timeoutMs requests
  | [] => ⟨rfl, rfl, rfl⟩
  | request :: requests => (counted_single request).append (counted_all timeoutMs requests)

end Host.Request

/-! ## What searches add to it -/

namespace Session

open Host.Request

variable {ω : Type} {host : Host ω} {timeoutMs : Nat} {requests more : List Request} {outcomes others : List Outcome}

def Outcome.isOverflowed : Outcome → Bool
  | .overflowed => true
  | .found _ | .nothing | .unfinished => false

/-- **What holds of the requests of whole searches**: each candidate that is had is solved, and one test is generated, or
runs out of ids, just if a search ends with it. -/
structure Settled (timeoutMs : Nat) (requests : List Request) (outcomes : List Outcome) : Prop where
  solved : requests.countP isNext = requests.countP nextFails + requests.countP isSolve
  generated : total timeoutMs requests .generated = (outcomes.filterMap Outcome.test?).length
  overflowed : requests.countP (overflows timeoutMs) = outcomes.countP Outcome.isOverflowed

theorem Settled.append (h : Settled timeoutMs requests outcomes) (h' : Settled timeoutMs more others) :
    Settled timeoutMs (requests ++ more) (outcomes ++ others) := by
  obtain ⟨h₁, h₂, h₃⟩ := h
  obtain ⟨h₁', h₂', h₃'⟩ := h'
  constructor <;>
    simp only [total_append, List.countP_append, List.filterMap_append, List.length_append] <;> omega

theorem Settled.nil : Settled timeoutMs [] [] := ⟨rfl, rfl, rfl⟩

/-- A round in which a candidate is solved, by the counter of the reply. -/
theorem settled_tried {c : Candidate} {reply : Reply} {ks : List Counter}
    (hcounted : reply.counted timeoutMs c.method = ks)
    (hgenerated : ks.count .generated = (outcomes.filterMap Outcome.test?).length)
    (hoverflowed : (if ks.isEmpty then 1 else 0) = outcomes.countP Outcome.isOverflowed) :
    Settled timeoutMs (Round.tried c reply).requests outcomes := by
  have hrequests : (Round.tried c reply).requests =
      [.hasNext (.ok true), .next (.ok c)] ++ [.solve c.method c.state reply] := rfl
  refine ⟨rfl, ?_, ?_⟩
  · rw [hrequests, total_append, total_solve, hcounted, ← hgenerated, Nat.add_eq_right]
    rfl
  · rw [hrequests, List.countP_append, overflows_solve, hcounted, ← hoverflowed, Nat.add_eq_right]
    rfl

theorem settled_skipped {round : Round} (h : round.Skipped timeoutMs) : Settled timeoutMs round.requests [] := by
  cases round with
  | failed e => exact ⟨rfl, rfl, rfl⟩
  | tried c reply =>
    obtain ⟨hnone, hfits⟩ := h
    obtain ⟨t, ht, -⟩ | ⟨ho, -⟩ | ⟨k, hk, hcounted, -⟩ := reply.counted_cases timeoutMs c
    · cases hnone.symm.trans ht
    · exact absurd ho hfits
    · simp only [List.mem_cons, List.not_mem_nil, or_false] at hk
      rcases hk with rfl | rfl | rfl | rfl <;> exact settled_tried hcounted rfl rfl

theorem settled_found {round : Round} {t : Test} (h : round.test? timeoutMs = some t) :
    Settled timeoutMs round.requests [.found t] := by
  cases round with
  | failed e => cases h
  | tried c reply =>
    obtain ⟨-, -, hcounted⟩ | ⟨ho, -⟩ | ⟨k, -, -, hnone, -⟩ := reply.counted_cases timeoutMs c
    · exact settled_tried hcounted rfl rfl
    · cases (Round.test?_of_overflows (r := .tried c reply) ho).symm.trans h
    · cases hnone.symm.trans h

theorem settled_overflowed {round : Round} (h : round.Overflows timeoutMs) :
    Settled timeoutMs round.requests [.overflowed] := by
  cases round with
  | failed e => cases h
  | tried c reply =>
    obtain ⟨t, ht, -⟩ | ⟨-, hcounted⟩ | ⟨k, -, -, -, hfits⟩ := reply.counted_cases timeoutMs c
    · cases (Round.test?_of_overflows h).symm.trans ht
    · exact settled_tried hcounted rfl rfl
    · exact absurd h hfits

theorem settled_rounds {taken : List Round} (h : ∀ r ∈ taken, r.Skipped timeoutMs) :
    Settled timeoutMs (taken.flatMap Round.requests) [] := by
  induction taken with
  | nil => exact .nil
  | cons round taken ih =>
    obtain ⟨hround, htaken⟩ := List.forall_mem_cons.1 h
    exact (settled_skipped hround).append (ih htaken)

theorem StopsAt.settled {P : Round → Prop} {settings : Settings} {taken : List Round} {closing : List Request}
    {outcome : Outcome} (h : StopsAt P settings taken closing)
    (hlast : ∀ {round}, P round → Settled settings.timeoutMs round.requests [outcome]) :
    Settled settings.timeoutMs (taken.flatMap Round.requests ++ closing) [outcome] := by
  obtain ⟨rfl, skipped, round, rfl, hskipped, hround⟩ := h
  rw [List.append_nil, List.flatMap_append, List.flatMap_singleton]
  exact (settled_rounds hskipped).append (hlast hround)

/-- **Every search is settled.** -/
theorem Ends.settled {settings : Settings} {tried rounds : Nat} {taken : List Round} {closing : List Request}
    {outcome : Outcome} (h : Ends settings tried rounds taken closing outcome) :
    Settled settings.timeoutMs (taken.flatMap Round.requests ++ closing) [outcome] := by
  cases outcome with
  | found t => exact StopsAt.settled h settled_found
  | overflowed => exact StopsAt.settled h settled_overflowed
  | nothing =>
    obtain ⟨hskipped, -, hcloses⟩ := h
    have hclosing : Settled settings.timeoutMs closing [.nothing] := by
      rcases hcloses with ⟨rfl, -⟩ | rfl | ⟨e, rfl⟩ <;> exact ⟨rfl, rfl, rfl⟩
    exact (settled_rounds hskipped).append hclosing
  | unfinished =>
    obtain ⟨hskipped, -, rfl⟩ := h
    have hclosing : Settled settings.timeoutMs [] [.unfinished] := ⟨rfl, rfl, rfl⟩
    exact (settled_rounds hskipped).append hclosing

/-- **Searches in a row**: what they ask is counted and settled. -/
theorem generateTimes_settled (host : Host ω) (rounds calls : Nat) (s : Session ω) :
    ∃ requests, host.Serves s.world requests (generateTimes host rounds calls s).2.world ∧
      s.tally.Counts s.settings.timeoutMs requests (generateTimes host rounds calls s).2.tally ∧
      Settled s.settings.timeoutMs requests (generateTimes host rounds calls s).1 := by
  induction calls generalizing s with
  | zero => exact ⟨[], .nil s.world, .nil, .nil⟩
  | succ calls ih =>
    obtain ⟨taken, closing, hs⟩ := generate_searched host rounds s
    obtain ⟨requests, hserves, hcounts, hsettled⟩ := ih (generate host rounds s).2
    rw [hs.settings] at hcounts hsettled
    rw [generateTimes_succ]
    exact ⟨_, hs.serves.append hserves, hs.counts.append hcounts, hs.ends.settled.append hsettled⟩

theorem generateTimes_add (host : Host ω) (rounds calls more : Nat) (s : Session ω) :
    (generateTimes host rounds (calls + more) s).2 =
      (generateTimes host rounds more (generateTimes host rounds calls s).2).2 := by
  induction calls generalizing s with
  | zero => rw [Nat.zero_add, generateTimes]
  | succ calls ih =>
    rw [Nat.add_right_comm, generateTimes_succ, generateTimes_succ]
    exact ih (generate host rounds s).2

/-- **No counter goes down from one round of a search to a later one.** -/
theorem search_read_le (host : Host ω) (rounds more tried : Nat) (s : Session ω) (k : Counter) :
    (search host rounds tried s).2.tally.read k ≤ (search host (rounds + more) tried s).2.tally.read k := by
  induction rounds generalizing tried s with
  | zero =>
    obtain ⟨taken, closing, hs⟩ := search_searched host more tried s
    rw [Nat.zero_add]
    exact hs.counts.read_le k
  | succ rounds ih =>
    rw [Nat.add_right_comm]
    cases search_step host tried s with
    | closed closing s' _ _ _ hsearch => exact Nat.le_of_eq (by rw [hsearch, hsearch])
    | found round t s' _ _ _ _ hsearch => exact Nat.le_of_eq (by rw [hsearch, hsearch])
    | overflowed round s' _ _ _ _ hsearch => exact Nat.le_of_eq (by rw [hsearch, hsearch])
    | skipped round s' _ _ _ _ hsearch =>
      rw [hsearch, hsearch]
      exact ih (tried + 1) s'

/-! ## The balance -/

/-- **A tally that accounts for every candidate**, by what was asked and how the searches ended.  A search that runs out
of ids does not come back from its last candidate, which was solved and has no counter. -/
structure Balanced (t : Tally) (requests : List Request) (outcomes : List Outcome) : Prop where
  balance : t.candidates + requests.countP hasNextFails =
    t.timeouts + t.solverErrors + t.oracleErrors + t.unsatisfiable + t.buildErrors + t.generated +
      outcomes.countP Outcome.isOverflowed
  candidates : t.candidates = requests.countP isNext
  generated : t.generated = (outcomes.filterMap Outcome.test?).length
  solved : t.timeouts + t.solverErrors + t.unsatisfiable + t.buildErrors + t.generated +
    outcomes.countP Outcome.isOverflowed = requests.countP isSolve

theorem Settled.balanced {t : Tally} (h : Settled timeoutMs requests outcomes)
    (hread : ∀ k, t.read k = total timeoutMs requests k) : Balanced t requests outcomes := by
  obtain ⟨hcandidates, horacle, hreplies⟩ := counted_all timeoutMs requests
  obtain ⟨hsolved, hgenerated, hoverflowed⟩ := h
  simp only [← hread, Tally.read] at hcandidates horacle hreplies hgenerated
  constructor <;> omega

theorem start_ok {settings : Settings} {w : ω} {s : Session ω} (h : start settings w = .ok s) :
    s.settings = settings ∧ s.world = w ∧ s.tally = {} := by
  unfold start at h
  split at h
  · cases h
  · cases h
    exact ⟨rfl, rfl, rfl⟩

/-- **The tally of a session accounts for every candidate**, over any host, however many searches there were.  The
record of what the host was asked changes nothing, and every counter is what is to be counted of it.  No counter goes
down: not from one search to a later one, nor from one round of a search to a later one. -/
theorem tally_balanced {settings : Settings} {w : ω} {s : Session ω} (hstart : start settings w = .ok s)
    (host : Host ω) (rounds calls : Nat) :
    let run := generateTimes host rounds calls s
    let noted := generateTimes host.recorded rounds calls s.recording
    Prod.map id forget noted = run ∧ host.Serves w noted.2.world.2 run.2.world ∧
    Balanced run.2.tally noted.2.world.2 run.1 ∧
    (∀ k, run.2.tally.read k = total settings.timeoutMs noted.2.world.2 k) ∧
    (∀ more k, run.2.tally.read k ≤ (generateTimes host rounds (calls + more) s).2.tally.read k) ∧
    ∀ n more k, (generate host n run.2).2.tally.read k ≤ (generate host (n + more) run.2).2.tally.read k := by
  intro run noted
  obtain ⟨rfl, rfl, htally⟩ := start_ok hstart
  have hsame : Prod.map id forget noted = run := generateTimes_recorded host rounds calls s.recording
  obtain ⟨requests, hserves, hcounts, hsettled⟩ := generateTimes_settled host.recorded rounds calls s.recording
  obtain ⟨hplain, hrecord⟩ := Host.serves_of_recorded hserves
  have hnotes : noted.2.world.2 = requests := hrecord
  have hread : ∀ k, run.2.tally.read k = total s.settings.timeoutMs requests k := by
    intro k
    have hk := hcounts k
    have hzero : s.recording.tally.read k = 0 := by
      rw [recording, htally]
      cases k <;> rfl
    rw [hzero, Nat.zero_add] at hk
    rw [← hsame]
    exact hk
  rw [hnotes]
  refine ⟨hsame, ?_, ?_, hread, ?_, ?_⟩
  · rw [← hsame]
    exact hplain
  · refine Settled.balanced ?_ hread
    rw [← hsame]
    exact hsettled
  · intro more k
    rw [generateTimes_add]
    obtain ⟨_, -, hmore, -⟩ := generateTimes_settled host rounds more run.2
    exact hmore.read_le k
  · intro n more k
    exact search_read_le host n more 0 (run.2.log [.generating]) k

/-- Six candidates, one for each way to end; then it cannot be found out whether another is left. -/
def oneOfEach : Script where
  candidates := List.replicate 6 ⟨negate, []⟩
  hasNextFailAt := [6]
  nextFailAt := [1]
  replies := [.unsat, .fail "undecided", .slow 12000 negateFour, .solve {}, .solve negateFour]

/-- Three searches, of which the first goes through all six candidates. -/
theorem tally_balanced_oneOfEach : ∃ s, start {} oneOfEach = .ok s ∧
    (generateTimes Script.host 8 3 s).2.tally = ⟨6, 1, 1, 2, 1, 1, 1⟩ ∧
    Balanced ⟨6, 1, 1, 2, 1, 1, 1⟩ (generateTimes Script.host.recorded 8 3 s.recording).2.world.2
      (generateTimes Script.host 8 3 s).1 := by
  let s : Session Script :=
    { settings := {}, world := oneOfEach, journal := [.configured (Checked.title Settings) (Settings.timeoutMs {})] }
  have hstart : start {} oneOfEach = .ok s := rfl
  have htally : (generateTimes Script.host 8 3 s).2.tally = ⟨6, 1, 1, 2, 1, 1, 1⟩ := by decide +kernel
  obtain ⟨-, -, hbalanced, -⟩ := tally_balanced hstart Script.host 8 3
  rw [htally] at hbalanced
  exact ⟨s, hstart, htally, hbalanced⟩

end Session
end Retrace
