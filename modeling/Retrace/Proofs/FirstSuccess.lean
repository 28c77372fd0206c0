import Retrace.Proofs.Exchanges
import Retrace.Session.Script
/-!
# First success — what a search returns

A search takes candidates from its host, one a round, until one of them yields a test.  Each round is some requests
(`Round.requests`), and it yields a test, runs out of ids, or is skipped.  A search is a run of skipped rounds, and then
either one round that is not skipped or a reason to stop (`Session.Ends`, `Session.search_searched`).

Over a host that keeps its candidates in a queue (`Host.Fifo`), searches that follow one another go through the queue,
and find just the tests that its candidates yield when each is solved once, in order; how many candidates one search may
take makes no difference.
-/
namespace Retrace

open Host (Request)

/-! ## Rounds -/

/-- The test that a candidate yields under a solver's reply: the one built from inputs that came in time. -/
def Reply.test? (timeoutMs : Nat) (c : Candidate) (reply : Reply) : Option Test :=
  if reply.delayMs < timeoutMs then
    match reply.answer with
    | .ok (some inputs) => (c.method.buildTest inputs).1.toOption
    | .ok none | .error _ => none
  else none

/-- Inputs came in time, but the test built from them runs out of ids. -/
def Reply.Overflows (timeoutMs : Nat) (c : Candidate) (reply : Reply) : Prop :=
  reply.delayMs < timeoutMs ∧
    ∃ inputs, reply.answer = .ok (some inputs) ∧ (c.method.buildTest inputs).1 = .error .idsExhausted

/-- One round of a search: the host fails to give the candidate it has, or gives one, and the solver replies. -/
inductive Round where
  | failed (fault : Fault)
  | tried (candidate : Candidate) (reply : Reply)

namespace Round

def requests : Round → List Request
  | .failed e => [.hasNext (.ok true), .next (.error e)]
  | .tried c reply => [.hasNext (.ok true), .next (.ok c), .solve c.method c.state reply]

def test? (timeoutMs : Nat) : Round → Option Test
  | .failed _ => none
  | .tried c reply => reply.test? timeoutMs c

def Overflows (timeoutMs : Nat) : Round → Prop
  | .failed _ => False
  | .tried c reply => reply.Overflows timeoutMs c

/-- A round that yields no test, so that the search goes on. -/
def Skipped (timeoutMs : Nat) (r : Round) : Prop := r.test? timeoutMs = none ∧ ¬ r.Overflows timeoutMs

theorem test?_of_overflows {timeoutMs : Nat} {r : Round} (h : r.Overflows timeoutMs) : r.test? timeoutMs = none := by
  cases r with
  | failed e => rfl
  | tried c reply =>
    obtain ⟨htime, inputs, hanswer, hbuild⟩ := h
    simp only [test?, Reply.test?, if_pos htime, hanswer, hbuild, Except.toOption]

end Round

def Session.Outcome.test? : Session.Outcome → Option Test
  | .found t => some t
  | .nothing | .overflowed | .unfinished => none

namespace Session

variable {ω : Type} {host : Host ω}

theorem atLimit_iff {settings : Settings} {tried : Nat} :
    atLimit settings tried = true ↔ ∃ n, settings.maxCandidates = some n ∧ n.toNat ≤ tried := by
  cases hn : settings.maxCandidates <;> simp [atLimit, hn]

theorem verdict_built {timeoutMs : Nat} {c : Candidate} {reply : Reply} {t : Test} :
    (verdict timeoutMs c reply).1 = .built t ↔ reply.test? timeoutMs c = some t := by
  unfold verdict Reply.test?
  by_cases htime : reply.delayMs < timeoutMs
  · rw [if_neg (Nat.not_le.2 htime), if_pos htime]
    rcases reply.answer with e | (_ | inputs)
    · simp
    · simp
    · dsimp only
      rcases c.method.buildTest inputs with ⟨(_ | e) | test, events⟩ <;> simp [Except.toOption]
  · simp [htime, Nat.not_lt.1 htime]

theorem verdict_overflowed {timeoutMs : Nat} {c : Candidate} {reply : Reply} :
    (verdict timeoutMs c reply).1 = .overflowed ↔ reply.Overflows timeoutMs c := by
  unfold verdict Reply.Overflows
  by_cases htime : reply.delayMs < timeoutMs
  · rw [if_neg (Nat.not_le.2 htime)]
    rcases reply.answer with e | (_ | inputs)
    · simp
    · simp
    · dsimp only
      rcases hbuild : c.method.buildTest inputs with ⟨(_ | e) | test, events⟩ <;> simp [hbuild, htime]
  · simp [htime, Nat.not_lt.1 htime]

theorem attempt_eq (host : Host ω) (c : Candidate) (s : Session ω) :
    ∃ reply s', attempt host c s = ((verdict s.settings.timeoutMs c reply).1, s') ∧
      host.solve c.method c.state s.world = (reply, s'.world) ∧ s'.settings = s.settings ∧
      s.tally.Counts s.settings.timeoutMs [.solve c.method c.state reply] s'.tally := by
  rcases hsolve : host.solve c.method c.state s.world with ⟨reply, w⟩
  have hattempt : attempt host c s =
      ((verdict s.settings.timeoutMs c reply).1, (attempt host c s).2) := by simp only [attempt, hsolve]
  have hworld : (attempt host c s).2.world = w := by simp only [attempt, hsolve, log]
  have htally : (attempt host c s).2.tally = count s.tally (verdict s.settings.timeoutMs c reply).1 := by
    simp only [attempt, hsolve, log]
  refine ⟨reply, (attempt host c s).2, hattempt, by rw [hworld], rfl, ?_⟩
  rw [htally]
  exact count_verdict s.settings.timeoutMs c reply s.tally

/-! ## One round -/

/-- Why a search that has tried some candidates stops before it takes another, with what it asks to find out. -/
def Closes (settings : Settings) (tried : Nat) (closing : List Request) : Prop :=
  closing = [] ∧ atLimit settings tried = true ∨ closing = [.hasNext (.ok false)] ∨
    ∃ e, closing = [.hasNext (.error e)]

/-- **What one round of a search comes to**, however many rounds are left after it. -/
inductive SearchStep (host : Host ω) (tried : Nat) (s : Session ω) : Prop
  | closed (closing : List Request) (s' : Session ω) (hserves : host.Serves s.world closing s'.world)
      (hsettings : s'.settings = s.settings) (hcloses : Closes s.settings tried closing)
      (hsearch : ∀ rounds, search host (rounds + 1) tried s = (.nothing, s'))
      (hcounts : s.tally.Counts s.settings.timeoutMs closing s'.tally)
  | found (round : Round) (t : Test) (s' : Session ω) (hserves : host.Serves s.world round.requests s'.world)
      (hsettings : s'.settings = s.settings) (hlimit : atLimit s.settings tried = false)
      (htest : round.test? s.settings.timeoutMs = some t)
      (hsearch : ∀ rounds, search host (rounds + 1) tried s = (.found t, s'))
      (hcounts : s.tally.Counts s.settings.timeoutMs round.requests s'.tally)
  | overflowed (round : Round) (s' : Session ω) (hserves : host.Serves s.world round.requests s'.world)
      (hsettings : s'.settings = s.settings) (hlimit : atLimit s.settings tried = false)
      (hoverflows : round.Overflows s.settings.timeoutMs)
      (hsearch : ∀ rounds, search host (rounds + 1) tried s = (.overflowed, s'))
      (hcounts : s.tally.Counts s.settings.timeoutMs round.requests s'.tally)
  | skipped (round : Round) (s' : Session ω) (hserves : host.Serves s.world round.requests s'.world)
      (hsettings : s'.settings = s.settings) (hlimit : atLimit s.settings tried = false)
      (hskipped : round.Skipped s.settings.timeoutMs)
      (hsearch : ∀ rounds, search host (rounds + 1) tried s = search host rounds (tried + 1) s')
      (hcounts : s.tally.Counts s.settings.timeoutMs round.requests s'.tally)

/-- What a search makes of the verdict on a candidate: it stops, or goes on to the rest. -/
def Verdict.orElse (v : Verdict) (s : Session ω) (rest : Outcome × Session ω) : Outcome × Session ω :=
  match v with
  | .built test => (.found test, s)
  | .overflowed => (.overflowed, s)
  | _ => rest

theorem search_step (host : Host ω) (tried : Nat) (s : Session ω) : SearchStep host tried s := by
  cases hlimit : atLimit s.settings tried with
  | true =>
    refine .closed [] (s.log [.limitReached tried, .exhausted tried]) (.nil s.world) rfl (.inl ⟨rfl, hlimit⟩) ?_ .nil
    intro rounds
    rw [search, if_pos hlimit]
  | false =>
    rcases hhas : host.hasNext s.world with ⟨e | (_ | _), w₁⟩
    · refine .closed [.hasNext (.error e)]
        (log (countOracleError { s with world := w₁ }) [.selectorFailed e, .exhausted tried])
        (.single hhas) rfl (.inr (.inr ⟨e, rfl⟩)) ?_ fun k => by cases k <;> rfl
      intro rounds
      simp only [search, hlimit, hhas, Bool.false_eq_true, if_false]
    · refine .closed [.hasNext (.ok false)] (log { s with world := w₁ } [.exhausted tried]) (.single hhas) rfl
        (.inr (.inl rfl)) ?_ fun _ => rfl
      intro rounds
      simp only [search, hlimit, hhas, Bool.false_eq_true, if_false]
    · let tally := { s.tally with candidates := s.tally.candidates + 1 }
      rcases hnext : host.next w₁ with ⟨e | c, w₂⟩
      · refine .skipped (.failed e) (log (countOracleError { s with world := w₂, tally }) [.candidateFailed e])
          (.cons hhas (.single hnext)) rfl hlimit ⟨rfl, id⟩ ?_ fun k => by cases k <;> rfl
        intro rounds
        simp only [search, hlimit, hhas, hnext, Bool.false_eq_true, if_false]
        rfl
      · obtain ⟨reply, s', hattempt, hsolve, hsettings, hsolved⟩ := attempt_eq host c { s with world := w₂, tally }
        have hserves : host.Serves s.world (Round.tried c reply).requests s'.world :=
          .cons hhas (.cons hnext (.single hsolve))
        have htaken : s.tally.Counts s.settings.timeoutMs [.hasNext (.ok true), .next (.ok c)] tally := by
          intro k
          cases k <;> rfl
        have hcounts : s.tally.Counts s.settings.timeoutMs (Round.tried c reply).requests s'.tally :=
          htaken.append hsolved
        have hrun : ∀ rounds, search host (rounds + 1) tried s =
            (verdict s.settings.timeoutMs c reply).1.orElse s' (search host rounds (tried + 1) s') := fun rounds => by
          simp only [search, hlimit, hhas, hnext, Bool.false_eq_true, if_false]
          rw [hattempt]
          cases (verdict s.settings.timeoutMs c reply).1 <;> rfl
        cases hv : (verdict s.settings.timeoutMs c reply).1 with
        | built t =>
          exact .found (.tried c reply) t s' hserves hsettings hlimit (verdict_built.1 hv)
            (fun rounds => by rw [hrun, hv]; rfl) hcounts
        | overflowed =>
          exact .overflowed (.tried c reply) s' hserves hsettings hlimit (verdict_overflowed.1 hv)
            (fun rounds => by rw [hrun, hv]; rfl) hcounts
        | _ =>
          refine .skipped (.tried c reply) s' hserves hsettings hlimit ⟨?_, fun h => ?_⟩
            (fun rounds => by rw [hrun, hv]; rfl) hcounts
          · refine Option.eq_none_iff_forall_ne_some.2 fun t ht => ?_
            rw [verdict_built.2 ht] at hv
            cases hv
          · rw [verdict_overflowed.2 h] at hv
            cases hv

/-! ## A whole search -/

/-- A search that stops at a round, after others that it skips, and asks for nothing more. -/
def StopsAt (P : Round → Prop) (settings : Settings) (taken : List Round) (closing : List Request) : Prop :=
  closing = [] ∧ ∃ skipped round, taken = skipped ++ [round] ∧ (∀ r ∈ skipped, r.Skipped settings.timeoutMs) ∧ P round

/-- **How a search ends** that may take `rounds` rounds and has tried some candidates before, by its outcome: the rounds
it takes, and what it asks at last. -/
def Ends (settings : Settings) (tried rounds : Nat) (taken : List Round) (closing : List Request) : Outcome → Prop
  | .found t => StopsAt (·.test? settings.timeoutMs = some t) settings taken closing
  | .overflowed => StopsAt (·.Overflows settings.timeoutMs) settings taken closing
  | .nothing => (∀ r ∈ taken, r.Skipped settings.timeoutMs) ∧ taken.length < rounds ∧
      Closes settings (tried + taken.length) closing
  | .unfinished => (∀ r ∈ taken, r.Skipped settings.timeoutMs) ∧ taken.length = rounds ∧ closing = []

theorem StopsAt.skip {P : Round → Prop} {settings : Settings} {round : Round} {taken : List Round}
    {closing : List Request} (h : StopsAt P settings taken closing) (hround : round.Skipped settings.timeoutMs) :
    StopsAt P settings (round :: taken) closing := by
  obtain ⟨hclosing, skipped, last, rfl, hskipped, hP⟩ := h
  exact ⟨hclosing, round :: skipped, last, rfl, List.forall_mem_cons.2 ⟨hround, hskipped⟩, hP⟩

theorem Ends.skip {settings : Settings} {tried rounds : Nat} {round : Round} {taken : List Round}
    {closing : List Request} {outcome : Outcome} (h : Ends settings (tried + 1) rounds taken closing outcome)
    (hround : round.Skipped settings.timeoutMs) :
    Ends settings tried (rounds + 1) (round :: taken) closing outcome := by
  cases outcome with
  | found t => exact StopsAt.skip h hround
  | overflowed => exact StopsAt.skip h hround
  | nothing =>
    obtain ⟨hskipped, hlt, hcloses⟩ := h
    refine ⟨List.forall_mem_cons.2 ⟨hround, hskipped⟩, Nat.succ_lt_succ hlt, ?_⟩
    rwa [List.length_cons, ← Nat.add_assoc, Nat.add_right_comm]
  | unfinished =>
    obtain ⟨hskipped, hlength, hclosing⟩ := h
    exact ⟨List.forall_mem_cons.2 ⟨hround, hskipped⟩, congrArg Nat.succ hlength, hclosing⟩

/-- **What a search does**: it takes some rounds, none of them beyond the limit, asks what it asks at last, and counts what
is to be counted. -/
structure Searched (host : Host ω) (tried rounds : Nat) (s : Session ω) (taken : List Round) (closing : List Request)
    (outcome : Outcome) (s' : Session ω) : Prop where
  serves : host.Serves s.world (taken.flatMap Round.requests ++ closing) s'.world
  counts : s.tally.Counts s.settings.timeoutMs (taken.flatMap Round.requests ++ closing) s'.tally
  settings : s'.settings = s.settings
  limit : ∀ n < taken.length, atLimit s.settings (tried + n) = false
  ends : Ends s.settings tried rounds taken closing outcome

/-- The last round of a search, after which it asks for nothing more. -/
theorem Searched.last {host : Host ω} {tried rounds : Nat} {s s' : Session ω} {round : Round} {outcome : Outcome}
    (hserves : host.Serves s.world round.requests s'.world)
    (hcounts : s.tally.Counts s.settings.timeoutMs round.requests s'.tally) (hsettings : s'.settings = s.settings)
    (hlimit : atLimit s.settings tried = false) (hends : Ends s.settings tried rounds [round] [] outcome) :
    Searched host tried rounds s [round] [] outcome s' := by
  refine ⟨?_, ?_, hsettings, fun n hn => ?_, hends⟩
  · rwa [List.flatMap_singleton, List.append_nil]
  · rwa [List.flatMap_singleton, List.append_nil]
  · obtain rfl : n = 0 := Nat.lt_one_iff.1 hn
    exact hlimit

/-- **Every search, unpacked**, by induction on the rounds it may take. -/
theorem search_searched (host : Host ω) (rounds tried : Nat) (s : Session ω) :
    ∃ taken closing, Searched host tried rounds s taken closing (search host rounds tried s).1
      (search host rounds tried s).2 := by
  induction rounds generalizing tried s with
  | zero => exact ⟨[], [], .nil s.world, .nil, rfl, fun n hn => (nomatch hn), ⟨List.forall_mem_nil _, rfl, rfl⟩⟩
  | succ rounds ih =>
    cases search_step host tried s with
    | closed closing s' hserves hsettings hcloses hsearch hcounts =>
      rw [hsearch rounds]
      exact ⟨[], closing, hserves, hcounts, hsettings, fun n hn => (nomatch hn),
        ⟨List.forall_mem_nil _, rounds.succ_pos, hcloses⟩⟩
    | found round t s' hserves hsettings hlimit htest hsearch hcounts =>
      rw [hsearch rounds]
      exact ⟨[round], [], .last hserves hcounts hsettings hlimit ⟨rfl, [], round, rfl, List.forall_mem_nil _, htest⟩⟩
    | overflowed round s' hserves hsettings hlimit hoverflows hsearch hcounts =>
      rw [hsearch rounds]
      exact ⟨[round], [],
        .last hserves hcounts hsettings hlimit ⟨rfl, [], round, rfl, List.forall_mem_nil _, hoverflows⟩⟩
    | skipped round s' hserves hsettings hlimit hskipped hsearch hcounts =>
      rw [hsearch rounds]
      obtain ⟨taken, closing, hrest⟩ := ih (tried + 1) s'
      refine ⟨round :: taken, closing, ?_, ?_, hrest.settings.trans hsettings, fun n hn => ?_, ?_⟩
      · rw [List.flatMap_cons, List.append_assoc]
        exact hserves.append hrest.serves
      · have hmore := hrest.counts
        rw [hsettings] at hmore
        rw [List.flatMap_cons, List.append_assoc]
        exact hcounts.append hmore
      · cases n with
        | zero => exact hlimit
        | succ n =>
          rw [← hsettings, ← Nat.add_assoc, Nat.add_right_comm]
          exact hrest.limit n (Nat.lt_of_succ_lt_succ hn)
      · have hends := hrest.ends
        rw [hsettings] at hends
        exact hends.skip hskipped

theorem generate_searched (host : Host ω) (rounds : Nat) (s : Session ω) :
    ∃ taken closing, Searched host 0 rounds s taken closing (generate host rounds s).1 (generate host rounds s).2 := by
  obtain ⟨taken, closing, hs⟩ := search_searched host rounds 0 (s.log [.generating])
  exact ⟨taken, closing, hs.serves, hs.counts, hs.settings, hs.limit, hs.ends⟩

/-- **More rounds do not change how a search ends**, once it ends. -/
theorem search_more (host : Host ω) (rounds more tried : Nat) (s : Session ω)
    (h : (search host rounds tried s).1 ≠ .unfinished) :
    search host (rounds + more) tried s = search host rounds tried s := by
  induction rounds generalizing tried s with
  | zero => exact absurd rfl h
  | succ rounds ih =>
    rw [Nat.add_right_comm]
    cases search_step host tried s with
    | closed closing s' _ _ _ hsearch => rw [hsearch, hsearch]
    | found round t s' _ _ _ _ hsearch => rw [hsearch, hsearch]
    | overflowed round s' _ _ _ _ hsearch => rw [hsearch, hsearch]
    | skipped round s' _ _ _ _ hsearch =>
      rw [hsearch] at h
      rw [hsearch, hsearch]
      exact ih (tried + 1) s' h

namespace StopsAt

variable {P : Round → Prop} {settings : Settings} {taken : List Round} {closing : List Request}

theorem ne_nil (h : StopsAt P settings taken closing) : taken ≠ [] := by
  obtain ⟨-, skipped, round, rfl, -⟩ := h
  exact List.append_ne_nil_of_right_ne_nil skipped (List.cons_ne_nil round [])

theorem exists_mem (h : StopsAt P settings taken closing) : ∃ r ∈ taken, P r := by
  obtain ⟨-, skipped, round, rfl, -, hP⟩ := h
  exact ⟨round, List.mem_append_right skipped List.mem_cons_self, hP⟩

/-- The round that a search stops at is the only one that it does not skip. -/
theorem last (h : StopsAt P settings taken closing) {before after : List Round} {round : Round}
    (htaken : taken = before ++ round :: after) (hround : ¬ round.Skipped settings.timeoutMs) :
    after = [] ∧ closing = [] := by
  obtain ⟨hclosing, skipped, final, rfl, hskipped, -⟩ := h
  refine ⟨?_, hclosing⟩
  rcases List.eq_nil_or_concat after with hnil | ⟨front, last, rfl⟩
  · exact hnil
  · rw [List.concat_eq_append, ← List.cons_append, ← List.append_assoc] at htaken
    have hfront := (List.append_inj' htaken rfl).1
    refine absurd (hskipped round ?_) hround
    rw [hfront]
    exact List.mem_append_right before List.mem_cons_self

end StopsAt

namespace Ends

variable {settings : Settings} {tried rounds : Nat} {taken : List Round} {closing : List Request} {outcome : Outcome}

theorem filterMap_skipped {skipped : List Round} (h : ∀ r ∈ skipped, r.Skipped settings.timeoutMs) :
    skipped.filterMap (Round.test? settings.timeoutMs) = [] :=
  List.filterMap_eq_nil_iff.2 fun r hr => (h r hr).1

/-- **The rounds of a search yield its test**, if it finds one, and no other. -/
theorem filterMap_test? (h : Ends settings tried rounds taken closing outcome) :
    taken.filterMap (Round.test? settings.timeoutMs) = outcome.test?.toList := by
  cases outcome with
  | found t =>
    obtain ⟨-, skipped, round, rfl, hskipped, ht⟩ := h
    rw [List.filterMap_append, filterMap_skipped hskipped, List.filterMap_cons_some ht]
    rfl
  | overflowed =>
    obtain ⟨-, skipped, round, rfl, hskipped, ho⟩ := h
    rw [List.filterMap_append, filterMap_skipped hskipped, List.filterMap_cons_none (Round.test?_of_overflows ho)]
    rfl
  | nothing => exact filterMap_skipped h.1
  | unfinished => exact filterMap_skipped h.1

theorem test?_eq (h : Ends settings tried rounds taken closing outcome) :
    outcome.test? = taken.findSome? (Round.test? settings.timeoutMs) := by
  rw [← List.head?_filterMap, h.filterMap_test?]
  cases outcome.test? <;> rfl

/-- **A search that meets a round it does not skip ends with it**, and asks for nothing more. -/
theorem last (h : Ends settings tried rounds taken closing outcome) {before after : List Round} {round : Round}
    (htaken : taken = before ++ round :: after) (hround : ¬ round.Skipped settings.timeoutMs) :
    after = [] ∧ closing = [] := by
  have hmem : round ∈ taken := by
    rw [htaken]
    exact List.mem_append_right before List.mem_cons_self
  cases outcome with
  | found t => exact StopsAt.last h htaken hround
  | overflowed => exact StopsAt.last h htaken hround
  | nothing => exact absurd (h.1 round hmem) hround
  | unfinished => exact absurd (h.1 round hmem) hround

theorem nothing_iff (h : Ends settings tried rounds taken closing outcome) :
    outcome = .nothing ↔ taken.length < rounds ∧ (∀ r ∈ taken, r.Skipped settings.timeoutMs) ∧
      Closes settings (tried + taken.length) closing := by
  constructor
  · rintro rfl
    exact ⟨h.2.1, h.1, h.2.2⟩
  · rintro ⟨hlt, hskipped, -⟩
    cases outcome with
    | found t =>
      obtain ⟨round, hround, ht⟩ := StopsAt.exists_mem h
      rw [(hskipped round hround).1] at ht
      cases ht
    | overflowed =>
      obtain ⟨round, hround, ho⟩ := StopsAt.exists_mem h
      exact absurd ho (hskipped round hround).2
    | nothing => rfl
    | unfinished => exact absurd h.2.1 (Nat.ne_of_lt hlt)

theorem of_overflowed (h : Ends settings tried rounds taken closing outcome) (hoverflowed : outcome = .overflowed) :
    ∃ r ∈ taken, r.Overflows settings.timeoutMs := by
  subst hoverflowed
  exact StopsAt.exists_mem h

theorem of_unfinished (h : Ends settings tried rounds taken closing outcome) (hunfinished : outcome = .unfinished) :
    taken.length = rounds ∧ ∀ r ∈ taken, r.Skipped settings.timeoutMs := by
  subst hunfinished
  exact ⟨h.2.1, h.1⟩

theorem closing_eq (h : Ends settings tried rounds taken closing outcome) :
    closing = [] ∨ ∃ answer, closing = [.hasNext answer] := by
  cases outcome with
  | found t => exact .inl h.1
  | overflowed => exact .inl h.1
  | nothing =>
    rcases h.2.2 with ⟨hclosing, -⟩ | hclosing | ⟨e, hclosing⟩
    · exact .inl hclosing
    · exact .inr ⟨_, hclosing⟩
    · exact .inr ⟨_, hclosing⟩
  | unfinished => exact .inl h.2.2

end Ends

/-- **No search takes more candidates than it may.** -/
theorem Searched.length_le {rounds : Nat} {s s' : Session ω} {taken : List Round} {closing : List Request}
    {outcome : Outcome} (h : Searched host 0 rounds s taken closing outcome s') {n : UInt64}
    (hn : s.settings.maxCandidates = some n) : taken.length ≤ n.toNat := by
  cases htaken : taken.length with
  | zero => exact Nat.zero_le _
  | succ k =>
    have hk := h.limit k (by omega)
    rw [atLimit, hn, Nat.zero_add, Option.any_some, decide_eq_false_iff_not, Nat.not_le] at hk
    exact hk

/-- **First-success search**, by the rounds taken and what is asked at last.  At most as many candidates are taken as
may be.  The test found is that of the first round that yields one, and a round that is not skipped is the last, after
which nothing more is asked.  Nothing is found just if all rounds are skipped and then the limit is reached, or no
candidate is left, or it cannot be found out whether one is. -/
structure FirstSuccess (settings : Settings) (rounds : Nat) (taken : List Round) (closing : List Request)
    (outcome : Outcome) : Prop where
  limit : ∀ n, settings.maxCandidates = some n → taken.length ≤ n.toNat
  test : outcome.test? = taken.findSome? (Round.test? settings.timeoutMs)
  last : ∀ before round after, taken = before ++ round :: after → ¬ round.Skipped settings.timeoutMs →
    after = [] ∧ closing = []
  nothing : outcome = .nothing ↔ taken.length < rounds ∧ (∀ r ∈ taken, r.Skipped settings.timeoutMs) ∧
    (closing = [] ∧ (∃ n, settings.maxCandidates = some n ∧ taken.length = n.toNat) ∨
      closing = [.hasNext (.ok false)] ∨ ∃ e, closing = [.hasNext (.error e)])
  overflowed : outcome = .overflowed → ∃ r ∈ taken, r.Overflows settings.timeoutMs
  unfinished : outcome = .unfinished → taken.length = rounds ∧ ∀ r ∈ taken, r.Skipped settings.timeoutMs

theorem Searched.firstSuccess {rounds : Nat} {s s' : Session ω} {taken : List Round} {closing : List Request}
    {outcome : Outcome} (h : Searched host 0 rounds s taken closing outcome s') :
    FirstSuccess s.settings rounds taken closing outcome := by
  refine ⟨fun n => h.length_le, h.ends.test?_eq, fun _ _ _ => h.ends.last, ?_, h.ends.of_overflowed,
    h.ends.of_unfinished⟩
  -- a search that has reached its limit has taken just as many candidates as it may
  have hlimit : atLimit s.settings taken.length = true ↔
      ∃ n, s.settings.maxCandidates = some n ∧ taken.length = n.toNat := by
    rw [atLimit_iff]
    refine exists_congr fun n => and_congr_right fun hn => ⟨fun hle => ?_, fun heq => Nat.le_of_eq heq.symm⟩
    exact Nat.le_antisymm (h.length_le hn) hle
  rw [h.ends.nothing_iff, Closes, Nat.zero_add, hlimit]

end Session

/-! ## Queues -/

/-- **A host with a queue of candidates**: it has a candidate while the queue has one, gives the first and drops it, and
never fails.  Its solver has a state of its own.  `Holds w q st` says that `q` is queued and the solver is in state `st`
when the host is in state `w`. -/
structure Host.Fifo {ω σ : Type} (host : Host ω) (solver : σ → Candidate → Reply × σ)
    (Holds : ω → List Candidate → σ → Prop) : Prop where
  hasNext : ∀ {w q st}, Holds w q st → ∃ w', host.hasNext w = (.ok !q.isEmpty, w') ∧ Holds w' q st
  next : ∀ {w c q st}, Holds w (c :: q) st → ∃ w', host.next w = (.ok c, w') ∧ Holds w' q st
  solve : ∀ {w q st} (c : Candidate), Holds w q st →
    ∃ w', host.solve c.method c.state w = ((solver st c).1, w') ∧ Holds w' q (solver st c).2

/-- The rounds in which a solver is given some candidates, each once, in order. -/
def Round.solved {σ : Type} (solver : σ → Candidate → Reply × σ) : List Candidate → σ → List Round
  | [], _ => []
  | c :: q, st => .tried c (solver st c).1 :: solved solver q (solver st c).2

def Round.solverAfter {σ : Type} (solver : σ → Candidate → Reply × σ) (q : List Candidate) (st : σ) : σ :=
  q.foldl (fun st c => (solver st c).2) st

theorem Round.length_solved {σ : Type} (solver : σ → Candidate → Reply × σ) : ∀ (q : List Candidate) (st : σ),
    (solved solver q st).length = q.length
  | [], _ => rfl
  | c :: q, st => congrArg Nat.succ (length_solved solver q (solver st c).2)

theorem Round.solved_append {σ : Type} (solver : σ → Candidate → Reply × σ) : ∀ (q more : List Candidate) (st : σ),
    solved solver (q ++ more) st = solved solver q st ++ solved solver more (solverAfter solver q st)
  | [], _, _ => rfl
  | c :: q, more, st => congrArg (Round.tried c (solver st c).1 :: ·) (solved_append solver q more (solver st c).2)

namespace Host.Fifo

open Round (solved solverAfter)
open Session (Searched atLimit_iff)

variable {ω σ : Type} {host : Host ω} {solver : σ → Candidate → Reply × σ} {Holds : ω → List Candidate → σ → Prop}
  {w w' : ω} {q : List Candidate} {st : σ}

theorem after_hasNext (h : host.Fifo solver Holds) (hw : Holds w q st) {answer : Except Fault Bool}
    (hanswer : host.Answers w (.hasNext answer) w') : answer = .ok !q.isEmpty ∧ Holds w' q st := by
  obtain ⟨w₁, hhas, hw₁⟩ := h.hasNext hw
  have heq : (answer, w') = (.ok !q.isEmpty, w₁) := hanswer.symm.trans hhas
  cases heq
  exact ⟨rfl, hw₁⟩

/-- **The rounds of a search over a queue** try the candidates at its head. -/
theorem serves (h : host.Fifo solver Holds) {taken : List Round} (hw : Holds w q st)
    (hserves : host.Serves w (taken.flatMap Round.requests) w') :
    ∃ tried left, q = tried ++ left ∧ taken = solved solver tried st ∧ Holds w' left (solverAfter solver tried st) := by
  induction taken generalizing w q st with
  | nil =>
    cases hserves
    exact ⟨[], q, rfl, rfl, hw⟩
  | cons round taken ih =>
    obtain ⟨w₄, hround, hrest⟩ := hserves.split
    obtain ⟨w₁, hhas, hasked⟩ : ∃ w₁, host.Answers w (.hasNext (.ok true)) w₁ ∧
        host.Serves w₁ round.requests.tail w₄ := by cases round <;> exact hround.uncons
    obtain ⟨hanswer, hw₁⟩ := h.after_hasNext hw hhas
    cases q with
    | nil => cases hanswer
    | cons c q =>
      obtain ⟨w₂, hnext, hw₂⟩ := h.next hw₁
      cases round with
      | failed e =>
        obtain ⟨_, hfailed, -⟩ := hasked.uncons
        cases hfailed.symm.trans hnext
      | tried c' reply =>
        obtain ⟨_, hgiven, hsolved⟩ := hasked.uncons
        cases hgiven.symm.trans hnext
        obtain ⟨_, hreply, hdone⟩ := hsolved.uncons
        obtain ⟨_, hsolve, hw₃⟩ := h.solve c hw₂
        cases hreply.symm.trans hsolve
        cases hdone
        obtain ⟨tried, left, rfl, rfl, hw'⟩ := ih hw₃ hrest
        exact ⟨c :: tried, left, rfl, rfl, hw'⟩

/-- **One search over a queue** tries some of the candidates at its head, and returns a test just if one of them yields
one.  It tries at least one if there is one to try. -/
theorem searched (h : host.Fifo solver Holds) {rounds : Nat} {s s' : Session ω} {taken : List Round}
    {closing : List Request} {outcome : Session.Outcome} (hw : Holds s.world q st)
    (hs : Searched host 0 rounds s taken closing outcome s') (hcap : s.settings.maxCandidates ≠ some 0)
    (hrounds : 0 < rounds) :
    ∃ tried left, q = tried ++ left ∧ taken = solved solver tried st ∧
      Holds s'.world left (solverAfter solver tried st) ∧ (q ≠ [] → tried ≠ []) := by
  obtain ⟨w₁, htaken, hclosing⟩ := hs.serves.split
  obtain ⟨tried, left, rfl, rfl, hw₁⟩ := h.serves hw htaken
  refine ⟨tried, left, rfl, rfl, ?_, fun hq htried => ?_⟩
  · rcases hs.ends.closing_eq with rfl | ⟨answer, rfl⟩
    · cases hclosing
      exact hw₁
    · obtain ⟨w₂, hhas, hnil⟩ := hclosing.uncons
      cases hnil
      exact (h.after_hasNext hw₁ hhas).2
  · -- a search that has taken no round had a reason to stop at once, and there is none
    subst htried
    have hends := hs.ends
    cases outcome with
    | found t => exact Session.StopsAt.ne_nil hends rfl
    | overflowed => exact Session.StopsAt.ne_nil hends rfl
    | nothing =>
      have hfull : left.isEmpty = false := by
        cases left with
        | nil => exact absurd rfl hq
        | cons c left => rfl
      rcases hends.2.2 with ⟨-, hlimit⟩ | rfl | ⟨e, rfl⟩
      · obtain ⟨n, hn, hzero⟩ := atLimit_iff.1 hlimit
        exact hcap (hn.trans (congrArg some (UInt64.toNat_inj.1 (Nat.le_zero.1 hzero))))
      · obtain ⟨w₂, hhas, -⟩ := hclosing.uncons
        have hanswer := (h.after_hasNext hw₁ hhas).1
        rw [hfull] at hanswer
        cases hanswer
      · obtain ⟨w₂, hhas, -⟩ := hclosing.uncons
        cases (h.after_hasNext hw₁ hhas).1
    | unfinished => exact absurd hends.2.1 (Nat.ne_of_lt hrounds)

end Host.Fifo

namespace Session

variable {ω : Type}

def generateTimes (host : Host ω) (rounds : Nat) : Nat → Session ω → List Outcome × Session ω
  | 0, s => ([], s)
  | calls + 1, s =>
    let (outcome, s) := generate host rounds s
    let (outcomes, s) := generateTimes host rounds calls s
    (outcome :: outcomes, s)

theorem generateTimes_succ (host : Host ω) (rounds calls : Nat) (s : Session ω) :
    generateTimes host rounds (calls + 1) s =
      ((generate host rounds s).1 :: (generateTimes host rounds calls (generate host rounds s).2).1,
        (generateTimes host rounds calls (generate host rounds s).2).2) := rfl

theorem maxCandidates_ne_zero {settings : Settings} (h : Checked.check settings = .ok ()) :
    settings.maxCandidates ≠ some 0 := by
  intro hzero
  simp only [Checked.check, Settings.validate, hzero] at h
  split at h
  · cases h
  · split at h <;> cases h

/-- **Searches in a row over a queue** try the candidates at its head, one after the other, and find just the tests that
these yield; after as many searches as there are candidates, all are tried. -/
theorem generateTimes_fifo {σ : Type} {host : Host ω} {solver : σ → Candidate → Reply × σ}
    {Holds : ω → List Candidate → σ → Prop} (h : host.Fifo solver Holds) {rounds : Nat} (hrounds : 0 < rounds)
    (calls : Nat) {s : Session ω} {q : List Candidate} {st : σ} (hcap : s.settings.maxCandidates ≠ some 0)
    (hw : Holds s.world q st) :
    ∃ tried left, q = tried ++ left ∧ (q.length ≤ calls → left = []) ∧
      Holds (generateTimes host rounds calls s).2.world left (Round.solverAfter solver tried st) ∧
      (generateTimes host rounds calls s).1.filterMap Outcome.test? =
        (Round.solved solver tried st).filterMap (Round.test? s.settings.timeoutMs) ∧
      (q.length < rounds → ∀ outcome ∈ (generateTimes host rounds calls s).1, outcome ≠ .unfinished) := by
  induction calls generalizing s q st with
  | zero =>
    refine ⟨[], q, rfl, fun hq => List.eq_nil_of_length_eq_zero (Nat.le_zero.1 hq), hw, rfl, fun _ outcome ho => ?_⟩
    cases ho
  | succ calls ih =>
    obtain ⟨taken, closing, hs⟩ := generate_searched host rounds s
    obtain ⟨tried, rest, rfl, rfl, hw₁, hprogress⟩ := h.searched hw hs hcap hrounds
    have hcap₁ : (generate host rounds s).2.settings.maxCandidates ≠ some 0 := by rwa [hs.settings]
    obtain ⟨more, left, rfl, hleft, hw₂, htests, hfinished⟩ := ih hcap₁ hw₁
    have hfirst := hs.ends.filterMap_test?
    rw [hs.settings] at htests
    refine ⟨tried ++ more, left, (List.append_assoc _ _ _).symm, fun hlength => ?_, ?_, ?_, fun hlt outcome ho => ?_⟩
    · cases tried with
      | nil =>
        have hnil : more ++ left = [] := Classical.not_not.1 fun hq => hprogress hq rfl
        exact (List.append_eq_nil_iff.1 hnil).2
      | cons c tried =>
        rw [List.cons_append, List.length_cons, List.length_append] at hlength
        exact hleft (by omega)
    · rw [Round.solverAfter, List.foldl_append]
      exact hw₂
    · rw [Round.solved_append, List.filterMap_append, hfirst, ← htests, generateTimes_succ, List.filterMap_cons]
      cases (generate host rounds s).1.test? <;> rfl
    · rw [List.length_append] at hlt
      rw [generateTimes_succ] at ho
      rcases List.mem_cons.1 ho with rfl | ho
      · intro hunfinished
        have hlength := (hs.ends.of_unfinished hunfinished).1
        rw [Round.length_solved] at hlength
        omega
      · exact hfinished (by omega) outcome ho

/-- **A search is first-success search in the order of its host**; the bound on its rounds plays no part once it ends.

Over a host with a queue, searches in a row find just the tests that the candidates yield when each is solved once, in
order, whatever the limit; as many searches as there are candidates empty the queue. -/
theorem generate_first_success (host : Host ω) (rounds : Nat) (s : Session ω) :
    (∃ taken closing, host.Serves s.world (taken.flatMap Round.requests ++ closing) (generate host rounds s).2.world ∧
      FirstSuccess s.settings rounds taken closing (generate host rounds s).1) ∧
    ((generate host rounds s).1 ≠ .unfinished → ∀ more, generate host (rounds + more) s = generate host rounds s) ∧
    ∀ {σ : Type} {solver : σ → Candidate → Reply × σ} {Holds : ω → List Candidate → σ → Prop},
      host.Fifo solver Holds → Checked.check s.settings = .ok () → 0 < rounds → ∀ {q st}, Holds s.world q st →
      ∀ calls, ∃ tried left, q = tried ++ left ∧ (q.length ≤ calls → left = []) ∧
        Holds (generateTimes host rounds calls s).2.world left (Round.solverAfter solver tried st) ∧
        (generateTimes host rounds calls s).1.filterMap Outcome.test? =
          (Round.solved solver tried st).filterMap (Round.test? s.settings.timeoutMs) ∧
        (q.length < rounds → ∀ outcome ∈ (generateTimes host rounds calls s).1, outcome ≠ .unfinished) := by
  obtain ⟨taken, closing, hs⟩ := generate_searched host rounds s
  refine ⟨⟨taken, closing, hs.serves, hs.firstSuccess⟩, fun hends more => search_more host rounds more 0 _ hends, ?_⟩
  intro σ solver Holds hfifo hvalid hrounds q st hw calls
  exact generateTimes_fifo hfifo hrounds calls (maxCandidates_ne_zero hvalid) hw

end Session

namespace Script

/-- The solver of a script gives the scripted replies, one after the other. -/
def solver (replies : List ScriptedReply) (_ : Candidate) : Reply × List ScriptedReply :=
  ((replies.headD .unsat).reply, replies.tail)

/-- A script by which no candidate fails, with its queue and the replies that are left. -/
structure Queues (s : Script) (q : List Candidate) (replies : List ScriptedReply) : Prop where
  candidates : s.candidates = q
  replies : s.replies = replies
  hasNext : s.hasNextFailAt = []
  next : s.nextFailAt = []
  ends : s.endless = false

theorem host_fifo : host.Fifo solver Queues := by
  refine ⟨fun {s q replies} h => ?_, fun {s c q replies} h => ?_, fun {s q replies} c h => ?_⟩
  · refine ⟨{ s with hasNexts := s.hasNexts + 1 }, ?_, h.candidates, h.replies, h.hasNext, h.next, h.ends⟩
    simp [host, hasNext, h.hasNext, h.ends, h.candidates]
  · refine ⟨{ s with nexts := s.nexts + 1, seen := s.seen ++ [.next], candidates := q }, ?_, rfl, h.replies, h.hasNext,
      h.next, h.ends⟩
    simp [host, next, h.candidates, h.next]
  · refine ⟨(host.solve c.method c.state s).2, ?_, h.candidates, ?_, h.hasNext, h.next, h.ends⟩
    · simp [host, solve, solver, h.replies]
    · simp [host, solve, solver, h.replies]

end Script

namespace Session

def negate : Method := ⟨⟨"Calc", false⟩, "negate", ⟨[.int], .int⟩, true⟩

def negateFour : Inputs Shape := { arguments := [.constant (.scalar (.int 4))] }

/-- Three candidates, of which the first has no solution and the last is solved too late; a search may try one. -/
def threeQueued : Session Script where
  settings := { maxCandidates := some 1 }
  world := {
    candidates := List.replicate 3 ⟨negate, []⟩
    replies := [.unsat, .solve negateFour, .slow 12000 negateFour] }

/-- Three searches find the one test there is. -/
theorem generate_first_success_queued :
    Checked.check threeQueued.settings = .ok () ∧
      (generateTimes Script.host 4 3 threeQueued).1.filterMap Outcome.test? =
        (Round.solved Script.solver threeQueued.world.candidates threeQueued.world.replies).filterMap
          (Round.test? threeQueued.settings.timeoutMs) ∧
      ((generateTimes Script.host 4 3 threeQueued).1.filterMap Outcome.test?).length = 1 := by
  have hvalid : Checked.check threeQueued.settings = .ok () := rfl
  obtain ⟨-, -, hqueue⟩ := generate_first_success Script.host 4 threeQueued
  obtain ⟨tried, left, hsplit, hleft, -, htests, -⟩ := hqueue Script.host_fifo hvalid (by decide)
    ⟨rfl, rfl, rfl, rfl, rfl⟩ 3
  rw [hleft (by decide), List.append_nil] at hsplit
  refine ⟨hvalid, ?_, by decide +kernel⟩
  rw [hsplit]
  exact htests

end Session
end Retrace
