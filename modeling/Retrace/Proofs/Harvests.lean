import Retrace.Proofs.Exchanges
import Retrace.Proofs.FailStop
import Retrace.Proofs.SiteOrder
import Retrace.Session.Script
/-!
# Harvests — what is kept of each execution

A harvest runs tests, each under a new recorder, and hands the traces of its calls to the host.  What comes of one test
is an episode (`Episode`): the run fails and nothing is handed over; or the traces are, in the order of their call
sites, up to the first that the host does not take.  A harvest is one episode after another, one for each test
(`Session.collect_isolates`), and its counts are those of its episodes.

Whatever is called on a recorder, its sites stay in order and each has a trace that is not empty (`Recorder.Noted`), so
that no trace is ever passed over.
-/
namespace Retrace

open Host (Request)

namespace Recorder

variable {r r' : Recorder}

/-! ## The sites of a recorder -/

/-- **The sites of a recorder are in order**, and the trace of each is a part of the trace that is not empty. -/
structure Noted (r : Recorder) : Prop where
  ordered : r.sites.Ordered
  length : ∀ e ∈ r.sites, 0 < e.2 ∧ e.2 ≤ r.trace.length

theorem Noted.mono (h : r.Noted) (hsites : r'.sites = r.sites) (htrace : r.trace <+: r'.trace) : r'.Noted := by
  refine ⟨by rw [hsites]; exact h.ordered, fun e he => ?_⟩
  rw [hsites] at he
  exact ⟨(h.length e he).1, Nat.le_trans (h.length e he).2 htrace.length_le⟩

theorem Noted.before (h : r.Noted) (a : Action) : (endState (before a r)).Noted := by
  by_cases hready : r.Ready
  · rw [before_ready hready]
    cases a.recording r.catalog r.cache with
    | error e c => exact h.mono rfl (List.prefix_refl _)
    | ok rec c => exact h.mono rfl (List.prefix_append _ _)
  · obtain ⟨e, he⟩ := before_busy hready a
    rw [he]
    exact h

theorem Noted.after (h : r.Noted) (ticket : Ticket) (thrown : Option Thrown) :
    (endState (after ticket thrown r)).Noted := by
  by_cases hphase : r.phase = .recording
  · obtain ⟨journal, hafter⟩ := after_recording hphase ticket thrown
    rw [hafter]
    cases hpending : ticket.pending with
    | none =>
      refine h.mono ?_ (List.prefix_append _ _)
      simp only [endState, Ticket.noted, hpending]
    | some p =>
      have hnoted : ∀ n, ticket.noted n r.sites = Sites.insert ⟨ticket.position, p.method⟩ n r.sites := fun n => by
        rw [Ticket.noted, hpending]
      have hlate : ticket.late = [p.clause] := by rw [Ticket.late, hpending]; rfl
      constructor
      · simp only [endState, hnoted]
        exact h.ordered.insert _ _
      · intro e he
        simp only [endState, hnoted] at he
        simp only [endState, hlate, List.length_append, List.length_singleton]
        rcases Sites.mem_insert he with rfl | he
        · exact ⟨Nat.succ_pos _, Nat.le_refl _⟩
        · exact ⟨(h.length e he).1, Nat.le_succ_of_le (h.length e he).2⟩
  · obtain ⟨e, he⟩ := after_idle hphase ticket thrown
    rw [he]
    exact h

theorem Noted.probe (h : r.Noted) (p : Probe) : (r.probe p).2.Noted := by
  by_cases hphase : r.phase = .recording
  · cases p with
    | isLive => exact h
    | record c =>
      simp only [Recorder.probe, hphase, if_true]
      exact h.mono rfl (List.prefix_append _ _)
    | termOf ref =>
      simp only [Recorder.probe, hphase, if_true]
      split <;> exact h.mono rfl (List.prefix_refl _)
  · rw [probe_idle hphase]
    exact h

theorem Noted.finish (h : r.Noted) : r.finish.Noted := by
  obtain ⟨journal, hfinish⟩ := r.finish_eq
  rw [hfinish]
  exact h.mono rfl (List.prefix_refl _)

theorem noted_new (cat : Catalog) (journal : List Event) : Noted { catalog := cat, journal } :=
  ⟨List.Pairwise.nil, List.forall_mem_nil _⟩

theorem Noted.serve (h : r.Noted) (hook : Hook Ticket) : (r.serve hook).Noted := by
  cases hook with
  | before a => exact h.before a
  | after ticket thrown => exact h.after ticket thrown
  | probe p => exact h.probe p
  | output position text => exact h
  | finish => exact h.finish
  | clear => exact noted_new r.catalog r.journal

/-- **The sites of a recorder stay in order** under any calls. -/
theorem Reachable.noted {cat : Catalog} (h : Reachable cat r) : r.Noted := by
  have hall : ∀ (hooks : List (Hook Ticket)) (r : Recorder), r.Noted → (hooks.foldl Recorder.serve r).Noted := by
    intro hooks
    induction hooks with
    | nil => exact fun r h => h
    | cons hook hooks ih => exact fun r h => ih _ (h.serve hook)
  obtain ⟨hooks, rfl⟩ := h
  exact hall hooks _ (noted_new cat [])

theorem callTraces_finish (r : Recorder) : r.finish.callTraces = r.callTraces := by
  obtain ⟨journal, hfinish⟩ := r.finish_eq
  rw [hfinish]
  rfl

theorem Noted.callTraces_ne_nil (h : r.Noted) : ∀ x ∈ r.callTraces, x.2 ≠ [] := by
  intro x hx
  obtain ⟨⟨site, n⟩, he, rfl⟩ := List.mem_map.1 hx
  obtain ⟨hpos, hle⟩ := h.length _ he
  rw [← List.length_pos_iff]
  simp only [List.length_take]
  omega

theorem Noted.callTraces_ordered (h : r.Noted) : r.callTraces.Pairwise fun x y => x.1.Before y.1 :=
  List.pairwise_map.2 h.ordered

end Recorder

/-! ## Episodes -/

/-- A recorder after some calls on it, whatever they are. -/
def Recorder.Driven (r r' : Recorder) : Prop := ∃ hooks : List (Hook Ticket), r' = hooks.foldl Recorder.serve r

/-- A host that runs tests by calls on the recorder it is given. -/
def Host.Drives {ω : Type} (host : Host ω) : Prop :=
  ∀ (test : Test) (r : Recorder) (w : ω), r.Driven (host.run test r w).2.1

def Host.Request.taken (x : CallSite × Trace) : Request := .addTrace x.1.method x.2 (.ok ())

def Host.Request.registered? : Request → Option (Method × Trace)
  | .addTrace method trace (.ok _) => some (method, trace)
  | _ => none

/-- **What comes of one test**, which has left its recorder in some state. -/
inductive Episode where
  | failed (test : Test) (left : Recorder) (fault : Fault)
  | harvested (test : Test) (left : Recorder)
  /-- The host takes some traces, but not the next. -/
  | cut (test : Test) (left : Recorder) (added : List (CallSite × Trace)) (site : CallSite) (trace : Trace)
      (fault : Fault)

namespace Episode

def test : Episode → Test
  | .failed test _ _ | .harvested test _ | .cut test _ _ _ _ _ => test

def left : Episode → Recorder
  | .failed _ left _ | .harvested _ left | .cut _ left _ _ _ _ => left

def isFailure : Episode → Bool
  | .failed _ _ _ | .cut _ _ _ _ _ _ => true
  | .harvested _ _ => false

/-- The traces that the host has taken: those of all calls, or those before the one that it has not. -/
def added : Episode → List (CallSite × Trace)
  | .failed _ _ _ => []
  | .harvested _ left => left.callTraces
  | .cut _ _ added _ _ _ => added

/-- The recorder was driven by calls; and the traces taken, and the one that is not, are the first of its traces. -/
def Fits (cat : Catalog) : Episode → Prop
  | .failed _ left _ | .harvested _ left => Recorder.Reachable cat left
  | .cut _ left added site trace _ =>
    Recorder.Reachable cat left ∧ ∃ rest, left.callTraces = added ++ (site, trace) :: rest

/-- What is asked of the host: to run the test under a new recorder, and to take the traces, one after the other. -/
def requests (cat : Catalog) : Episode → List Request
  | .failed test left e => [.run test { catalog := cat } left (.error e)]
  | .harvested test left => .run test { catalog := cat } left (.ok ()) :: left.callTraces.map Request.taken
  | .cut test left added site trace e =>
    .run test { catalog := cat } left (.ok ()) :: (added.map Request.taken ++ [.addTrace site.method trace (.error e)])

def registered (e : Episode) : List (Method × Trace) := e.added.map fun x => (x.1.method, x.2)

theorem Fits.reachable {cat : Catalog} {e : Episode} (h : e.Fits cat) : Recorder.Reachable cat e.left := by
  cases e with
  | failed => exact h
  | harvested => exact h
  | cut => exact h.1

theorem filterMap_taken (xs : List (CallSite × Trace)) :
    (xs.map Request.taken).filterMap Request.registered? = xs.map fun x => (x.1.method, x.2) := by
  rw [List.filterMap_map, ← List.filterMap_eq_map]
  rfl

/-- What the host has taken in an episode is what it was asked to take and took. -/
theorem filterMap_registered? (cat : Catalog) (e : Episode) :
    (e.requests cat).filterMap Request.registered? = e.registered := by
  cases e with
  | failed test left e => rfl
  | harvested test left => exact filterMap_taken left.callTraces
  | cut test left added site trace e =>
    show (added.map Request.taken ++ [_]).filterMap Request.registered? = _
    rw [List.filterMap_append, filterMap_taken]
    exact List.append_nil _

end Episode

def Harvest.adding (h : Harvest) (n : Nat) : Harvest := { h with registered := h.registered + n }

theorem Harvest.adding_adding (h : Harvest) (m n : Nat) : (h.adding m).adding n = h.adding (m + n) := by
  simp only [adding, Nat.add_assoc]

def Harvest.counting (h : Harvest) (episodes : List Episode) : Harvest where
  executions := h.executions + episodes.length
  failures := h.failures + episodes.countP Episode.isFailure
  registered := h.registered + (episodes.flatMap Episode.registered).length
  empty := h.empty

theorem Harvest.counting_cons (h : Harvest) (e : Episode) (episodes : List Episode) :
    (h.counting [e]).counting episodes = h.counting (e :: episodes) := by
  simp only [counting, List.length_cons, List.length_nil, List.countP_cons, List.countP_nil, List.flatMap_cons,
    List.flatMap_nil, List.length_append, List.append_nil]
  congr 1 <;> omega

namespace Session

variable {ω : Type} {host : Host ω}

/-- **Handing over traces, none of which is empty**: the host takes all of them, or all up to one. -/
theorem register_cases (host : Host ω) : ∀ {traces : List (CallSite × Trace)} (h : Harvest) (w : ω),
    (∀ x ∈ traces, x.2 ≠ []) →
    (∃ w', register host traces h w = (.ok (), h.adding traces.length, w') ∧
      host.Serves w (traces.map Request.taken) w') ∨
    ∃ added site trace rest e w', traces = added ++ (site, trace) :: rest ∧
      register host traces h w = (.error e, h.adding added.length, w') ∧
      host.Serves w (added.map Request.taken ++ [.addTrace site.method trace (.error e)]) w'
  | [], h, w, _ => .inl ⟨w, rfl, .nil w⟩
  | (site, trace) :: rest, h, w, htraces => by
    obtain ⟨htrace, hrest⟩ := List.forall_mem_cons.1 htraces
    have hfull : trace.isEmpty = false := List.isEmpty_eq_false_iff.2 htrace
    rcases hadd : host.addTrace site.method trace w with ⟨e | _, w₁⟩
    · refine .inr ⟨[], site, trace, rest, e, w₁, rfl, ?_, .single hadd⟩
      simp [register, hfull, hadd, Harvest.adding]
    · have hstep : register host ((site, trace) :: rest) h w = register host rest (h.adding 1) w₁ := by
        simp [register, hfull, hadd, Harvest.adding]
      have hcount : ∀ n, (h.adding 1).adding n = h.adding (n + 1) := fun n => by
        rw [Harvest.adding_adding, Nat.add_comm]
      rcases register_cases host (h.adding 1) w₁ hrest with
        ⟨w', hregister, hserves⟩ | ⟨added, site', trace', rest', e, w', rfl, hregister, hserves⟩
      · rw [hcount] at hregister
        exact .inl ⟨w', hstep.trans hregister, .cons hadd hserves⟩
      · rw [hcount] at hregister
        exact .inr ⟨(site, trace) :: added, site', trace', rest', e, w', rfl, hstep.trans hregister, .cons hadd hserves⟩

/-- **One test is one episode**: its traces are counted, and it fails just if the episode is a failure. -/
theorem harvest_episode (hdrives : host.Drives) (cat : Catalog) (test : Test) (h : Harvest) (s : Session ω) :
    ∃ (e : Episode) (answer : Except Fault Unit) (s' : Session ω),
      harvest host cat test h s = (answer, h.adding e.registered.length, s') ∧ answer.isOk = !e.isFailure ∧
      e.test = test ∧ e.Fits cat ∧ host.Serves s.world (e.requests cat) s'.world := by
  obtain ⟨hooks, hhooks⟩ := hdrives test { catalog := cat } s.world
  rcases hrun : host.run test { catalog := cat } s.world with ⟨e | _, r, w⟩
  · rw [hrun] at hhooks
    refine ⟨.failed test r e, .error e, log { s with world := w } r.journal, ?_, rfl, rfl, ⟨hooks, hhooks⟩,
      .single hrun⟩
    simp only [harvest, hrun]
    rfl
  · rw [hrun] at hhooks
    have hreach : Recorder.Reachable cat r := ⟨hooks, hhooks⟩
    rcases register_cases host h w hreach.noted.callTraces_ne_nil with
      ⟨w', hregister, hserves⟩ | ⟨added, site, trace, rest, e, w', htraces, hregister, hserves⟩
    · refine ⟨.harvested test r, .ok (), log { s with world := w' } r.finish.journal, ?_, rfl, rfl, hreach,
        .cons hrun hserves⟩
      simp only [harvest, hrun, Recorder.callTraces_finish, hregister, Episode.registered, Episode.added,
        List.length_map]
    · refine ⟨.cut test r added site trace e, .error e, log { s with world := w' } r.finish.journal, ?_, rfl, rfl,
        ⟨hreach, rest, htraces⟩, .cons hrun hserves⟩
      simp only [harvest, hrun, Recorder.callTraces_finish, hregister, Episode.registered, Episode.added,
        List.length_map]

/-- The first test of some that are harvested. -/
theorem collectFrom_cons (hdrives : host.Drives) (cat : Catalog) (index : Nat) (test : Test) (tests : List Test)
    (h : Harvest) (s : Session ω) :
    ∃ (e : Episode) (s' : Session ω), collectFrom host cat index (test :: tests) h s =
        collectFrom host cat (index + 1) tests (h.counting [e]) s' ∧
      e.test = test ∧ e.Fits cat ∧ host.Serves s.world (e.requests cat) s'.world := by
  obtain ⟨e, answer, s', hharvest, hanswer, htest, hfits, hserves⟩ :=
    harvest_episode hdrives cat test { h with executions := h.executions + 1 } s
  cases answer with
  | ok _ =>
    refine ⟨e, s', ?_, htest, hfits, hserves⟩
    have hsuccess : e.isFailure = false := by
      cases hfailure : e.isFailure with
      | false => rfl
      | true => rw [hfailure] at hanswer; cases hanswer
    simp [collectFrom, hharvest, Harvest.counting, Harvest.adding, hsuccess]
  | error fault =>
    refine ⟨e, s'.log [.testFailed index fault test], ?_, htest, hfits, hserves⟩
    have hfailure : e.isFailure = true := by
      cases hfailure : e.isFailure with
      | true => rfl
      | false => rw [hfailure] at hanswer; cases hanswer
    simp [collectFrom, hharvest, Harvest.counting, Harvest.adding, hfailure]

/-- **The tests of a harvest are its episodes**, by induction on the tests. -/
theorem collectFrom_episodes (hdrives : host.Drives) (cat : Catalog) (tests : List Test) (index : Nat) (h : Harvest)
    (s : Session ω) :
    ∃ (episodes : List Episode) (s' : Session ω), collectFrom host cat index tests h s = (h.counting episodes, s') ∧
      episodes.map Episode.test = tests ∧ (∀ e ∈ episodes, e.Fits cat) ∧
      host.Serves s.world (episodes.flatMap (Episode.requests cat)) s'.world := by
  induction tests generalizing index h s with
  | nil => exact ⟨[], s, rfl, rfl, List.forall_mem_nil _, .nil s.world⟩
  | cons test tests ih =>
    obtain ⟨e, s₁, hfirst, htest, hfits, hserves⟩ := collectFrom_cons hdrives cat index test tests h s
    obtain ⟨episodes, s', hrest, hmap, hall, hserves'⟩ := ih (index + 1) (h.counting [e]) s₁
    refine ⟨e :: episodes, s', ?_, by rw [List.map_cons, htest, hmap], List.forall_mem_cons.2 ⟨hfits, hall⟩,
      hserves.append hserves'⟩
    rw [hfirst, hrest, Harvest.counting_cons]

/-- **A harvest isolates its executions.**  Every test is run once, in order, each under a new recorder, and is one
episode; what one does leaves the others alone.  The host has taken the traces of the episodes, one episode after the
other: none if the run failed, and else those of the calls, by position first, up to the one that it did not take.  The
counts say how many tests, failures and traces there were; no trace is empty. -/
theorem collect_isolates (host : Host ω) (hdrives : host.Drives) (cat : Catalog) (tests : List Test) (s : Session ω) :
    ∃ episodes : List Episode, episodes.map Episode.test = tests ∧
      host.Serves s.world (episodes.flatMap (Episode.requests cat)) (collect host cat tests s).2.world ∧
      (∀ e ∈ episodes, e.Fits cat ∧ e.left.callTraces.Pairwise fun x y => x.1.Before y.1) ∧
      (episodes.flatMap (Episode.requests cat)).filterMap Request.registered? =
        episodes.flatMap Episode.registered ∧
      (collect host cat tests s).1 = {
        executions := tests.length, failures := episodes.countP Episode.isFailure,
        registered := (episodes.flatMap Episode.registered).length, empty := 0 } := by
  obtain ⟨episodes, s', hcollect, hmap, hall, hserves⟩ :=
    collectFrom_episodes hdrives cat tests 0 {} (s.log [.collecting tests.length])
  have hcounts : (collect host cat tests s).1 = Harvest.counting {} episodes := by simp only [collect, hcollect]
  have hworld : (collect host cat tests s).2.world = s'.world := by
    simp only [collect, hcollect]
    rfl
  rw [hcounts, hworld]
  refine ⟨episodes, hmap, hserves, fun e he => ⟨hall e he, (hall e he).reachable.noted.callTraces_ordered⟩, ?_, ?_⟩
  · rw [List.filterMap_flatMap]
    exact List.flatMap_congr fun e _ => e.filterMap_registered? cat
  · rw [← hmap, List.length_map]
    simp only [Harvest.counting, Nat.zero_add]

end Session

/-! ## Scripted hosts -/

namespace Recorder.Driven

variable {r r₁ r₂ : Recorder}

theorem refl (r : Recorder) : r.Driven r := ⟨[], rfl⟩

theorem single (r : Recorder) (hook : Hook Ticket) : r.Driven (r.serve hook) := ⟨[hook], rfl⟩

theorem trans (h : r.Driven r₁) (h' : r₁.Driven r₂) : r.Driven r₂ := by
  obtain ⟨hooks, rfl⟩ := h
  obtain ⟨more, rfl⟩ := h'
  exact ⟨hooks ++ more, (List.foldl_append ..).symm⟩

theorem probes : ∀ (body : List Probe) (r : Recorder), r.Driven (r.probes body).2
  | [], r => refl r
  | p :: body, r => (single r (.probe p)).trans (probes body (r.probe p).2)

theorem recordAction (a : Action) (body : List Probe) (thrown : Option Thrown) (r : Recorder) :
    r.Driven (endState (Recorder.recordAction a body thrown r)) := by
  have hbefore : r.Driven (endState (before a r)) := single r (.before a)
  unfold Recorder.recordAction
  simp only [bind, EStateM.bind]
  cases hb : before a r with
  | error e r₁ =>
    rw [hb] at hbefore
    exact hbefore
  | ok ticket r₁ =>
    rw [hb] at hbefore
    have hafter : r.Driven (endState (after ticket thrown (r₁.probes body).2)) :=
      (hbefore.trans (probes body r₁)).trans (single _ (.after ticket thrown))
    simp only
    cases ha : after ticket thrown (r₁.probes body).2 <;> rw [ha] at hafter <;> exact hafter

end Recorder.Driven

theorem Execution.driven (x : Execution) (actions : List Action) (position : Nat) (r : Recorder) :
    r.Driven (x.actions position actions r).2 := by
  have hclose : ∀ r : Recorder, r.Driven (x.close r) := fun r => by
    unfold close
    split
    · exact .single r .clear
    · exact .refl r
  induction actions generalizing position r with
  | nil => exact hclose r
  | cons a rest ih =>
    unfold Execution.actions
    simp only [EStateM.run]
    split
    · have hbefore : r.Driven (endState (Recorder.before a r)) := .single r (.before a)
      cases hb : Recorder.before a r <;> rw [hb] at hbefore <;> exact hbefore
    · have hrecord := Recorder.Driven.recordAction a (x.body position a) (x.thrown position) r
      cases hr : Recorder.recordAction a (x.body position a) (x.thrown position) r with
      | error e r₁ =>
        rw [hr] at hrecord
        exact hrecord
      | ok answers r₁ =>
        rw [hr] at hrecord
        simp only
        split
        · exact hrecord.trans (hclose r₁)
        · exact hrecord.trans (ih (position + 1) r₁)

theorem Script.host_drives : Script.host.Drives := by
  intro test r s
  show r.Driven ((s.executions.headD {}).run test r).2
  unfold Execution.run
  split
  · exact .refl r
  · exact Execution.driven _ _ 0 r

namespace Session

/-- Two calls of a static method, `v0 = Counter.next(); v1 = Counter.next()`. -/
def nextTwice : Test := { actions := [Ledger.nextCall 0, Ledger.nextCall 1] }

/-- The first run fails, and the host takes all traces but the second of the last run. -/
def threeRuns : Session Script where
  settings := {}
  world := { executions := [{ crash := some "no such test" }, {}, {}], addFailAt := [3] }

/-- Of three runs of the test one is harvested whole. -/
theorem collect_isolates_next :
    (∃ episodes : List Episode, episodes.map Episode.test = [nextTwice, nextTwice, nextTwice] ∧
      (∀ e ∈ episodes, e.left.callTraces.Pairwise fun x y => x.1.Before y.1) ∧
      episodes.countP Episode.isFailure = 2 ∧ (episodes.flatMap Episode.registered).length = 3) ∧
    (collect Script.host Ledger.counter [nextTwice, nextTwice, nextTwice] threeRuns).1 =
      { executions := 3, failures := 2, registered := 3 } := by
  have hcounts : (collect Script.host Ledger.counter [nextTwice, nextTwice, nextTwice] threeRuns).1 =
      { executions := 3, failures := 2, registered := 3 } := by decide +kernel
  obtain ⟨episodes, hmap, -, hall, -, hresult⟩ :=
    collect_isolates Script.host Script.host_drives Ledger.counter [nextTwice, nextTwice, nextTwice] threeRuns
  rw [hcounts] at hresult
  injection hresult with _ hfailures hregistered
  exact ⟨⟨episodes, hmap, fun e he => (hall e he).2, hfailures.symm, hregistered.symm⟩, hcounts⟩

end Session
end Retrace
