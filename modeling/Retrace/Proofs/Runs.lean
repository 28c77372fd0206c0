import Retrace.Recorder.Basic
import Retrace.Proofs.Translation
/-!
# Runs — a recorder under its host

A host takes turns with a recorder: each turn is one action, with what its body asks of the recorder and how it ends.
Between two turns the host may end the execution or clear the recorder (`Step`).

What each hook does is said once, as an equation on the whole recorder (`before_ready`, `before_busy`,
`probes_recording`, `after_recording`).  A run also keeps account of who put each clause into the trace (`Attributed`):
the recorder itself or instrumented code.  What every turn preserves holds at the end of a run
(`Attributed.run_induction`).
-/
namespace Retrace

open Cache (Consults Extends)

/-- The clauses that recording an action adds before its body runs. -/
def Recording.early : Recording → List Clause
  | .clause c => [c]
  | .nothing | .call _ => []

def Recording.pending? : Recording → Option PendingCall
  | .call p => some p
  | .nothing | .clause _ => none

def Recording.late (rec : Recording) : List Clause := (rec.pending?.map PendingCall.clause).toList

theorem Recording.early_append_late (rec : Recording) : rec.early ++ rec.late = rec.clause?.toList := by
  cases rec <;> rfl

def Ticket.late (t : Ticket) : List Clause := (t.pending.map PendingCall.clause).toList

/-- The call sites once a ticket has been handed back, when the trace is `length` long by then. -/
def Ticket.noted (t : Ticket) (length : Nat) (sites : Sites) : Sites :=
  match t.pending with
  | some p => Sites.insert ⟨t.position, p.method⟩ length sites
  | none => sites

def Probe.recorded? : Probe → Option Clause
  | .record c => some c
  | .isLive | .termOf _ => none

def Probe.query? : Probe → Option Reference
  | .termOf r => some r
  | .isLive | .record _ => none

namespace Recorder

variable {r r' : Recorder}

/-! ## The hooks -/

/-- Between two actions, ready for the next. -/
def Ready (r : Recorder) : Prop := r.phase = .armed ∨ r.phase = .suspended

/-- **Beginning an action when ready**, as one equation: the recorder after a refusal, and the recorder and the ticket
after the action was recorded. -/
theorem before_ready (h : r.Ready) (a : Action) :
    before a r = match a.recording r.catalog r.cache with
      | .error e c => .error e { r with
          cache := c, position := r.position + 1, phase := .disabled,
          journal := r.journal ++ [.recording r.position a, .recordingFailed r.position a.kind e] }
      | .ok rec c => .ok ⟨r.position, rec.pending?⟩ { r with
          cache := c, trace := r.trace ++ rec.early, position := r.position + 1, phase := .recording,
          journal := r.journal ++ .recording r.position a :: rec.early.map .committed } := by
  unfold before
  rcases h with h | h <;>
  · rw [h]
    simp only [EStateM.run, log, commit]
    cases a.recording r.catalog r.cache with
    | error e c => simp
    | ok rec c => cases rec <;> simp [Recording.early, Recording.pending?]

theorem before_busy (h : ¬ r.Ready) (a : Action) : ∃ e, before a r = .error e r := by
  unfold before
  cases hp : r.phase with
  | recording => exact ⟨_, rfl⟩
  | disabled => exact ⟨_, rfl⟩
  | armed => exact absurd (.inl hp) h
  | suspended => exact absurd (.inr hp) h

/-- **Ending an action**, as one equation: the clause of a call goes into the trace, and its site is noted. -/
theorem after_recording (h : r.phase = .recording) (ticket : Ticket) (thrown : Option Thrown) :
    ∃ journal, after ticket thrown r = .ok () { r with
      trace := r.trace ++ ticket.late, phase := .suspended, sites := ticket.noted (r.trace.length + 1) r.sites,
      calls := r.calls + ticket.late.length, journal } := by
  unfold after
  rw [if_pos h]
  cases thrown <;> cases hp : ticket.pending <;> simp [log, commitCall, commit, Ticket.late, Ticket.noted, hp]

theorem after_idle (h : r.phase ≠ .recording) (ticket : Ticket) (thrown : Option Thrown) :
    ∃ e, after ticket thrown r = .error e r := ⟨_, if_neg h⟩

theorem finish_eq (r : Recorder) : ∃ journal, r.finish = { r with phase := .disabled, journal } := by
  unfold finish
  split <;> exact ⟨_, rfl⟩

theorem probe_idle (h : r.phase ≠ .recording) (p : Probe) : (r.probe p).2 = r := by
  cases p <;> simp [probe, h]

/-- **One request of instrumented code while an action runs**: its clause is added, or the table is consulted. -/
theorem probe_recording (hc : r.cache.Wf) (h : r.phase = .recording) (p : Probe) :
    ∃ c, (r.probe p).2 = { r with cache := c, trace := r.trace ++ p.recorded?.toList } ∧
      Consults r.catalog p.query?.toList r.cache c := by
  cases p with
  | isLive => exact ⟨r.cache, by simp [probe, Probe.recorded?], .refl _ hc⟩
  | record cl => exact ⟨r.cache, by simp [probe, h, Probe.recorded?], .refl _ hc⟩
  | termOf ref =>
    have hstep : Consults r.catalog [ref] r.cache
        (endState ((Cache.valueOf r.catalog ref >>= Cache.termOf) r.cache)) := by
      refine bind_cases (Q := fun res => Consults r.catalog [ref] r.cache (endState res)) (fun e c' h => ?_)
        (fun x c' h => ?_)
      · rw [Cache.valueOf_error h]
        exact .refl _ hc
      · obtain ⟨hcon, hlook⟩ := Cache.valueOf_ok hc h
        obtain ⟨v, hv⟩ := hcon.wf.value_of_lookup hlook
        obtain ⟨t, c'', ht, hcon', -⟩ := Cache.termOf_ok r.catalog hcon.wf hv
        rw [ht]
        exact hcon.trans (hcon'.mono (by simp))
    refine ⟨_, ?_, hstep⟩
    simp only [probe, h, if_true, EStateM.run]
    cases (Cache.valueOf r.catalog ref >>= Cache.termOf) r.cache <;> simp [endState, Probe.recorded?]

/-- **What the body of an action asks, as one equation**: its clauses are added in order, and the table is consulted
for the references it asks for. -/
theorem probes_recording : ∀ (body : List Probe) {r : Recorder}, r.cache.Wf → r.phase = .recording →
    ∃ c, (r.probes body).2 = { r with cache := c, trace := r.trace ++ body.filterMap Probe.recorded? } ∧
      Consults r.catalog (body.filterMap Probe.query?) r.cache c
  | [], r, hc, _ => ⟨r.cache, by simp [probes], .refl _ hc⟩
  | p :: body, r, hc, h => by
    obtain ⟨c₁, hp, hcon⟩ := probe_recording hc h p
    obtain ⟨c₂, hps, hcon'⟩ := probes_recording body (r := (r.probe p).2) (by rw [hp]; exact hcon.wf)
      (by rw [hp]; exact h)
    refine ⟨c₂, ?_, ?_⟩
    · simp only [probes]
      rw [hps, hp]
      cases hr : p.recorded? <;> simp [hr]
    · rw [hp] at hcon'
      refine (hcon.mono ?_).trans (hcon'.mono ?_)
      · cases hq : p.query? <;> simp [hq]
      · cases hq : p.query? <;> simp [hq]

end Recorder

/-! ## Turns -/

/-- One action of the host, with what its body asks and how it ends.  A body that makes its requests depend on the
answers still makes some list of them. -/
structure Turn where
  action : Action
  body : List Probe := []
  thrown : Option Thrown := none
  deriving DecidableEq

def Turn.recorded (t : Turn) : List Clause := t.body.filterMap Probe.recorded?

def Turn.consulted (t : Turn) : List Reference := t.action.operands ++ t.body.filterMap Probe.query?

namespace Recorder

def turn (t : Turn) : EStateM Fault Recorder (List Probe.Answer) := recordAction t.action t.body t.thrown

/-- **What a turn comes to.**  The recorder is not ready, and nothing changes; or the action is refused, the table has
been consulted, and the recorder is disabled; or the turn is accepted. -/
inductive TurnOutcome (r : Recorder) (t : Turn) : EStateM.Result Fault Recorder (List Probe.Answer) → Prop
  | busy (e : Fault) (h : ¬ r.Ready) : TurnOutcome r t (.error e r)
  | refused (e : Fault) (c : Cache) (journal : List Event) (h : r.Ready)
      (hcon : Consults r.catalog t.action.operands r.cache c) :
      TurnOutcome r t (.error e { r with cache := c, position := r.position + 1, phase := .disabled, journal })
  | accepted (answers : List Probe.Answer) (rec : Recording) (mid c₁ c₂ : Cache) (sites : Sites) (calls : Nat)
      (journal : List Event) (h : r.Ready) (hrec : t.action.recording r.catalog r.cache = .ok rec c₁)
      (hturn : Recorded r.catalog t.action r.cache mid rec c₁)
      (hbody : Consults r.catalog (t.body.filterMap Probe.query?) c₁ c₂) :
      TurnOutcome r t (.ok answers { r with
        cache := c₂, trace := r.trace ++ rec.early ++ t.recorded ++ rec.late, sites, phase := .suspended,
        position := r.position + 1, calls, journal })

theorem hooks_accepted {r : Recorder} (hc : r.cache.Wf) (hr : r.Ready) (t : Turn) {rec : Recording} {c₁ : Cache}
    (hrec : t.action.recording r.catalog r.cache = .ok rec c₁) :
    ∃ r₁ r₂ c₂ sites calls journal,
      before t.action r = .ok ⟨r.position, rec.pending?⟩ r₁ ∧ r₁.trace = r.trace ++ rec.early ∧
      (r₁.probes t.body).2 = r₂ ∧ r₂.trace = r₁.trace ++ t.recorded ∧
      Consults r.catalog (t.body.filterMap Probe.query?) c₁ c₂ ∧
      after ⟨r.position, rec.pending?⟩ t.thrown r₂ = .ok () { r with
        cache := c₂, trace := r.trace ++ rec.early ++ t.recorded ++ rec.late, sites, phase := .suspended,
        position := r.position + 1, calls, journal } := by
  have hbefore := before_ready hr t.action
  rw [hrec] at hbefore
  simp only at hbefore
  obtain ⟨mid, hmid⟩ := Action.recording_ok hc hrec
  -- the recorder between the two hooks gets a name, so that its fields are opened only where they are needed
  generalize hr₁ : ({ r with
    cache := c₁, trace := r.trace ++ rec.early, position := r.position + 1, phase := .recording,
    journal := r.journal ++ .recording r.position t.action :: rec.early.map .committed } : Recorder) = r₁ at hbefore
  obtain ⟨c₂, hprobes, hbody⟩ := probes_recording t.body (r := r₁) (by rw [← hr₁]; exact hmid.terms.wf) (by rw [← hr₁])
  obtain ⟨journal, hafter⟩ := after_recording (r := (r₁.probes t.body).2) (by rw [hprobes, ← hr₁])
    ⟨r.position, rec.pending?⟩ t.thrown
  generalize Ticket.noted _ _ _ = sites, (r₁.probes t.body).2.calls + _ = calls at hafter
  refine ⟨r₁, _, c₂, sites, calls, journal, hbefore, by rw [← hr₁], rfl, by rw [hprobes]; rfl, ?_, ?_⟩
  · rwa [← hr₁] at hbody
  · rw [hafter, hprobes, ← hr₁]
    rfl

theorem turn_outcome {r : Recorder} (hc : r.cache.Wf) (t : Turn) : TurnOutcome r t (turn t r) := by
  by_cases hr : r.Ready
  · cases hrec : t.action.recording r.catalog r.cache with
    | error e c =>
      have hbefore := before_ready hr t.action
      rw [hrec] at hbefore
      rw [turn, recordAction, bind_of_error _ hbefore]
      exact .refused e c _ hr (Action.recording_error hc hrec)
    | ok rec c₁ =>
      obtain ⟨mid, hmid⟩ := Action.recording_ok hc hrec
      obtain ⟨r₁, r₂, c₂, sites, calls, journal, hbefore, -, rfl, -, hbody, hafter⟩ := hooks_accepted hc hr t hrec
      rw [turn, recordAction, bind_of_ok _ hbefore]
      show TurnOutcome r t ((after ⟨r.position, rec.pending?⟩ t.thrown >>= fun _ => pure (r₁.probes t.body).1)
        (r₁.probes t.body).2)
      rw [bind_of_ok _ hafter]
      exact .accepted _ rec mid c₁ c₂ sites calls journal hr hrec hmid hbody
  · obtain ⟨e, he⟩ := before_busy hr t.action
    rw [turn, recordAction, bind_of_error _ he]
    exact .busy e hr

end Recorder

/-! ## Runs, and who put what into the trace -/

inductive Step where
  | turn (turn : Turn)
  | finish
  | clear
  deriving DecidableEq

namespace Recorder

/-- Takes a step; a turn that is refused leaves the recorder as the refusal does. -/
def step (r : Recorder) : Step → Recorder
  | .turn t => endState (turn t r)
  | .finish => r.finish
  | .clear => r.clear

def run (cat : Catalog) (steps : List Step) : Recorder := steps.foldl step { catalog := cat }

end Recorder

/-- Who put a clause into the trace: the recorder, from an action of the host, or instrumented code. -/
inductive Origin where
  | translator
  | instrumentation
  deriving DecidableEq

/-- A recorder together with the clauses of its trace, each under its origin. -/
structure Attributed where
  recorder : Recorder
  marked : List (Origin × Clause) := []

namespace Attributed

/-- The clauses that the recorder itself put into the trace, in the order of the trace. -/
def translated (s : Attributed) : List Clause := (s.marked.filter (·.1 = .translator)).map Prod.snd

/-- The recorder moves on to `r`, and what the trace gained is put down to one origin. -/
def put (s : Attributed) (origin : Origin) (r : Recorder) : Attributed :=
  ⟨r, s.marked ++ (r.trace.drop s.recorder.trace.length).map (origin, ·)⟩

/-- Takes a turn: the hooks' clauses are the recorder's own, those in between come from instrumented code. -/
def turn (s : Attributed) (t : Turn) : Attributed :=
  match Recorder.before t.action s.recorder with
  | .error _ r => s.put .translator r
  | .ok ticket r₁ =>
    let r₂ := (r₁.probes t.body).2
    let r₃ := endState (Recorder.after ticket t.thrown r₂)
    ((s.put .translator r₁).put .instrumentation r₂).put .translator r₃

def step (s : Attributed) : Step → Attributed
  | .turn t => s.turn t
  | .finish => { s with recorder := s.recorder.finish }
  | .clear => { recorder := s.recorder.clear }

/-- A new recorder after some steps, with the origin of every clause since it was last cleared. -/
def run (cat : Catalog) (steps : List Step) : Attributed := steps.foldl step { recorder := { catalog := cat } }

/-- Keeping account changes nothing: a turn is the recorder's own turn. -/
theorem recorder_turn (s : Attributed) (t : Turn) : (s.turn t).recorder = endState (Recorder.turn t s.recorder) := by
  unfold turn Recorder.turn Recorder.recordAction
  simp only [bind, EStateM.bind]
  cases Recorder.before t.action s.recorder with
  | error e r => rfl
  | ok ticket r₁ =>
    simp only [put]
    cases Recorder.after ticket t.thrown (r₁.probes t.body).2 <;> rfl

theorem recorder_foldl : ∀ (steps : List Step) (s : Attributed),
    (steps.foldl step s).recorder = steps.foldl Recorder.step s.recorder
  | [], _ => rfl
  | .turn t :: steps, s => by
    rw [List.foldl_cons, List.foldl_cons, recorder_foldl steps]
    exact congrArg (steps.foldl Recorder.step) (recorder_turn s t)
  | .finish :: steps, s => by
    rw [List.foldl_cons, List.foldl_cons, recorder_foldl steps]
    rfl
  | .clear :: steps, s => by
    rw [List.foldl_cons, List.foldl_cons, recorder_foldl steps]
    rfl

/-- **The recorder of an attributed run is that of the plain run.** -/
theorem recorder_run (cat : Catalog) (steps : List Step) : (run cat steps).recorder = Recorder.run cat steps :=
  recorder_foldl steps _

/-! ## What a run preserves -/

theorem put_eq {s : Attributed} (origin : Origin) {r : Recorder} (new : List Clause)
    (h : r.trace = s.recorder.trace ++ new) : s.put origin r = ⟨r, s.marked ++ new.map (origin, ·)⟩ := by
  rw [put, h, List.drop_left]

theorem put_same {s : Attributed} (origin : Origin) {r : Recorder} (h : r.trace = s.recorder.trace) :
    s.put origin r = ⟨r, s.marked⟩ := by
  rw [put, h, List.drop_length, List.map_nil, List.append_nil]

structure Fits (cat : Catalog) (s : Attributed) : Prop where
  catalog : s.recorder.catalog = cat
  wf : s.recorder.cache.Wf
  trace : s.marked.map Prod.snd = s.recorder.trace

/-- **What a turn does to the account.**  A turn that is not accepted consults the table at most.  An accepted one
records its action, whose clause goes before or after those of its body. -/
inductive TurnTaken (cat : Catalog) (s : Attributed) (t : Turn) (s' : Attributed) : Prop
  | idle (rs : List Reference) (hcon : Consults cat rs s.recorder.cache s'.recorder.cache)
      (hmarked : s'.marked = s.marked)
  | accepted (rec : Recording) (mid c₁ : Cache) (hrec : Recorded cat t.action s.recorder.cache mid rec c₁)
      (hbody : Consults cat (t.body.filterMap Probe.query?) c₁ s'.recorder.cache)
      (hmarked : s'.marked = s.marked ++ rec.early.map (.translator, ·) ++ t.recorded.map (.instrumentation, ·) ++
        rec.late.map (.translator, ·))

/-- **A turn whose action is recorded**, as one equation on the account. -/
theorem turn_accepted {s : Attributed} (hc : s.recorder.cache.Wf) (hr : s.recorder.Ready) (t : Turn) {rec : Recording}
    {c₁ : Cache} (hrec : t.action.recording s.recorder.catalog s.recorder.cache = .ok rec c₁) :
    ∃ c₂ sites calls journal, Consults s.recorder.catalog (t.body.filterMap Probe.query?) c₁ c₂ ∧
      s.turn t = ⟨{ s.recorder with
          cache := c₂, trace := s.recorder.trace ++ rec.early ++ t.recorded ++ rec.late, sites, phase := .suspended,
          position := s.recorder.position + 1, calls, journal },
        s.marked ++ rec.early.map (.translator, ·) ++ t.recorded.map (.instrumentation, ·) ++
          rec.late.map (.translator, ·)⟩ := by
  obtain ⟨r₁, r₂, c₂, sites, calls, journal, hbefore, htrace₁, hprobes, htrace₂, hbody, hafter⟩ :=
    Recorder.hooks_accepted hc hr t hrec
  refine ⟨c₂, sites, calls, journal, hbody, ?_⟩
  rw [turn, hbefore]
  simp only
  rw [hprobes, hafter, put_eq .translator rec.early htrace₁, put_eq .instrumentation t.recorded htrace₂]
  simp only [endState]
  rw [put_eq (s := ⟨r₂, _⟩) .translator rec.late]
  simp only
  rw [htrace₂, htrace₁]

/-- **A turn whose action is refused.** -/
theorem turn_refused {s : Attributed} (hr : s.recorder.Ready) (t : Turn) {e : Fault} {c : Cache}
    (hrec : t.action.recording s.recorder.catalog s.recorder.cache = .error e c) :
    ∃ journal, s.turn t = ⟨{ s.recorder with
      cache := c, position := s.recorder.position + 1, phase := .disabled, journal }, s.marked⟩ := by
  have hbefore := Recorder.before_ready hr t.action
  rw [hrec] at hbefore
  rw [turn, hbefore]
  exact ⟨_, put_same .translator rfl⟩

theorem turn_busy {s : Attributed} (hr : ¬ s.recorder.Ready) (t : Turn) : s.turn t = s := by
  obtain ⟨e, he⟩ := Recorder.before_busy hr t.action
  rw [turn, he]
  exact put_same .translator rfl

theorem turn_taken {cat : Catalog} {s : Attributed} (hs : s.Fits cat) (t : Turn) :
    TurnTaken cat s t (s.turn t) ∧ (s.turn t).Fits cat := by
  obtain ⟨rfl, hc, htrace⟩ := hs
  by_cases hr : s.recorder.Ready
  · cases hrec : t.action.recording s.recorder.catalog s.recorder.cache with
    | error e c =>
      have hcon := Action.recording_error hc hrec
      obtain ⟨journal, hturn⟩ := turn_refused hr t hrec
      rw [hturn]
      exact ⟨.idle t.action.operands hcon rfl, rfl, hcon.wf, htrace⟩
    | ok rec c₁ =>
      obtain ⟨mid, hmid⟩ := Action.recording_ok hc hrec
      obtain ⟨c₂, sites, calls, journal, hbody, hturn⟩ := turn_accepted hc hr t hrec
      rw [hturn]
      refine ⟨.accepted rec mid c₁ hmid hbody rfl, rfl, hbody.wf, ?_⟩
      simp [htrace, Function.comp_def]
  · rw [turn_busy hr]
    exact ⟨.idle [] (.refl _ hc) rfl, rfl, hc, htrace⟩

theorem Fits.step {cat : Catalog} {s : Attributed} (hs : s.Fits cat) : ∀ step : Step, (s.step step).Fits cat
  | .turn t => (turn_taken hs t).2
  | .finish => by
    obtain ⟨journal, hfinish⟩ := s.recorder.finish_eq
    rw [Attributed.step, hfinish]
    exact ⟨hs.catalog, hs.wf, hs.trace⟩
  | .clear => ⟨hs.catalog, Cache.wf_empty, rfl⟩

theorem fits_run (cat : Catalog) (steps : List Step) : (run cat steps).Fits cat := by
  have hall : ∀ (steps : List Step) (s : Attributed), s.Fits cat → (steps.foldl step s).Fits cat := by
    intro steps
    induction steps with
    | nil => exact fun s hs => hs
    | cons step steps ih => exact fun s hs => ih _ (hs.step step)
  exact hall steps _ ⟨rfl, Cache.wf_empty, rfl⟩

theorem translated_eq_of_marked {s s' : Attributed} (h : s'.marked = s.marked) : s'.translated = s.translated := by
  rw [translated, translated, h]

theorem translated_of_accepted {s s' : Attributed} {rec : Recording} {body : List Clause}
    (h : s'.marked = s.marked ++ rec.early.map (.translator, ·) ++ body.map (.instrumentation, ·) ++
      rec.late.map (.translator, ·)) : s'.translated = s.translated ++ rec.clause?.toList := by
  have hinst : (body.map (Prod.mk Origin.instrumentation)).filter (·.1 = .translator) = [] := by
    rw [List.filter_map]
    simp [Function.comp_def]
  have hkeep : ∀ cs : List Clause, ((cs.map (Prod.mk Origin.translator)).filter (·.1 = .translator)).map Prod.snd = cs := by
    intro cs
    rw [List.filter_map]
    simp [Function.comp_def]
  simp only [translated, h, List.filter_append, List.map_append, hinst, hkeep, List.append_nil]
  rw [List.append_assoc, Recording.early_append_late]

/-- **An induction over runs**, on the table and the recorder's own clauses: what consulting the table preserves, and
what recording an action preserves when its clause is added, holds after every run. -/
theorem run_induction {cat : Catalog} {P : Cache → List Clause → Prop} (empty : P {} [])
    (consults : ∀ {rs c c' cs}, c.Wf → Consults cat rs c c' → P c cs → P c' cs)
    (records : ∀ {a c mid rec c' cs}, c.Wf → Recorded cat a c mid rec c' → P c cs → P c' (cs ++ rec.clause?.toList))
    (steps : List Step) : P (run cat steps).recorder.cache (run cat steps).translated := by
  have hall : ∀ (steps : List Step) (s : Attributed), s.Fits cat → P s.recorder.cache s.translated →
      P (steps.foldl step s).recorder.cache (steps.foldl step s).translated := by
    intro steps
    induction steps with
    | nil => exact fun s _ hP => hP
    | cons step steps ih =>
      intro s hs hP
      refine ih _ (hs.step step) ?_
      cases step with
      | turn t =>
        obtain ⟨htaken, -⟩ := turn_taken hs t
        cases htaken with
        | idle rs hcon hmarked =>
          have := consults hs.wf hcon hP
          rwa [← translated_eq_of_marked hmarked] at this
        | accepted rec mid c₁ hrec hbody hmarked =>
          have := consults hrec.terms.wf hbody (records hs.wf hrec hP)
          rwa [← translated_of_accepted hmarked] at this
      | finish =>
        obtain ⟨journal, hfinish⟩ := s.recorder.finish_eq
        show P s.recorder.finish.cache s.translated
        rwa [hfinish]
      | clear => exact empty
  exact hall steps _ ⟨rfl, Cache.wf_empty, rfl⟩ empty

end Attributed

end Retrace
