import Retrace.Proofs.Lockstep
/-!
# Transparency — instrumented code does not show in what the recorder makes of the actions

Two hosts take the same actions to two recorders of the same classes.  In one of the runs no body asks anything of the
recorder; in the other bodies add clauses and ask for terms.  The actions are accepted and refused alike, with the same
faults, and the clauses that the recorders make of them have the same predicates, down to the names of the unknowns
(`Recorder.run_transparent`).

While both recorders are ready, the table of the second shadows that of the first; once one has stopped, so has the
other (`Attributed.Tandem`).  One turn keeps this (`Tandem.turn`), and so does a run (`Tandem.turns`).
-/
namespace Retrace

open Cache (Consults Shadows)

def Turn.queries (t : Turn) : List Reference := t.body.filterMap Probe.query?

namespace Recorder

variable {r : Recorder}

/-! ## Refusals -/

/-- The fault that a turn is refused with, if it is. -/
def refusal? (r : Recorder) (t : Turn) : Option Fault :=
  match turn t r with
  | .ok _ _ => none
  | .error e _ => some e

/-- For each of some turns, taken one after the other, whether it is refused, and with what fault. -/
def refusals (r : Recorder) : List Turn → List (Option Fault)
  | [] => []
  | t :: ts => r.refusal? t :: (endState (turn t r)).refusals ts

theorem refusal?_of_before {t : Turn} {e : Fault} {r' : Recorder} (h : before t.action r = .error e r') :
    r.refusal? t = some e := by
  rw [refusal?, turn, recordAction, bind_of_error _ h]

theorem refusal?_disabled (h : r.phase = .disabled) (t : Turn) : r.refusal? t = some (.invariant .disabled) := by
  have hbefore : before t.action r = .error (.invariant .disabled) r := by
    unfold before
    rw [h]
  exact refusal?_of_before hbefore

theorem refusal?_refused (hr : r.Ready) {t : Turn} {e : Fault} {c : Cache}
    (hrec : t.action.recording r.catalog r.cache = .error e c) : r.refusal? t = some e := by
  have hbefore := before_ready hr t.action
  rw [hrec] at hbefore
  exact refusal?_of_before hbefore

theorem refusal?_recorded (hc : r.cache.Wf) (hr : r.Ready) {t : Turn} {rec : Recording} {c : Cache}
    (hrec : t.action.recording r.catalog r.cache = .ok rec c) : r.refusal? t = none := by
  obtain ⟨r₁, r₂, c₂, sites, calls, journal, hbefore, -, rfl, -, -, hafter⟩ := hooks_accepted hc hr t hrec
  have hturn : turn t r = .ok (r₁.probes t.body).1 _ :=
    (bind_of_ok _ hbefore).trans (bind_of_ok (fun _ => pure (r₁.probes t.body).1) hafter)
  rw [refusal?, hturn]

end Recorder

namespace Attributed

variable {cat : Catalog} {qs rs : List Reference} {s s' : Attributed}

/-! ## Two runs in tandem -/

def predicates (s : Attributed) : List Predicate := s.translated.map (·.predicate)

/-- **Two runs in tandem**, of which the second has been asked for `qs`: both recorders are ready and the table of the
second shadows that of the first, or both have stopped; and they have made the same predicates. -/
structure Tandem (cat : Catalog) (qs : List Reference) (s s' : Attributed) : Prop where
  fits : s.Fits cat
  fits' : s'.Fits cat
  predicates : s.predicates = s'.predicates
  phase : s.recorder.Ready ∧ s'.recorder.Ready ∧ Shadows cat qs s.recorder.cache s'.recorder.cache ∨
    s.recorder.phase = .disabled ∧ s'.recorder.phase = .disabled

theorem tandem_init (cat : Catalog) :
    Tandem cat [] { recorder := { catalog := cat } } { recorder := { catalog := cat } } :=
  ⟨fits_run cat [], fits_run cat [], rfl, .inl ⟨.inl rfl, .inl rfl, Cache.shadows_empty⟩⟩

theorem predicates_of_accepted {rec : Recording} {body : List Clause}
    (h : s'.marked = s.marked ++ rec.early.map (.translator, ·) ++ body.map (.instrumentation, ·) ++
      rec.late.map (.translator, ·)) : s'.predicates = s.predicates ++ (rec.clause?.map (·.predicate)).toList := by
  rw [predicates, translated_of_accepted h, List.map_append, ← Option.toList_map]
  rfl

/-- **One turn in tandem**: the same action, with an idle body on the one side and any body on the other. -/
theorem Tandem.turn (h : Tandem cat qs s s') {t t' : Turn} (haction : t.action = t'.action) (hbody : t.body = [])
    (hops : ∀ r ∈ t'.action.operands, ∀ q ∈ qs, q.id = r.id → q = r) (hresult : ∀ q ∈ qs, q.id ≠ t'.action.result.id) :
    s.recorder.refusal? t = s'.recorder.refusal? t' ∧ Tandem cat (qs ++ t'.queries) (s.turn t) (s'.turn t') := by
  have hfits := (turn_taken h.fits t).2
  have hfits' := (turn_taken h.fits' t').2
  obtain ⟨hcat, hwf, -⟩ := h.fits
  obtain ⟨hcat', hwf', -⟩ := h.fits'
  rcases h.phase with ⟨hr, hr', hshadows⟩ | ⟨hr, hr'⟩
  · have hstep := Action.recording_lockstep hshadows t'.action hops hresult
    -- both recordings get a name, so that they can be told apart by cases
    generalize hrec : t'.action.recording cat s.recorder.cache = res at hstep
    generalize hrec' : t'.action.recording cat s'.recorder.cache = res' at hstep
    rw [← hcat, ← haction] at hrec
    rw [← hcat'] at hrec'
    cases hstep with
    | failed e c d =>
      obtain ⟨journal, hturn⟩ := turn_refused hr t hrec
      obtain ⟨journal', hturn'⟩ := turn_refused hr' t' hrec'
      rw [hturn] at hfits ⊢
      rw [hturn'] at hfits' ⊢
      refine ⟨?_, hfits, hfits', h.predicates, .inr ⟨rfl, rfl⟩⟩
      rw [Recorder.refusal?_refused hr hrec, Recorder.refusal?_refused hr' hrec']
    | done hsame =>
      obtain ⟨hpredicate, hnext⟩ := hsame
      obtain ⟨c₂, sites, calls, journal, hcon, hturn⟩ := turn_accepted hwf hr t hrec
      obtain ⟨d₂, sites', calls', journal', hcon', hturn'⟩ := turn_accepted hwf' hr' t' hrec'
      rw [hcat, hbody] at hcon
      rw [hcat'] at hcon'
      have hshadows₂ : Shadows cat qs c₂ _ := (hnext.consults hcon (.refl _ hnext.wf') (List.forall_mem_nil _)).shadows
      have hpredicates : (s.turn t).predicates = (s'.turn t').predicates := by
        rw [predicates_of_accepted (congrArg marked hturn), predicates_of_accepted (congrArg marked hturn'),
          h.predicates, hpredicate]
      rw [hturn] at hfits hpredicates ⊢
      rw [hturn'] at hfits' hpredicates ⊢
      refine ⟨?_, hfits, hfits', hpredicates, .inl ⟨.inr rfl, .inr rfl, hshadows₂.asked hcon'⟩⟩
      rw [Recorder.refusal?_recorded hwf hr hrec, Recorder.refusal?_recorded hwf' hr' hrec']
  · have hbusy : ∀ {r : Recorder}, r.phase = .disabled → ¬ r.Ready := fun h hready => by
      rcases hready with h' | h' <;> rw [h] at h' <;> cases h'
    rw [turn_busy (hbusy hr), turn_busy (hbusy hr')]
    refine ⟨?_, h.fits, h.fits', h.predicates, .inr ⟨hr, hr'⟩⟩
    rw [Recorder.refusal?_disabled hr, Recorder.refusal?_disabled hr']

/-- **A run in tandem**: the same turns are refused, with the same faults, and the same predicates are made. -/
theorem Tandem.turns (hrs : Distinct rs) {quiet turns : List Turn} (h : Tandem cat qs s s')
    (hactions : quiet.map Turn.action = turns.map Turn.action) (hquiet : ∀ t ∈ quiet, t.body = []) (hqs : qs ⊆ rs)
    (hturns : ∀ t ∈ turns, t.consulted ⊆ rs) (hresults : ∀ q ∈ qs, ∀ t ∈ turns, q.id ≠ t.action.result.id)
    (hlater : turns.Pairwise fun t t' => ∀ q ∈ t.queries, q.id ≠ t'.action.result.id) :
    s.recorder.refusals quiet = s'.recorder.refusals turns ∧
      ((quiet.map Step.turn).foldl step s).predicates = ((turns.map Step.turn).foldl step s').predicates := by
  induction turns generalizing quiet s s' qs with
  | nil =>
    obtain rfl := List.map_eq_nil_iff.1 hactions
    exact ⟨rfl, h.predicates⟩
  | cons t' turns ih =>
    obtain ⟨t, quiet, rfl, haction, hactions⟩ := List.map_eq_cons_iff.1 hactions
    obtain ⟨hbody, hquiet⟩ := List.forall_mem_cons.1 hquiet
    obtain ⟨hconsulted, hturns⟩ := List.forall_mem_cons.1 hturns
    obtain ⟨hops, hqueries⟩ := List.append_subset.1 hconsulted
    obtain ⟨hfirst, hlater⟩ := List.pairwise_cons.1 hlater
    obtain ⟨hrefusal, hnext⟩ := h.turn haction hbody (fun r hr q hq => hrs q (hqs hq) r (hops hr))
      (fun q hq => hresults q hq t' List.mem_cons_self)
    have hresults' : ∀ q ∈ qs ++ t'.queries, ∀ t ∈ turns, q.id ≠ t.action.result.id := by
      intro q hq t ht
      rcases List.mem_append.1 hq with hq | hq
      · exact hresults q hq t (List.mem_cons_of_mem t' ht)
      · exact hfirst t ht q hq
    obtain ⟨hrest, hpredicates⟩ := ih hnext hactions hquiet (List.append_subset.2 ⟨hqs, hqueries⟩) hturns hresults'
      hlater
    refine ⟨?_, hpredicates⟩
    rw [Recorder.refusals, Recorder.refusals, hrefusal, ← recorder_turn s t, ← recorder_turn s' t', hrest]

/-- Where no body adds a clause, all of the trace is the recorder's own. -/
theorem translated_quiet : ∀ (ts : List Turn) {s : Attributed}, s.Fits cat → (∀ t ∈ ts, t.body = []) →
    s.translated = s.recorder.trace →
    ((ts.map Step.turn).foldl step s).translated = ((ts.map Step.turn).foldl step s).recorder.trace
  | [], _, _, _, h => h
  | t :: ts, s, hs, hquiet, h => by
    obtain ⟨hbody, hquiet⟩ := List.forall_mem_cons.1 hquiet
    obtain ⟨htaken, hfits⟩ := turn_taken hs t
    refine translated_quiet ts hfits hquiet ?_
    rw [← hs.trace] at h
    show (s.turn t).translated = (s.turn t).recorder.trace
    rw [← hfits.trace]
    cases htaken with
    | idle rs hcon hmarked => rw [translated_eq_of_marked hmarked, hmarked, h]
    | accepted rec mid c₁ hrec hcon hmarked =>
      rw [translated_of_accepted hmarked, hmarked, h, ← Recording.early_append_late]
      simp [Turn.recorded, hbody, Function.comp_def]

end Attributed

namespace Recorder

/-- **Instrumented code does not perturb the recording.**  Two recorders of the same classes are taken through the same
actions, and only in the second run do bodies ask something.  Let no two references that are looked up share an id, and
let none be asked for before the action that it is the result of.  Then the same actions are refused, with the same
faults; and the recorder's own clauses in the second trace have the predicates of the first, in order. -/
theorem run_transparent (cat : Catalog) {quiet turns : List Turn}
    (hactions : quiet.map Turn.action = turns.map Turn.action) (hquiet : ∀ t ∈ quiet, t.body = [])
    (hdistinct : Distinct (turns.flatMap Turn.consulted))
    (hlater : turns.Pairwise fun t t' => ∀ q ∈ t.queries, q.id ≠ t'.action.result.id) :
    let asked := Attributed.run cat (turns.map .turn)
    refusals { catalog := cat } turns = refusals { catalog := cat } quiet ∧
      asked.marked.map Prod.snd = (run cat (turns.map .turn)).trace ∧
      asked.translated.map (·.predicate) = (run cat (quiet.map .turn)).trace.map (·.predicate) := by
  intro asked
  have hconsulted : ∀ t ∈ turns, t.consulted ⊆ turns.flatMap Turn.consulted := fun t ht q hq =>
    List.mem_flatMap.2 ⟨t, ht, hq⟩
  obtain ⟨hrefusals, hpredicates⟩ := (Attributed.tandem_init cat).turns hdistinct hactions hquiet (List.nil_subset _)
    hconsulted (List.forall_mem_nil _) hlater
  refine ⟨hrefusals.symm, ?_, ?_⟩
  · rw [(Attributed.fits_run cat _).trace, Attributed.recorder_run]
  · have hown : (Attributed.run cat (quiet.map .turn)).translated =
        (Attributed.run cat (quiet.map .turn)).recorder.trace :=
      Attributed.translated_quiet quiet (Attributed.fits_run cat []) hquiet rfl
    rw [← Attributed.recorder_run, ← hown]
    exact hpredicates.symm

/-- `v0 = 7; v1 = Calc.twice(v0); v2 = v1 + 3`, and then `v2` once more.  Instrumented code asks for the operand 3
before anything else does, and notes a branch. -/
def askingTurns : List Turn :=
  [⟨.literal (.var ⟨0⟩ .int) (.scalar (.int 7)),
    [.termOf (.constant ⟨5⟩ .int (.scalar (.int 3))), .record ⟨.branch "odd", .path (.const .null) true⟩], none⟩,
   ⟨.call (.var ⟨1⟩ .int) none ⟨"Calc", "twice", ⟨[.int], .int⟩⟩ [.var ⟨0⟩ .int], [.termOf (.var ⟨1⟩ .int)], none⟩,
   ⟨.compute (.var ⟨2⟩ .int) (.var ⟨1⟩ .int) .plus (.constant ⟨5⟩ .int (.scalar (.int 3))), [], none⟩,
   ⟨.literal (.var ⟨2⟩ .int) (.scalar (.int 8)), [], none⟩]

def quietTurns : List Turn := askingTurns.map fun t => { t with body := [] }

/-- The last of the four turns is refused in both runs.  The handles in the traces differ, but not the predicates. -/
theorem run_transparent_sum :
    refusals { catalog := calculator } askingTurns = refusals { catalog := calculator } quietTurns ∧
      (refusals { catalog := calculator } askingTurns).map Option.isSome = [false, false, false, true] ∧
      (Attributed.run calculator (askingTurns.map .turn)).translated ≠
        (run calculator (quietTurns.map .turn)).trace ∧
      (Attributed.run calculator (askingTurns.map .turn)).translated.map (·.predicate) =
        (run calculator (quietTurns.map .turn)).trace.map (·.predicate) := by
  have hactions : quietTurns.map Turn.action = askingTurns.map Turn.action := by decide
  have hdistinct : Distinct (askingTurns.flatMap Turn.consulted) := by decide
  obtain ⟨hrefusals, -, hpredicates⟩ := run_transparent calculator hactions (by decide) hdistinct (by decide)
  exact ⟨hrefusals, by decide, by decide, hpredicates⟩

end Recorder
end Retrace
