import Mathlib.Data.List.Induction
import Mathlib.Data.List.Nodup
import Retrace.Proofs.Hooks
/-!
# Tickets — an action ends with its own call

Handing back a ticket ends the action that is running, whichever ticket it is.  As long as no ticket from before a
clear is accepted after it, that is the ticket which this action was begun with (`Ledger.Orderly`): every earlier one
was handed back before the action could begin.  So each call in the trace stands there for a call begun since the
recorder was last cleared, once.

A ticket from before a clear breaks all of this (`Ledger.stale_ticket_accepted`).
-/
namespace Retrace
namespace Ledger

variable {cat : Catalog} {l l' : Ledger} {hook : Hook Nat}

theorem unused?_eq_some {n : Nat} {i : Issue} : l.unused? n = some i ↔ n ∉ l.used ∧ l.issued[n]? = some i := by
  unfold unused?
  split
  · rename_i h
    simp [h]
  · rename_i h
    simp [h]

/-! ## Which action a recorder is inside of -/

/-- **The recorder is inside the action of ticket `n`**: beginning this action put it there, and since then it has not
left it and no other ticket was handed out. -/
def Inside (cat : Catalog) (hooks : List (Hook Nat)) (n : Nat) : Prop :=
  ∃ pre a post, hooks = pre ++ .before a :: post ∧ (run cat pre).recorder.Ready ∧ (run cat pre).issued.length = n ∧
    ∀ mid, mid <+: post → (run cat (pre ++ .before a :: mid)).recorder.phase = .recording ∧
      (run cat (pre ++ .before a :: mid)).issued.length = n + 1

theorem Inside.length_issued {hooks : List (Hook Nat)} {n : Nat} (h : Inside cat hooks n) :
    (run cat hooks).issued.length = n + 1 := by
  obtain ⟨pre, a, post, rfl, -, -, hpost⟩ := h
  exact (hpost post (List.prefix_refl post)).2

/-- A call after which the recorder is inside an action has left it there, or has begun that action. -/
theorem Stepped.recording (h : Stepped cat l hook l') (hphase' : l'.recorder.phase = .recording) :
    (l.recorder.phase = .recording ∧ l'.issued = l.issued) ∨
      ∃ a, hook = .before a ∧ l.recorder.Ready ∧ l'.issued.length = l.issued.length + 1 := by
  cases h with
  | idle _ c phase position journal used rs hcon hphase =>
    rcases hphase with rfl | rfl
    · exact .inl ⟨hphase', rfl⟩
    · cases hphase'
  | noted cl hphase => exact .inl ⟨hphase, rfl⟩
  | begun a rec mid c journal hready => exact .inr ⟨a, rfl, hready, by simp⟩
  | ended => cases hphase'
  | cleared => cases hphase'

/-- **A recorder that records is inside the action of the last ticket.** -/
theorem inside_of_recording (hooks : List (Hook Nat)) (h : (run cat hooks).recorder.phase = .recording) :
    ∃ n, Inside cat hooks n := by
  induction hooks using List.reverseRecOn with
  | nil => cases h
  | append_singleton hooks hook ih =>
    have hsound := run_sound cat hooks
    have hstep := step_stepped hsound.catalog hsound.wf hook
    rw [← run_snoc] at hstep
    rcases hstep.recording h with ⟨hphase, hissued⟩ | ⟨a, rfl, hready, hlength⟩
    · obtain ⟨n, hinside⟩ := ih hphase
      have hlength := hinside.length_issued
      obtain ⟨pre, a, post, rfl, hready, hn, hpost⟩ := hinside
      refine ⟨n, pre, a, post ++ [hook], by simp, hready, hn, fun mid hmid => ?_⟩
      rcases List.prefix_concat_iff.1 hmid with rfl | hmid
      · rw [← List.cons_append, ← List.append_assoc]
        exact ⟨h, by rw [hissued, hlength]⟩
      · exact hpost mid hmid
    · refine ⟨_, hooks, a, [], rfl, hready, rfl, fun mid hmid => ?_⟩
      rw [List.prefix_nil.1 hmid]
      exact ⟨h, hlength⟩

/-! ## Tickets from before a clear -/

/-- A ticket that is accepted was handed out since the recorder was last cleared. -/
def onTime (l : Ledger) : Hook Nat → Bool
  | .after n thrown => !l.accepts n thrown || decide (l.floor ≤ n)
  | _ => true

/-- **No ticket from before a clear is accepted after it.** -/
def Timely (cat : Catalog) (hooks : List (Hook Nat)) : Prop := all onTime { recorder := { catalog := cat } } hooks = true

instance (cat : Catalog) (hooks : List (Hook Nat)) : Decidable (Timely cat hooks) :=
  inferInstanceAs (Decidable (_ = true))

theorem timely_iff {hooks : List (Hook Nat)} :
    Timely cat hooks ↔ ∀ pre n thrown post, hooks = pre ++ .after n thrown :: post →
      (run cat pre).accepts n thrown = true → (run cat pre).floor ≤ n := by
  unfold Timely
  rw [all_iff]
  constructor
  · intro h pre n thrown post hs haccepts
    have := h pre (.after n thrown) post hs
    change onTime (run cat pre) (.after n thrown) = true at this
    simpa [onTime, haccepts] using this
  · intro h pre hook post hs
    cases hook with
    | after n thrown =>
      have := h pre n thrown post hs
      change onTime (run cat pre) (.after n thrown) = true
      cases haccepts : (run cat pre).accepts n thrown with
      | false => simp [onTime, haccepts]
      | true => simp [onTime, this haccepts]
    | _ => rfl

theorem Timely.append {hooks more : List (Hook Nat)} (h : Timely cat (hooks ++ more)) :
    Timely cat hooks ∧ (run cat hooks).all onTime more = true := by
  unfold Timely at h
  rwa [all_append, Bool.and_eq_true] at h

theorem floor_le_of_onTime {n : Nat} {thrown : Option Thrown} {i : Issue} (htime : l.onTime (.after n thrown) = true)
    (hphase : l.recorder.phase = .recording) (hunused : l.unused? n = some i) : l.floor ≤ n := by
  have haccepts : l.accepts n thrown = true := accepts_iff.2 ⟨⟨i, hunused⟩, hphase⟩
  simpa [onTime, haccepts] using htime

/-- **At most one ticket is out**: the last one, until its action has ended. -/
def Orderly (l : Ledger) : Prop :=
  ∀ n i, l.floor ≤ n → l.unused? n = some i → n + 1 = l.issued.length ∧ ¬ l.recorder.Ready

theorem not_ready_of_recording {r : Recorder} (h : r.phase = .recording) : ¬ r.Ready := by
  rintro (h' | h') <;> rw [h] at h' <;> cases h'

/-- **What a call keeps in order**, unless it hands back a ticket from before a clear. -/
theorem Orderly.stepped (htime : l.onTime hook = true) (hstep : Stepped cat l hook l') (h : l.Orderly) : l'.Orderly := by
  intro n i hfloor hunused
  rw [unused?_eq_some] at hunused
  obtain ⟨hn, hi⟩ := hunused
  cases hstep with
  | idle _ c phase position journal used rs hcon hphase hposition hused =>
    obtain ⟨hlast, hready⟩ := h n i hfloor (unused?_eq_some.2 ⟨fun hmem => hn (hused hmem), hi⟩)
    refine ⟨hlast, fun hr => ?_⟩
    rcases hphase with rfl | rfl
    · exact hready hr
    · rcases hr with hr | hr <;> cases hr
  | noted cl hphase => exact h n i hfloor (unused?_eq_some.2 ⟨hn, hi⟩)
  | begun a rec mid c journal hready =>
    refine ⟨?_, not_ready_of_recording rfl⟩
    simp only [List.length_append, List.length_singleton, Nat.add_right_cancel_iff]
    rcases Nat.lt_trichotomy n l.issued.length with hlt | heq | hgt
    · -- an earlier ticket would have kept the action from beginning
      rw [List.getElem?_append_left hlt] at hi
      exact absurd hready (h n i hfloor (unused?_eq_some.2 ⟨hn, hi⟩)).2
    · exact heq
    · rw [List.getElem?_eq_none (by simp; omega)] at hi
      cases hi
  | ended k thrown j journal hphase hk =>
    obtain ⟨hlast, -⟩ := h k j (floor_le_of_onTime htime hphase hk) hk
    rw [List.mem_cons, not_or] at hn
    obtain ⟨hlast', -⟩ := h n i hfloor (unused?_eq_some.2 ⟨hn.2, hi⟩)
    exact absurd (by omega) hn.1
  | cleared =>
    rw [List.getElem?_eq_none hfloor] at hi
    cases hi

theorem orderly_init (cat : Catalog) : Orderly { recorder := { catalog := cat } } := fun n i _ h => by
  obtain ⟨-, hi⟩ := unused?_eq_some.1 h
  cases hi

theorem run_orderly {hooks : List (Hook Nat)} (h : Timely cat hooks) : (run cat hooks).Orderly :=
  all_induction (fun _ htime hstep hq => hq.stepped htime hstep) hooks (sound_init cat) h (orderly_init cat)

/-- **An accepted ticket that is on time is that of the action the recorder is inside of.** -/
theorem Orderly.inside {hooks : List (Hook Nat)} {n : Nat} {thrown : Option Thrown} (h : (run cat hooks).Orderly)
    (haccepts : (run cat hooks).accepts n thrown = true) (hfloor : (run cat hooks).floor ≤ n) : Inside cat hooks n := by
  obtain ⟨⟨i, hi⟩, hphase⟩ := accepts_iff.1 haccepts
  obtain ⟨hlast, -⟩ := h n i hfloor hi
  obtain ⟨m, hinside⟩ := inside_of_recording hooks hphase
  obtain rfl : m = n := by
    have := hinside.length_issued
    omega
  exact hinside

/-! ## The calls in a trace -/

/-- The clauses that came in as an action ended, under the number of the ticket. -/
def endings (l : Ledger) : List (Nat × Clause) :=
  l.marked.filterMap fun
    | (.ended n, cl) => some (n, cl)
    | _ => none

/-- **The account of the accepted tickets**: each was handed out and is used up, none was accepted twice, and what came
in as actions ended are their calls, in order. -/
structure Accounted (l : Ledger) : Prop where
  accepted : ∀ p ∈ l.accepted, l.issued[p.1]? = some p.2 ∧ p.1 ∈ l.used
  distinct : (l.accepted.map Prod.fst).Nodup
  endings : l.endings = l.accepted.flatMap fun p => p.2.ticket.late.map (p.1, ·)
  begun : ∀ n cl, (.begun n, cl) ∈ l.marked → cl.instruction.callKind? = none

theorem endings_append (marked : List (Mark × Clause)) (h : l'.marked = l.marked ++ marked) :
    l'.endings = l.endings ++ { l with marked }.endings := by
  rw [Ledger.endings, h, List.filterMap_append]
  rfl

theorem Accounted.stepped (hstep : Stepped cat l hook l') (h : l.Accounted) : l'.Accounted := by
  cases hstep with
  | idle _ c phase position journal used rs hcon hphase hposition hused =>
    refine ⟨fun p hp => ?_, h.distinct, h.endings, h.begun⟩
    exact ⟨(h.accepted p hp).1, hused (h.accepted p hp).2⟩
  | noted cl hphase =>
    refine ⟨h.accepted, h.distinct, ?_, fun n cl' hcl => ?_⟩
    · rw [endings_append (l := l) _ rfl, h.endings]
      exact List.append_nil _
    · simp only [List.mem_append, List.mem_singleton, Prod.mk.injEq, reduceCtorEq, false_and, or_false] at hcl
      exact h.begun n cl' hcl
  | begun a rec mid c journal hready hrun hrec =>
    refine ⟨fun p hp => ?_, h.distinct, ?_, fun n cl hcl => ?_⟩
    · obtain ⟨hissue, hused⟩ := h.accepted p hp
      refine ⟨?_, hused⟩
      rw [List.getElem?_append_left (List.getElem?_eq_some_iff.1 hissue).1]
      exact hissue
    · rw [endings_append (l := l) _ rfl, h.endings]
      simp [Ledger.endings, List.filterMap_map]
    · rcases List.mem_append.1 hcl with hcl | hcl
      · exact h.begun n cl hcl
      · obtain ⟨cl', hcl', heq⟩ := List.mem_map.1 hcl
        cases heq
        exact hrec.callKind_early hcl'
  | ended k thrown j journal hphase hk =>
    obtain ⟨hused, hissue⟩ := unused?_eq_some.1 hk
    refine ⟨fun p hp => ?_, ?_, ?_, fun n cl hcl => ?_⟩
    · rcases List.mem_append.1 hp with hp | hp
      · exact ⟨(h.accepted p hp).1, List.mem_cons_of_mem _ (h.accepted p hp).2⟩
      · rw [List.mem_singleton.1 hp]
        exact ⟨hissue, List.mem_cons_self⟩
    · rw [List.map_append, List.map_singleton, List.nodup_append_comm, List.singleton_append, List.nodup_cons]
      refine ⟨fun hmem => ?_, h.distinct⟩
      obtain ⟨p, hp, rfl⟩ := List.mem_map.1 hmem
      exact hused (h.accepted p hp).2
    · rw [endings_append (l := l) _ rfl, h.endings, List.flatMap_append, List.flatMap_singleton]
      simp [Ledger.endings, List.filterMap_map]
    · rcases List.mem_append.1 hcl with hcl | hcl
      · exact h.begun n cl hcl
      · obtain ⟨cl', -, heq⟩ := List.mem_map.1 hcl
        cases heq
  | cleared => exact ⟨List.forall_mem_nil _, List.nodup_nil, rfl, fun _ _ hcl => by cases hcl⟩

theorem run_accounted (cat : Catalog) (hooks : List (Hook Nat)) : (run cat hooks).Accounted :=
  run_induction ⟨List.forall_mem_nil _, List.nodup_nil, rfl, fun _ _ hcl => by cases hcl⟩
    (fun _ hstep hq => hq.stepped hstep) hooks

theorem accepted_since_clear {hooks : List (Hook Nat)} (h : Timely cat hooks) :
    ∀ p ∈ (run cat hooks).accepted, (run cat hooks).floor ≤ p.1 := by
  refine all_induction (Q := fun l => ∀ p ∈ l.accepted, l.floor ≤ p.1) (fun _ htime hstep hq => ?_) hooks
    (sound_init cat) h (List.forall_mem_nil _)
  cases hstep with
  | idle | noted | begun => exact hq
  | ended n thrown i journal hphase hunused =>
    have hfloor := floor_le_of_onTime htime hphase hunused
    rw [List.forall_mem_append, List.forall_mem_singleton]
    exact ⟨hq, hfloor⟩
  | cleared => exact List.forall_mem_nil _

theorem mem_endings {n : Nat} {cl : Clause} : (n, cl) ∈ l.endings ↔ (.ended n, cl) ∈ l.marked := by
  rw [endings, List.mem_filterMap]
  constructor
  · rintro ⟨⟨mark, cl'⟩, hmem, heq⟩
    cases mark <;> cases heq
    exact hmem
  · exact fun hmem => ⟨_, hmem, rfl⟩

theorem fst_calls : ∀ ps : List (Nat × Issue),
    (ps.flatMap fun p => p.2.ticket.late.map (p.1, ·)).map Prod.fst =
      (ps.filter fun p => p.2.ticket.pending.isSome).map Prod.fst
  | [] => rfl
  | p :: ps => by
    rw [List.flatMap_cons, List.map_append, fst_calls ps]
    cases hp : p.2.ticket.pending <;> simp [Ticket.late, hp]

/-- An accepted ticket of a call has one clause in the trace. -/
theorem Accounted.count_ending (h : l.Accounted) {p : Nat × Issue} (hp : p ∈ l.accepted)
    (hcall : p.2.ticket.pending.isSome) : (l.endings.map Prod.fst).count p.1 = 1 := by
  rw [h.endings, fst_calls]
  refine List.count_eq_one_of_mem ?_ (List.mem_map_of_mem (List.mem_filter.2 ⟨hp, hcall⟩))
  exact h.distinct.sublist (List.Sublist.map _ List.filter_sublist)

/-- **A trace to which actions committed their own calls**: a call that the recorder put there came in as a call
action ended that was begun since the recorder was last cleared, and each such action that has ended is there once. -/
structure CommitsOwn (l : Ledger) : Prop where
  trace : l.marked.map Prod.snd = l.recorder.trace
  belongs : ∀ mark cl, (mark, cl) ∈ l.marked → mark = .instrumentation ∨ cl.instruction.callKind? = none ∨
    ∃ n i p, mark = .ended n ∧ l.floor ≤ n ∧ l.issued[n]? = some i ∧ i.isCall ∧ (n, i) ∈ l.accepted ∧
      i.ticket.pending = some p ∧ cl = p.clause
  once : ∀ p ∈ l.accepted, p.2.isCall → (l.endings.map Prod.fst).count p.1 = 1
  current : ∀ n cl, (.ended n, cl) ∈ l.marked → l.floor ≤ n

theorem Accounted.commitsOwn (h : l.Accounted) (hsound : l.Sound cat) (hfloor : ∀ p ∈ l.accepted, l.floor ≤ p.1) :
    l.CommitsOwn := by
  have hended : ∀ n cl, (.ended n, cl) ∈ l.marked → ∃ i p, (n, i) ∈ l.accepted ∧ i.ticket.pending = some p ∧
      cl = p.clause := by
    intro n cl hmem
    have hending := mem_endings.2 hmem
    rw [h.endings] at hending
    obtain ⟨⟨m, i⟩, hi, hlate⟩ := List.mem_flatMap.1 hending
    obtain ⟨cl', hcl', heq⟩ := List.mem_map.1 hlate
    cases heq
    obtain ⟨p, hp, rfl⟩ := Option.map_eq_some_iff.1 (Option.mem_toList.1 hcl')
    exact ⟨i, p, hi, hp, rfl⟩
  have hgenuine : ∀ p ∈ l.accepted, p.2.isCall = p.2.ticket.pending.isSome := fun p hp =>
    (hsound.genuine p.2 (List.mem_of_getElem? (h.accepted p hp).1)).isCall
  refine ⟨hsound.trace, fun mark cl hmem => ?_, fun p hp hcall => ?_, fun n cl hmem => ?_⟩
  · cases mark with
    | instrumentation => exact .inl rfl
    | begun n => exact .inr (.inl (h.begun n cl hmem))
    | ended n =>
      obtain ⟨i, p, hi, hp, hcl⟩ := hended n cl hmem
      have hcall : i.isCall = true := by rw [hgenuine _ hi, hp]; rfl
      exact .inr (.inr ⟨n, i, p, rfl, hfloor _ hi, (h.accepted _ hi).1, hcall, hi, hp, hcl⟩)
  · rw [hgenuine p hp] at hcall
    exact h.count_ending hp hcall
  · obtain ⟨i, p, hi, -⟩ := hended n cl hmem
    exact hfloor _ hi

/-- **Actions commit their own calls exactly as long as no ticket outlives a clear.**  Over any calls, each ticket that
is accepted is that of the action which the recorder is inside of, if and only if none of them is from before a clear;
and then the calls in the trace are those of the actions begun since the last clear that have ended, each once. -/
theorem commits_own_iff (cat : Catalog) (hooks : List (Hook Nat)) :
    ((∀ pre n thrown post, hooks = pre ++ .after n thrown :: post → (run cat pre).accepts n thrown = true →
        Inside cat pre n) ↔ Timely cat hooks) ∧
      (Timely cat hooks → (run cat hooks).CommitsOwn) := by
  refine ⟨⟨fun hown => ?_, fun htimely => ?_⟩, fun htimely => ?_⟩
  · rw [timely_iff]
    intro pre n thrown post hs haccepts
    have hlength := (hown pre n thrown post hs haccepts).length_issued
    have hfloor := (run_sound cat pre).inside (accepts_iff.1 haccepts).2
    omega
  · intro pre n thrown post hs haccepts
    have hfloor := timely_iff.1 htimely pre n thrown post hs haccepts
    rw [hs] at htimely
    exact (run_orderly htimely.append.1).inside haccepts hfloor
  · exact (run_accounted cat hooks).commitsOwn (run_sound cat hooks) (accepted_since_clear htimely)

def counter : Catalog := .ofDeclarations [⟨⟨"Counter", false⟩, [.method "next" ⟨[], .int⟩ true]⟩]

def nextMethod : Method := ⟨⟨"Counter", false⟩, "next", ⟨[], .int⟩, true⟩

def nextCall (id : UInt32) : Action := .call (.var ⟨id⟩ .int) none nextMethod.ref []

/-- What a call of `next` comes down to, with the name of its result and that of the unknown. -/
def nextPending (result unknown : String) : PendingCall where
  instruction := .call .static nextMethod (some result) none []
  method := nextMethod
  result := some (.var .int unknown)
  inputs := {}
  predicate := .call (some (.var .int unknown)) (.call (.staticOf nextMethod.owner) nextMethod [])

/-- One call raises; the second is left open when the recorder is cleared; the third ends. -/
def nextHooks : List (Hook Nat) :=
  [.before (nextCall 0), .after 0 (some ⟨"Overflow", "next"⟩), .before (nextCall 1), .clear, .before (nextCall 0),
   .probe (.termOf (.null ⟨7⟩ .root)), .after 2 none]

theorem commits_own_next :
    Timely counter nextHooks ∧ Inside counter (nextHooks.take 6) 2 ∧ (run counter nextHooks).CommitsOwn := by
  have htimely : Timely counter nextHooks := by decide
  obtain ⟨hown, hcommits⟩ := commits_own_iff counter nextHooks
  exact ⟨htimely, hown.2 htimely _ 2 none [] rfl (by decide), hcommits htimely⟩

/-- A ticket is kept over a clear and handed back inside another action. -/
def lateHooks : List (Hook Nat) := [.before (nextCall 0), .clear, .before (nextCall 1), .after 0 none]

/-- **A ticket from before a clear is accepted.**  It ends the action of another ticket, and its call is the only one in
the trace after the clear. -/
theorem stale_ticket_accepted :
    ¬ (∀ pre n thrown post, lateHooks = pre ++ .after n thrown :: post →
        (run counter pre).accepts n thrown = true → Inside counter pre n) ∧
      (run counter lateHooks).floor = 1 ∧
      (run counter lateHooks).endings = [(0, ⟨.call .static nextMethod (some "v0") none [],
        .call (some (.var .int "v0!0")) (.call (.staticOf nextMethod.owner) nextMethod [])⟩)] := by
  refine ⟨fun hown => ?_, by decide, by decide⟩
  have hinside := hown (lateHooks.take 3) 0 none [] rfl (by decide)
  have hlength : (run counter (lateHooks.take 3)).issued.length = 2 := by decide
  rw [hinside.length_issued] at hlength
  cases hlength

end Ledger
end Retrace
