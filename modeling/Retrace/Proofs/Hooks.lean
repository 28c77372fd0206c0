import Retrace.Proofs.Runs
/-!
# Hooks — a recorder whose hooks are called in any order

A host need not keep to turns.  It may begin an action and never end it, end the execution or clear the recorder in
between, and hand back a ticket late.  A `Ledger` follows a recorder through any such calls: it numbers the tickets in
the order in which they were handed out, knows which of them are used up and how many there were when the recorder was
last cleared, and marks each clause of the trace with the ticket it came in under.

What a call can do is said once (`Ledger.step_stepped`), and what every call preserves holds after every run
(`Ledger.run_sound`).
-/
namespace Retrace

open Cache (Consults Extends)

/-- One call on a recorder; `τ` is what a ticket goes by. -/
inductive Hook (τ : Type) where
  | before (action : Action)
  | after (ticket : τ) (thrown : Option Thrown)
  | probe (probe : Probe)
  | output (position : Nat) (text : String)
  | finish
  | clear
  deriving DecidableEq

structure Issue where
  action : Action
  ticket : Ticket
  deriving DecidableEq

/-- How a clause came into the trace: as an action began or as one ended, under the number of the ticket, or from
instrumented code. -/
inductive Mark where
  | begun (number : Nat)
  | ended (number : Nat)
  | instrumentation
  deriving DecidableEq

/-- A recorder and the tickets it has handed out. -/
structure Ledger where
  recorder : Recorder
  issued : List Issue := []
  /-- Numbers of the tickets that were handed back, whether or not they were accepted. -/
  used : List Nat := []
  /-- Tickets with lower numbers were handed out before the recorder was last cleared. -/
  floor : Nat := 0
  /-- The tickets that were accepted since then, under their numbers. -/
  accepted : List (Nat × Issue) := []
  marked : List (Mark × Clause) := []

namespace Ledger

/-- A ticket that was handed out and not yet handed back. -/
def unused? (l : Ledger) (n : Nat) : Option Issue := if n ∈ l.used then none else l.issued[n]?

/-- The recorder moves on to `r`, and what the trace gained is marked. -/
def put (l : Ledger) (mark : Mark) (r : Recorder) : Ledger :=
  { l with recorder := r, marked := l.marked ++ (r.trace.drop l.recorder.trace.length).map (mark, ·) }

/-- Makes a call, in which a ticket goes by its number.  There is no calling `after` without a ticket, so with the
number of none nothing happens. -/
def step (l : Ledger) : Hook Nat → Ledger
  | .before a =>
    match Recorder.before a l.recorder with
    | .ok ticket r => { l.put (.begun l.issued.length) r with issued := l.issued ++ [⟨a, ticket⟩] }
    | .error _ r => { l with recorder := r }
  | .after n thrown =>
    match l.unused? n with
    | none => l
    | some i =>
      match Recorder.after i.ticket thrown l.recorder with
      | .ok _ r => { l.put (.ended n) r with used := n :: l.used, accepted := l.accepted ++ [(n, i)] }
      | .error _ r => { l with recorder := r, used := n :: l.used }
  | .probe p => l.put .instrumentation (l.recorder.probe p).2
  | .output position text => { l with recorder := l.recorder.output position text }
  | .finish => { l with recorder := l.recorder.finish }
  | .clear => { recorder := l.recorder.clear, issued := l.issued, used := l.used, floor := l.issued.length }

def run (cat : Catalog) (hooks : List (Hook Nat)) : Ledger := hooks.foldl step { recorder := { catalog := cat } }

theorem run_append (cat : Catalog) (hooks more : List (Hook Nat)) :
    run cat (hooks ++ more) = more.foldl step (run cat hooks) := List.foldl_append

theorem run_snoc (cat : Catalog) (hooks : List (Hook Nat)) (hook : Hook Nat) :
    run cat (hooks ++ [hook]) = (run cat hooks).step hook := run_append cat hooks [hook]

def accepts (l : Ledger) (n : Nat) (thrown : Option Thrown) : Bool :=
  match l.unused? n with
  | none => false
  | some i =>
    match Recorder.after i.ticket thrown l.recorder with
    | .ok _ _ => true
    | .error _ _ => false

theorem accepts_iff {l : Ledger} {n : Nat} {thrown : Option Thrown} :
    l.accepts n thrown = true ↔ (∃ i, l.unused? n = some i) ∧ l.recorder.phase = .recording := by
  unfold accepts
  cases hu : l.unused? n with
  | none => simp
  | some i =>
    by_cases hp : l.recorder.phase = .recording
    · obtain ⟨journal, hafter⟩ := Recorder.after_recording hp i.ticket thrown
      simp [hafter, hp]
    · obtain ⟨e, hafter⟩ := Recorder.after_idle hp i.ticket thrown
      simp [hafter, hp]

/-! ## What a call does -/

/-- **What a call does to a ledger.**  Nothing is recorded, though the table may have been consulted and the recorder
may be disabled by now; or instrumented code adds a clause; or an action begins, or ends; or all is cleared. -/
inductive Stepped (cat : Catalog) (l : Ledger) : Hook Nat → Ledger → Prop
  | idle (hook : Hook Nat) (c : Cache) (phase : Phase) (position : Nat) (journal : List Event) (used : List Nat)
      (rs : List Reference) (hcon : Consults cat rs l.recorder.cache c)
      (hphase : phase = l.recorder.phase ∨ phase = .disabled) (hposition : l.recorder.position ≤ position)
      (hused : l.used ⊆ used) :
      Stepped cat l hook { l with recorder := { l.recorder with cache := c, phase, position, journal }, used }
  | noted (cl : Clause) (hphase : l.recorder.phase = .recording) :
      Stepped cat l (.probe (.record cl)) { l with
        recorder := { l.recorder with trace := l.recorder.trace ++ [cl] },
        marked := l.marked ++ [(.instrumentation, cl)] }
  | begun (a : Action) (rec : Recording) (mid c : Cache) (journal : List Event) (hready : l.recorder.Ready)
      (hrun : a.recording cat l.recorder.cache = .ok rec c) (hrec : Recorded cat a l.recorder.cache mid rec c) :
      Stepped cat l (.before a) { l with
        recorder := { l.recorder with
          cache := c, trace := l.recorder.trace ++ rec.early, position := l.recorder.position + 1, phase := .recording,
          journal },
        issued := l.issued ++ [⟨a, ⟨l.recorder.position, rec.pending?⟩⟩],
        marked := l.marked ++ rec.early.map (.begun l.issued.length, ·) }
  | ended (n : Nat) (thrown : Option Thrown) (i : Issue) (journal : List Event)
      (hphase : l.recorder.phase = .recording) (hunused : l.unused? n = some i) :
      Stepped cat l (.after n thrown) { l with
        recorder := { l.recorder with
          trace := l.recorder.trace ++ i.ticket.late, phase := .suspended,
          sites := i.ticket.noted (l.recorder.trace.length + 1) l.recorder.sites,
          calls := l.recorder.calls + i.ticket.late.length, journal },
        used := n :: l.used, accepted := l.accepted ++ [(n, i)],
        marked := l.marked ++ i.ticket.late.map (.ended n, ·) }
  | cleared : Stepped cat l .clear
      { recorder := l.recorder.clear, issued := l.issued, used := l.used, floor := l.issued.length }

variable {cat : Catalog} {l : Ledger}

theorem put_eq (mark : Mark) {r : Recorder} (new : List Clause) (h : r.trace = l.recorder.trace ++ new) :
    l.put mark r = { l with recorder := r, marked := l.marked ++ new.map (mark, ·) } := by
  rw [put, h, List.drop_left]

theorem put_same (mark : Mark) {r : Recorder} (h : r.trace = l.recorder.trace) :
    l.put mark r = { l with recorder := r } := by
  rw [put, h, List.drop_length, List.map_nil, List.append_nil]

theorem stepped_same (hwf : l.recorder.cache.Wf) (hook : Hook Nat) : Stepped cat l hook l :=
  .idle hook _ _ _ _ _ [] (.refl _ hwf) (.inl rfl) (Nat.le_refl _) (List.Subset.refl _)

theorem before_stepped (hcat : l.recorder.catalog = cat) (hwf : l.recorder.cache.Wf) (a : Action) :
    Stepped cat l (.before a) (l.step (.before a)) := by
  subst hcat
  by_cases hready : l.recorder.Ready
  · have hbefore := Recorder.before_ready hready a
    cases hrun : a.recording l.recorder.catalog l.recorder.cache with
    | error e c =>
      rw [hrun] at hbefore
      simp only [step, hbefore]
      exact .idle _ c _ _ _ _ a.operands (Action.recording_error hwf hrun) (.inr rfl) (Nat.le_succ _) (List.Subset.refl _)
    | ok rec c =>
      rw [hrun] at hbefore
      obtain ⟨mid, hrec⟩ := Action.recording_ok hwf hrun
      simp only [step, hbefore]
      rw [put_eq (.begun l.issued.length) rec.early rfl]
      exact .begun a rec mid c _ hready hrun hrec
  · obtain ⟨e, he⟩ := Recorder.before_busy hready a
    simp only [step, he]
    exact stepped_same hwf _

theorem after_stepped (hwf : l.recorder.cache.Wf) (n : Nat) (thrown : Option Thrown) :
    Stepped cat l (.after n thrown) (l.step (.after n thrown)) := by
  cases hu : l.unused? n with
  | none =>
    simp only [step, hu]
    exact stepped_same hwf _
  | some i =>
    by_cases hphase : l.recorder.phase = .recording
    · obtain ⟨journal, hafter⟩ := Recorder.after_recording hphase i.ticket thrown
      simp only [step, hu, hafter]
      rw [put_eq (.ended n) i.ticket.late rfl]
      exact .ended n thrown i journal hphase hu
    · obtain ⟨e, hafter⟩ := Recorder.after_idle hphase i.ticket thrown
      simp only [step, hu, hafter]
      exact .idle _ _ _ _ _ _ [] (.refl _ hwf) (.inl rfl) (Nat.le_refl _) (List.subset_cons_self _ _)

theorem probe_stepped (hcat : l.recorder.catalog = cat) (hwf : l.recorder.cache.Wf) (p : Probe) :
    Stepped cat l (.probe p) (l.step (.probe p)) := by
  subst hcat
  by_cases hphase : l.recorder.phase = .recording
  · obtain ⟨c, hprobe, hcon⟩ := Recorder.probe_recording hwf hphase p
    cases p with
    | record cl =>
      have hrecord : (l.recorder.probe (.record cl)).2 = { l.recorder with trace := l.recorder.trace ++ [cl] } := by
        simp [Recorder.probe, hphase]
      simp only [step, hrecord]
      rw [put_eq .instrumentation [cl] rfl]
      exact .noted cl hphase
    | isLive | termOf ref =>
      simp only [Probe.recorded?, Option.toList_none, List.append_nil] at hprobe
      simp only [step, hprobe]
      rw [put_same .instrumentation (r := { l.recorder with cache := c }) rfl]
      exact .idle _ c _ _ _ _ _ hcon (.inl rfl) (Nat.le_refl _) (List.Subset.refl _)
  · simp only [step, Recorder.probe_idle hphase]
    rw [put_same .instrumentation rfl]
    exact stepped_same hwf _

/-- **Every call does one of these things.** -/
theorem step_stepped (hcat : l.recorder.catalog = cat) (hwf : l.recorder.cache.Wf) (hook : Hook Nat) :
    Stepped cat l hook (l.step hook) := by
  cases hook with
  | before a => exact before_stepped hcat hwf a
  | after n thrown => exact after_stepped hwf n thrown
  | probe p => exact probe_stepped hcat hwf p
  | output position text => exact stepped_same hwf _
  | finish =>
    obtain ⟨journal, hfinish⟩ := l.recorder.finish_eq
    simp only [step, hfinish]
    exact .idle _ _ _ _ _ _ [] (.refl _ hwf) (.inr rfl) (Nat.le_refl _) (List.Subset.refl _)
  | clear => exact .cleared

end Ledger

/-! ## What a ticket holds -/

def Action.callee? : Action → Option MethodRef
  | .call _ _ ref _ => some ref
  | _ => none

def Issue.isCall (i : Issue) : Bool := i.action.callee?.isSome

/-- **A genuine ticket** holds back a call exactly if its action is one, of the method that the action names. -/
def Issue.Genuine (cat : Catalog) (i : Issue) : Prop :=
  i.ticket.pending.map (fun p => Except.ok p.method) = i.action.callee?.map cat.resolveMethod

theorem Issue.Genuine.isCall {cat : Catalog} {i : Issue} (h : i.Genuine cat) : i.isCall = i.ticket.pending.isSome := by
  have := congrArg Option.isSome h
  rw [Option.isSome_map, Option.isSome_map] at this
  exact this.symm

theorem Recording.ofCall_method {cat : Catalog} {c c' : Cache} {result : Reference} {given : Option Reference}
    {ref : MethodRef} {args : List Reference} {rec : Recording} (h : ofCall cat result given ref args c = .ok rec c') :
    ∃ p, rec = .call p ∧ cat.resolveMethod ref = .ok p.method := by
  obtain ⟨method, c₁, hmethod, h⟩ := bind_ok h
  obtain ⟨callee, c₂, -, h⟩ := bind_ok h
  obtain ⟨handles, c₃, -, h⟩ := bind_ok h
  obtain ⟨form, c₄, -, h⟩ := bind_ok h
  obtain ⟨receiver, c₅, -, h⟩ := bind_ok h
  obtain ⟨term, c₆, -, h⟩ := bind_ok h
  obtain ⟨receiverTerm, c₇, -, h⟩ := bind_ok h
  obtain ⟨argTerms, c₈, -, h⟩ := bind_ok h
  cases h
  exact ⟨_, rfl, (answer_ok hmethod).1⟩

theorem Issue.genuine_of_recording {cat : Catalog} {c c' : Cache} {a : Action} {rec : Recording} (position : Nat)
    (hsuits : rec.Suits a) (h : a.recording cat c = .ok rec c') :
    Issue.Genuine cat ⟨a, ⟨position, rec.pending?⟩⟩ := by
  cases a with
  | call result receiver ref args =>
    obtain ⟨p, rfl, hmethod⟩ := Recording.ofCall_method h
    simp [Genuine, Recording.pending?, Action.callee?, hmethod]
  | _ => cases rec <;> first | exact hsuits.elim | rfl

/-- What an action adds as it begins is no call. -/
theorem Recorded.callKind_early {cat : Catalog} {a : Action} {c mid c' : Cache} {rec : Recording}
    (h : Recorded cat a c mid rec c') {cl : Clause} (hcl : cl ∈ rec.early) : cl.instruction.callKind? = none := by
  cases rec with
  | nothing => cases hcl
  | call p => cases hcl
  | clause cl' =>
    obtain rfl : cl = cl' := List.mem_singleton.1 hcl
    have hform := h.form
    have hinst : a.instruction? cat mid.lookup = some cl.instruction := h.instruction_of_clause rfl
    cases a with
    | fieldRead result source ref =>
      obtain ⟨field, owner, -, -, heq⟩ := Action.instruction?_fieldRead.1 hinst
      rw [← heq]
      rfl
    | assign target value =>
      cases target with
      | staticField id ty ref =>
        obtain ⟨field, owner, x, -, -, -, heq⟩ := storeInstruction?_eq_some.1 hinst
        rw [← heq]
        rfl
      | instanceField id ty source ref =>
        obtain ⟨field, owner, x, -, -, -, heq⟩ := storeInstruction?_eq_some.1 hinst
        rw [← heq]
        rfl
      | _ => cases hinst
    | compute result lhs op rhs =>
      obtain ⟨x, y, -, -, heq⟩ := Action.instruction?_compute.1 hinst
      rw [← heq]
      unfold Operator.instruction
      split <;> rfl
    | _ => exact hform.elim

/-! ## What every run preserves -/

namespace Ledger

variable {cat : Catalog} {l l' : Ledger}

/-- **A ledger that makes sense**, whatever was called. -/
structure Sound (cat : Catalog) (l : Ledger) : Prop where
  catalog : l.recorder.catalog = cat
  wf : l.recorder.cache.Wf
  trace : l.marked.map Prod.snd = l.recorder.trace
  genuine : ∀ i ∈ l.issued, i.Genuine cat
  floor : l.floor ≤ l.issued.length
  /-- Inside an action, a ticket has been handed out since the recorder was last cleared. -/
  inside : l.recorder.phase = .recording → l.floor < l.issued.length

theorem Sound.stepped (h : l.Sound cat) {hook : Hook Nat} (hstep : Stepped cat l hook l') : l'.Sound cat := by
  cases hstep with
  | idle _ c phase position journal used rs hcon hphase =>
    refine ⟨h.catalog, hcon.wf, h.trace, h.genuine, h.floor, fun hrec => h.inside ?_⟩
    rcases hphase with rfl | rfl
    · exact hrec
    · cases hrec
  | noted cl hphase =>
    refine ⟨h.catalog, h.wf, ?_, h.genuine, h.floor, h.inside⟩
    simp [h.trace]
  | begun a rec mid c journal hready hrun hrec =>
    refine ⟨h.catalog, hrec.terms.wf, ?_, ?_, ?_, fun _ => ?_⟩
    · simp [h.trace, Function.comp_def]
    · rw [List.forall_mem_append, List.forall_mem_singleton]
      exact ⟨h.genuine, Issue.genuine_of_recording _ hrec.form hrun⟩
    · exact Nat.le_trans h.floor (by simp)
    · exact Nat.lt_of_le_of_lt h.floor (by simp)
  | ended n thrown i journal hphase hunused =>
    refine ⟨h.catalog, h.wf, ?_, h.genuine, h.floor, fun hrec => by cases hrec⟩
    simp [h.trace, Function.comp_def]
  | cleared => exact ⟨h.catalog, Cache.wf_empty, rfl, h.genuine, Nat.le_refl _, fun hrec => by cases hrec⟩

theorem Sound.step (h : l.Sound cat) (hook : Hook Nat) : (l.step hook).Sound cat :=
  h.stepped (step_stepped h.catalog h.wf hook)

theorem sound_init (cat : Catalog) : Sound cat { recorder := { catalog := cat } } :=
  ⟨rfl, Cache.wf_empty, rfl, List.forall_mem_nil _, Nat.le_refl _, fun h => by cases h⟩

theorem Sound.foldl : ∀ (hooks : List (Hook Nat)) {l : Ledger}, l.Sound cat → (hooks.foldl Ledger.step l).Sound cat
  | [], _, h => h
  | hook :: hooks, _, h => foldl hooks (h.step hook)

theorem run_sound (cat : Catalog) (hooks : List (Hook Nat)) : (run cat hooks).Sound cat := (sound_init cat).foldl hooks

/-- Something holds of every call, at the ledger it is made on. -/
def all (P : Ledger → Hook Nat → Bool) (l : Ledger) : List (Hook Nat) → Bool
  | [] => true
  | hook :: hooks => P l hook && (l.step hook).all P hooks

theorem all_append (P : Ledger → Hook Nat → Bool) : ∀ (hooks more : List (Hook Nat)) (l : Ledger),
    l.all P (hooks ++ more) = (l.all P hooks && (hooks.foldl step l).all P more)
  | [], more, l => rfl
  | hook :: hooks, more, l => by
    rw [List.cons_append, all, all, all_append P hooks more, List.foldl_cons, Bool.and_assoc]

theorem all_iff (P : Ledger → Hook Nat → Bool) (hooks : List (Hook Nat)) (l : Ledger) :
    l.all P hooks = true ↔ ∀ pre hook post, hooks = pre ++ hook :: post → P (pre.foldl step l) hook = true := by
  constructor
  · rintro h pre hook post rfl
    rw [all_append, all, Bool.and_eq_true, Bool.and_eq_true] at h
    exact h.2.1
  · induction hooks generalizing l with
    | nil => exact fun _ => rfl
    | cons hook hooks ih =>
      intro h
      rw [all, Bool.and_eq_true]
      refine ⟨h [] hook hooks rfl, ih (l.step hook) fun pre hook' post hs => ?_⟩
      rw [← List.foldl_cons]
      exact h (hook :: pre) hook' post (by rw [hs]; rfl)

/-- **An induction over calls**: what every call preserves that meets a condition holds after all calls that do. -/
theorem all_induction {P : Ledger → Hook Nat → Bool} {Q : Ledger → Prop}
    (hstep : ∀ {l l' hook}, l.Sound cat → P l hook = true → Stepped cat l hook l' → Q l → Q l') :
    ∀ (hooks : List (Hook Nat)) {l : Ledger}, l.Sound cat → l.all P hooks = true → Q l → Q (hooks.foldl step l)
  | [], _, _, _, hq => hq
  | hook :: hooks, l, hl, hall, hq => by
    rw [all, Bool.and_eq_true] at hall
    exact all_induction hstep hooks (hl.step hook) hall.2
      (hstep hl hall.1 (step_stepped hl.catalog hl.wf hook) hq)

theorem run_induction {Q : Ledger → Prop} (hinit : Q { recorder := { catalog := cat } })
    (hstep : ∀ {l l' hook}, l.Sound cat → Stepped cat l hook l' → Q l → Q l') (hooks : List (Hook Nat)) :
    Q (run cat hooks) :=
  all_induction (P := fun _ _ => true) (fun hl _ => hstep hl) hooks (sound_init cat)
    ((all_iff _ _ _).2 fun _ _ _ _ => rfl) hinit

end Ledger

end Retrace
