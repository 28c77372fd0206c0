import Retrace.Proofs.Tickets
/-!
# Fail-stop — what a refusal leaves behind

A recorder that cannot record an action stops: it is disabled until it is cleared, and what it had recorded by then
stays as it is (`Recorder.Refused`).  The action may have bound inline constants among its operands before it failed,
and that is all.  A call that comes at the wrong time is refused too, and changes nothing.

Here calls may hand in any ticket, also one that another recorder has handed out (`Recorder.serve`).
-/
namespace Retrace

open Ledger (counter nextMethod nextCall nextPending)

/-- A reference that no action defines: null, or an inline constant. -/
def Reference.isInline : Reference → Bool
  | .null _ _ | .constant _ _ _ => true
  | .var _ _ | .staticField _ _ _ | .instanceField _ _ _ _ | .array _ _ | .element _ _ _ _ => false

theorem Reference.isInline_of_inlineConstant {cat : Catalog} {r : Reference} {k : Constant}
    (h : r.inlineConstant cat = .ok k) : r.isInline = true := by
  cases r with
  | null | constant => rfl
  | _ => cases h

namespace Recorder

variable {cat : Catalog} {r r' : Recorder}

/-! ## Any calls -/

def serve (r : Recorder) : Hook Ticket → Recorder
  | .before a => endState (before a r)
  | .after ticket thrown => endState (after ticket thrown r)
  | .probe p => (r.probe p).2
  | .output position text => r.output position text
  | .finish => r.finish
  | .clear => r.clear

/-- **A recorder at any point of its life**, whatever was called on it. -/
def Reachable (cat : Catalog) (r : Recorder) : Prop :=
  ∃ hooks : List (Hook Ticket), r = hooks.foldl serve { catalog := cat }

structure Tidy (cat : Catalog) (r : Recorder) : Prop where
  catalog : r.catalog = cat
  wf : r.cache.Wf

theorem Tidy.before (h : r.Tidy cat) (a : Action) : (endState (before a r)).Tidy cat := by
  by_cases hready : r.Ready
  · rw [before_ready hready]
    cases hrun : a.recording r.catalog r.cache with
    | error e c => exact ⟨h.catalog, (Action.recording_error h.wf hrun).wf⟩
    | ok rec c =>
      obtain ⟨mid, hrec⟩ := Action.recording_ok h.wf hrun
      exact ⟨h.catalog, hrec.terms.wf⟩
  · obtain ⟨e, he⟩ := before_busy hready a
    rw [he]
    exact h

theorem Tidy.after (h : r.Tidy cat) (ticket : Ticket) (thrown : Option Thrown) :
    (endState (after ticket thrown r)).Tidy cat := by
  by_cases hphase : r.phase = .recording
  · obtain ⟨journal, hafter⟩ := after_recording hphase ticket thrown
    rw [hafter]
    exact ⟨h.catalog, h.wf⟩
  · obtain ⟨e, he⟩ := after_idle hphase ticket thrown
    rw [he]
    exact h

theorem Tidy.probe (h : r.Tidy cat) (p : Probe) : (r.probe p).2.Tidy cat := by
  by_cases hphase : r.phase = .recording
  · obtain ⟨c, hprobe, hcon⟩ := probe_recording h.wf hphase p
    rw [hprobe]
    exact ⟨h.catalog, hcon.wf⟩
  · rw [probe_idle hphase]
    exact h

theorem Tidy.serve (h : r.Tidy cat) (hook : Hook Ticket) : (r.serve hook).Tidy cat := by
  cases hook with
  | before a => exact h.before a
  | after ticket thrown => exact h.after ticket thrown
  | probe p => exact h.probe p
  | output position text => exact h
  | finish =>
    obtain ⟨journal, hfinish⟩ := r.finish_eq
    rw [Recorder.serve, hfinish]
    exact ⟨h.catalog, h.wf⟩
  | clear => exact ⟨h.catalog, Cache.wf_empty⟩

theorem Tidy.foldl : ∀ (hooks : List (Hook Ticket)) {r : Recorder}, r.Tidy cat →
    (hooks.foldl Recorder.serve r).Tidy cat
  | [], _, h => h
  | hook :: hooks, _, h => foldl hooks (h.serve hook)

theorem Reachable.tidy (h : Reachable cat r) : r.Tidy cat := by
  obtain ⟨hooks, rfl⟩ := h
  exact Tidy.foldl hooks ⟨rfl, Cache.wf_empty⟩

/-! ## A refused action -/

/-- **What a refused action leaves behind.**  The recorder is disabled; the recorded trace, the noted calls and the names
given out are those of before; and nothing is bound anew but inline constants that the action has as operands. -/
structure Refused (cat : Catalog) (a : Action) (r r' : Recorder) : Prop where
  phase : r'.phase = .disabled
  trace : r'.trace = r.trace
  sites : r'.sites = r.sites
  calls : r'.calls = r.calls
  names : r'.cache.names = r.cache.names
  lookup : ∀ {id x}, r.cache.lookup id = some x → r'.cache.lookup id = some x
  value : ∀ {x v}, r.cache.valueAt? x = some v → r'.cache.valueAt? x = some v
  term : ∀ {x t}, r.cache.termAt? x = some t → r'.cache.termAt? x = some t
  bound : ∀ {id x}, r.cache.lookup id = none → r'.cache.lookup id = some x →
    ∃ op ∈ a.operands, ∃ k, op.id = id ∧ op.isInline ∧ op.inlineConstant cat = .ok k ∧
      r'.cache.valueAt? x = some (.constant k)
  result : r.cache.lookup a.result.id = none → (∀ op ∈ a.operands, op.id ≠ a.result.id) →
    r'.cache.lookup a.result.id = none

theorem Tidy.refused (h : r.Tidy cat) (hready : r.Ready) {a : Action} {e : Fault}
    (herr : Recorder.before a r = .error e r') : Refused cat a r r' := by
  obtain ⟨rfl, hwf⟩ := h
  rw [before_ready hready] at herr
  cases hrun : a.recording r.catalog r.cache with
  | ok rec c =>
    rw [hrun] at herr
    cases herr
  | error e' c =>
    rw [hrun] at herr
    cases herr
    have hcon := Action.recording_error hwf hrun
    refine ⟨rfl, rfl, rfl, rfl, hcon.names, hcon.lookup, hcon.valueAt?, hcon.termAt?, fun hnone hx => ?_,
      hcon.lookup_none⟩
    obtain ⟨op, hop, k, hid, hk, hv⟩ := hcon.lookup_new hnone hx
    exact ⟨op, hop, k, hid, Reference.isInline_of_inlineConstant hk, hk, hv⟩

/-! ## A disabled recorder -/

theorem before_refused (h : r.phase = .recording ∨ r.phase = .disabled) (a : Action) : ∃ e, before a r = .error e r :=
  before_busy (fun hready => by rcases h with h | h <;> rcases hready with h' | h' <;> rw [h] at h' <;> cases h') a

/-- **A call on a disabled recorder** changes nothing but the journal. -/
theorem serve_disabled (h : r.phase = .disabled) {hook : Hook Ticket} (hclear : hook ≠ .clear) :
    ∃ journal, r.serve hook = { r with journal } := by
  have hidle : r.phase ≠ .recording := by rw [h]; decide
  cases hook with
  | before a =>
    obtain ⟨e, he⟩ := before_refused (.inr h) a
    exact ⟨r.journal, by rw [serve, he]; rfl⟩
  | after ticket thrown =>
    obtain ⟨e, he⟩ := after_idle hidle ticket thrown
    exact ⟨r.journal, by rw [serve, he]; rfl⟩
  | probe p => exact ⟨r.journal, probe_idle hidle p⟩
  | output position text => exact ⟨r.journal, rfl⟩
  | finish =>
    obtain ⟨journal, hfinish⟩ := r.finish_eq
    exact ⟨journal, by rw [serve, hfinish, ← h]⟩
  | clear => exact absurd rfl hclear

theorem serve_all_disabled (h : r.phase = .disabled) (hooks : List (Hook Ticket)) (hclear : .clear ∉ hooks) :
    ∃ journal, hooks.foldl serve r = { r with journal } := by
  induction hooks generalizing r with
  | nil => exact ⟨r.journal, rfl⟩
  | cons hook hooks ih =>
    rw [List.mem_cons, not_or] at hclear
    obtain ⟨journal, hserve⟩ := serve_disabled h (fun heq => hclear.1 heq.symm)
    rw [List.foldl_cons, hserve]
    exact ih h hclear.2

/-- **Failures are fail-stop.**  An action that is refused between two actions disables the recorder and leaves what was
recorded as it was; a call at the wrong time is refused and changes nothing at all; and a disabled recorder refuses every
action and every ticket, and stays as it is but for its journal, until it is cleared. -/
theorem fail_stop (h : Reachable cat r) (a : Action) (ticket : Ticket) (thrown : Option Thrown) :
    (r.Ready → ∀ e r', before a r = .error e r' → Refused cat a r r') ∧
    (r.phase = .recording ∨ r.phase = .disabled → ∃ e, before a r = .error e r) ∧
    (r.phase ≠ .recording → ∃ e, after ticket thrown r = .error e r) ∧
    (r.phase = .disabled → ∀ hooks : List (Hook Ticket), .clear ∉ hooks →
      (∃ journal, hooks.foldl serve r = { r with journal }) ∧
      (∃ e, before a (hooks.foldl serve r) = .error e (hooks.foldl serve r)) ∧
      ∃ e, after ticket thrown (hooks.foldl serve r) = .error e (hooks.foldl serve r)) := by
  refine ⟨fun hready e r' herr => h.tidy.refused hready herr, fun hphase => before_refused hphase a,
    fun hphase => after_idle hphase ticket thrown, fun hdisabled hooks hclear => ?_⟩
  obtain ⟨journal, hserve⟩ := serve_all_disabled hdisabled hooks hclear
  have hphase : (hooks.foldl serve r).phase = .disabled := by rw [hserve]; exact hdisabled
  exact ⟨⟨journal, hserve⟩, before_refused (.inr hphase) a, after_idle (by rw [hphase]; decide) ticket thrown⟩

/-- A call with an inline argument and one that nothing has defined. -/
def strayCall : Action :=
  .call (.var ⟨1⟩ .int) none nextMethod.ref [.constant ⟨2⟩ .int (.scalar (.int 3)), .var ⟨9⟩ .int]

/-- The ticket that a new recorder hands out for a call of `next`. -/
def nextTicket : Ticket := ⟨0, some (nextPending "v0" "v0!0")⟩

/-- One call has returned, and the action that failed then has disabled the recorder. -/
def strayHooks : List (Hook Ticket) := [.before (nextCall 0), .after nextTicket none, .before strayCall]

def beforeStray : Recorder := (strayHooks.take 2).foldl serve { catalog := counter }

def afterStray : Recorder := strayHooks.foldl serve { catalog := counter }

/-- The call that returned stays in the trace, with its site. -/
theorem fail_stop_stray :
    (∃ r, before (nextCall 0) { catalog := counter } = .ok nextTicket r) ∧
      beforeStray.Ready ∧ Refused counter strayCall beforeStray afterStray ∧
      afterStray.trace = [(nextPending "v0" "v0!0").clause] ∧ afterStray.sites = [(⟨0, nextMethod⟩, 1)] ∧
      afterStray.cache.lookup ⟨2⟩ = some ⟨1⟩ ∧
      (∃ journal, [.finish, .before (nextCall 1)].foldl serve afterStray = { afterStray with journal }) ∧
      (∃ e, before (nextCall 1) afterStray = .error e afterStray) ∧
      ∃ e, after nextTicket none afterStray = .error e afterStray := by
  have hready : beforeStray.Ready := .inr (by decide)
  have hstopped : afterStray.phase = .disabled := by decide
  obtain ⟨hrefused, -⟩ := fail_stop ⟨strayHooks.take 2, rfl⟩ strayCall nextTicket none
  obtain ⟨-, hbefore, hafter, hkept⟩ := fail_stop ⟨strayHooks, rfl⟩ (nextCall 1) nextTicket none
  exact ⟨⟨_, rfl⟩, hready, hrefused hready _ afterStray rfl, by decide, by decide, by decide,
    (hkept hstopped _ (by decide)).1, hbefore (.inr hstopped), hafter (by decide)⟩

end Recorder
end Retrace
