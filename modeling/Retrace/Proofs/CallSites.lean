import Retrace.Proofs.Tickets
/-!
# Call sites — the trace of each call

A recorder notes only how long the trace was when a call returned, under the call's site, and a length noted under a
site that is there already replaces the earlier one.  That no entry is ever lost rests on positions: since the recorder
was last cleared, each ticket has a position above those of the tickets before it (`Ledger.Numbered`), whatever was
refused or left open in between.  The ticket that ends the running action is the last one, so its site comes after all
the others, and the length of the trace by then exceeds all theirs (`Ledger.Filed`).

The trace only grows until it is cleared, so what an entry yields stays what it was.
-/
namespace Retrace

/-! ## Noting a site after all the others -/

theorem CallSite.compare_eq_gt {s s' : CallSite} (h : s.position < s'.position) : compare s' s = .gt := by
  have hposition : compare s'.position s.position = .gt := Nat.compare_eq_gt.2 h
  change (compare s'.position s.position).then _ = .gt
  rw [hposition]
  rfl

theorem Sites.insert_last {site : CallSite} (length : Nat) : ∀ {sites : Sites},
    (∀ e ∈ sites, e.1.position < site.position) → Sites.insert site length sites = sites ++ [(site, length)]
  | [], _ => rfl
  | (s, n) :: rest, h => by
    rw [List.forall_mem_cons] at h
    rw [Sites.insert, CallSite.compare_eq_gt h.1, List.cons_append, ← insert_last length h.2]

namespace Ledger

variable {cat : Catalog} {l l' : Ledger} {hook : Hook Nat}

/-! ## Positions -/

/-- **Tickets handed out since the recorder was last cleared have rising positions**, below that of the next. -/
structure Numbered (l : Ledger) : Prop where
  rising : (l.issued.drop l.floor).Pairwise fun i j => i.ticket.position < j.ticket.position
  below : ∀ i ∈ l.issued.drop l.floor, i.ticket.position < l.recorder.position

theorem Numbered.stepped (hsound : l.Sound cat) (hstep : Stepped cat l hook l') (h : l.Numbered) : l'.Numbered := by
  cases hstep with
  | idle _ c phase position journal used rs hcon hphase hposition =>
    exact ⟨h.rising, fun i hi => Nat.lt_of_lt_of_le (h.below i hi) hposition⟩
  | noted cl hphase => exact ⟨h.rising, h.below⟩
  | begun a rec mid c journal hready =>
    have hdrop : ∀ i : Issue, (l.issued ++ [i]).drop l.floor = l.issued.drop l.floor ++ [i] := fun i =>
      List.drop_append_of_le_length hsound.floor
    constructor
    · rw [hdrop, List.pairwise_append]
      refine ⟨h.rising, List.pairwise_singleton _ _, fun i hi j hj => ?_⟩
      rw [List.mem_singleton.1 hj]
      exact h.below i hi
    · rw [hdrop, List.forall_mem_append, List.forall_mem_singleton]
      exact ⟨fun i hi => Nat.lt_succ_of_lt (h.below i hi), Nat.lt_succ_self _⟩
  | ended n thrown i journal hphase hunused => exact ⟨h.rising, h.below⟩
  | cleared => exact ⟨by simp, by simp⟩

theorem run_numbered (cat : Catalog) (hooks : List (Hook Nat)) : (run cat hooks).Numbered :=
  run_induction ⟨List.Pairwise.nil, List.forall_mem_nil _⟩ (fun hsound hstep hq => hq.stepped hsound hstep) hooks

theorem Numbered.position_lt (h : l.Numbered) {m n : Nat} {i j : Issue} (hfloor : l.floor ≤ m) (hlt : m < n)
    (hi : l.issued[m]? = some i) (hj : l.issued[n]? = some j) : i.ticket.position < j.ticket.position := by
  have hi' : (l.issued.drop l.floor)[m - l.floor]? = some i := by
    rw [List.getElem?_drop, Nat.add_sub_cancel' hfloor, hi]
  have hj' : (l.issued.drop l.floor)[n - l.floor]? = some j := by
    rw [List.getElem?_drop, Nat.add_sub_cancel' (by omega), hj]
  obtain ⟨hm, rfl⟩ := List.getElem?_eq_some_iff.1 hi'
  obtain ⟨hn, rfl⟩ := List.getElem?_eq_some_iff.1 hj'
  exact List.pairwise_iff_getElem.1 h.rising _ _ hm hn (by omega)

/-! ## The entries -/

def callTickets (l : Ledger) : List (Nat × Issue) := l.accepted.filter fun t => t.2.isCall

/-- An entry under the position of a ticket and the method that it holds a call of, as long as the trace was just after
the clause of this very call. -/
def Files (marked : List (Mark × Clause)) (t : Nat × Issue) (e : CallSite × Nat) : Prop :=
  ∃ p before, t.2.ticket.pending = some p ∧ e = (⟨t.2.ticket.position, p.method⟩, before.length + 1) ∧
    before ++ [(.ended t.1, p.clause)] <+: marked

theorem Files.mono {marked marked' : List (Mark × Clause)} {t : Nat × Issue} {e : CallSite × Nat}
    (h : Files marked t e) (hmarked : marked <+: marked') : Files marked' t e := by
  obtain ⟨p, before, hp, he, hbefore⟩ := h
  exact ⟨p, before, hp, he, hbefore.trans hmarked⟩

/-- **Each call that has returned is filed**, in the order of the calls. -/
structure Filed (l : Ledger) : Prop where
  calls : l.recorder.calls = l.recorder.sites.length
  entries : List.Forall₂ (Files l.marked) l.callTickets l.recorder.sites
  rising : l.recorder.sites.Pairwise fun e e' => e.1.position < e'.1.position ∧ e.2 < e'.2

theorem Filed.exists_ticket (h : l.Filed) {e : CallSite × Nat} (he : e ∈ l.recorder.sites) :
    ∃ t ∈ l.callTickets, Files l.marked t e := by
  obtain ⟨k, hk, rfl⟩ := List.getElem_of_mem he
  have hk' : k < l.callTickets.length := h.entries.length_eq ▸ hk
  exact ⟨_, List.getElem_mem hk', h.entries.get hk' hk⟩

theorem Filed.length_le (h : l.Filed) (hsound : l.Sound cat) {e : CallSite × Nat} (he : e ∈ l.recorder.sites) :
    0 < e.2 ∧ e.2 ≤ l.recorder.trace.length := by
  obtain ⟨t, -, p, before, -, rfl, hbefore⟩ := h.exists_ticket he
  rw [← hsound.trace, List.length_map]
  exact ⟨Nat.succ_pos _, by simpa using hbefore.length_le⟩

/-- **What a ledger comes to as long as no ticket outlives a clear.** -/
structure Kept (cat : Catalog) (l : Ledger) : Prop where
  sound : l.Sound cat
  numbered : l.Numbered
  accounted : l.Accounted
  orderly : l.Orderly
  since : ∀ t ∈ l.accepted, l.floor ≤ t.1
  filed : l.Filed

/-- **The site of the ticket that is out comes after all that were noted.** -/
theorem Kept.position_lt (h : l.Kept cat) {n : Nat} {i : Issue} (hfloor : l.floor ≤ n) (hunused : l.unused? n = some i)
    {e : CallSite × Nat} (he : e ∈ l.recorder.sites) : e.1.position < i.ticket.position := by
  obtain ⟨t, ht, p, before, -, rfl, -⟩ := h.filed.exists_ticket he
  have haccepted : t ∈ l.accepted := (List.mem_filter.1 ht).1
  obtain ⟨hissue, hused⟩ := h.accounted.accepted t haccepted
  obtain ⟨hn, hi⟩ := unused?_eq_some.1 hunused
  obtain ⟨hlast, -⟩ := h.orderly n i hfloor hunused
  -- a noted ticket is used up, so it is not the one that is out, which is the last
  have hlt : t.1 < n := by
    have hbound := (List.getElem?_eq_some_iff.1 hissue).1
    have hne : t.1 ≠ n := fun heq => hn (heq ▸ hused)
    omega
  exact h.numbered.position_lt (h.since t haccepted) hlt hissue hi

theorem Kept.noted_eq (h : l.Kept cat) {n : Nat} {i : Issue} (hfloor : l.floor ≤ n) (hunused : l.unused? n = some i)
    (length : Nat) : i.ticket.noted length l.recorder.sites =
      l.recorder.sites ++ (i.ticket.pending.map fun p => (⟨i.ticket.position, p.method⟩, length)).toList := by
  unfold Ticket.noted
  cases i.ticket.pending with
  | none => exact (List.append_nil _).symm
  | some p => exact Sites.insert_last length fun e he => h.position_lt hfloor hunused he

/-- The entry of the ticket that is handed back, if it holds a call. -/
theorem Kept.files_ended (h : l.Kept cat) {n : Nat} {i : Issue} (hunused : l.unused? n = some i) :
    List.Forall₂ (Files (l.marked ++ i.ticket.late.map (.ended n, ·))) ([(n, i)].filter fun t => t.2.isCall)
      (i.ticket.pending.map fun p => (⟨i.ticket.position, p.method⟩, l.recorder.trace.length + 1)).toList := by
  have hcall : i.isCall = i.ticket.pending.isSome :=
    (h.sound.genuine i (List.mem_of_getElem? (unused?_eq_some.1 hunused).2)).isCall
  cases hp : i.ticket.pending with
  | none => simp [hcall, hp]
  | some p =>
    have hlength : l.recorder.trace.length = l.marked.length := by rw [← h.sound.trace, List.length_map]
    have hfiles : Files (l.marked ++ i.ticket.late.map (.ended n, ·)) (n, i)
        (⟨i.ticket.position, p.method⟩, l.recorder.trace.length + 1) :=
      ⟨p, l.marked, hp, by rw [hlength], by simp [Ticket.late, hp]⟩
    simpa [hcall, hp] using hfiles

theorem Kept.filed_stepped (h : l.Kept cat) (htime : l.onTime hook = true) (hstep : Stepped cat l hook l') :
    l'.Filed := by
  have hmore : ∀ more, List.Forall₂ (Files (l.marked ++ more)) l.callTickets l.recorder.sites := fun more =>
    h.filed.entries.imp fun _ _ hfiles => hfiles.mono (List.prefix_append _ _)
  cases hstep with
  | idle => exact ⟨h.filed.calls, h.filed.entries, h.filed.rising⟩
  | noted cl hphase => exact ⟨h.filed.calls, hmore _, h.filed.rising⟩
  | begun a rec mid c journal hready => exact ⟨h.filed.calls, hmore _, h.filed.rising⟩
  | ended n thrown i journal hphase hunused =>
    have hfloor := floor_le_of_onTime htime hphase hunused
    have hnoted := h.noted_eq hfloor hunused (l.recorder.trace.length + 1)
    refine ⟨?_, ?_, ?_⟩
    · simp only [hnoted, h.filed.calls, Ticket.late, List.length_append]
      cases i.ticket.pending <;> rfl
    · simp only [hnoted, callTickets, List.filter_append]
      exact List.rel_append (hmore _) (h.files_ended hunused)
    · simp only [hnoted]
      rw [List.pairwise_append]
      refine ⟨h.filed.rising, ?_, fun e he e' he' => ?_⟩
      · cases i.ticket.pending <;> simp
      · obtain ⟨p, hp, rfl⟩ := Option.map_eq_some_iff.1 (Option.mem_toList.1 he')
        exact ⟨h.position_lt hfloor hunused he, Nat.lt_succ_of_le (h.filed.length_le h.sound he).2⟩
  | cleared => exact ⟨rfl, .nil, .nil⟩

theorem run_kept {hooks : List (Hook Nat)} (h : Timely cat hooks) : (run cat hooks).Kept cat := by
  have hkept : ∀ {hooks}, Timely cat hooks → (run cat hooks).Filed → (run cat hooks).Kept cat :=
    fun {hooks} h hfiled => ⟨run_sound cat hooks, run_numbered cat hooks, run_accounted cat hooks, run_orderly h,
      accepted_since_clear h, hfiled⟩
  induction hooks using List.reverseRecOn with
  | nil => exact hkept h ⟨rfl, .nil, .nil⟩
  | append_singleton hooks hook ih =>
    obtain ⟨hbefore, htime⟩ := h.append
    rw [all, Bool.and_eq_true] at htime
    have hk := ih hbefore
    refine hkept h ?_
    rw [run_snoc]
    exact hk.filed_stepped htime.1 (step_stepped hk.sound.catalog hk.sound.wf hook)

/-! ## What entries yield later -/

/-- **Until it is cleared, a recorder only adds to its trace and to its sites.** -/
theorem Kept.grows (h : l.Kept cat) (htime : l.onTime hook = true) (hstep : Stepped cat l hook l')
    (hclear : hook ≠ .clear) :
    l.recorder.sites <+: l'.recorder.sites ∧ l.recorder.trace <+: l'.recorder.trace := by
  cases hstep with
  | idle => exact ⟨List.prefix_refl _, List.prefix_refl _⟩
  | noted => exact ⟨List.prefix_refl _, List.prefix_append _ _⟩
  | begun => exact ⟨List.prefix_refl _, List.prefix_append _ _⟩
  | ended n thrown i journal hphase hunused =>
    have hnoted := h.noted_eq (floor_le_of_onTime htime hphase hunused) hunused (l.recorder.trace.length + 1)
    simp only [hnoted]
    exact ⟨List.prefix_append _ _, List.prefix_append _ _⟩
  | cleared => exact absurd rfl hclear

theorem run_grows {hooks : List (Hook Nat)} (more : List (Hook Nat)) (h : Timely cat (hooks ++ more))
    (hclear : .clear ∉ more) :
    (run cat hooks).recorder.sites <+: (run cat (hooks ++ more)).recorder.sites ∧
      (run cat hooks).recorder.trace <+: (run cat (hooks ++ more)).recorder.trace := by
  induction more using List.reverseRecOn with
  | nil => simp
  | append_singleton more hook ih =>
    rw [← List.append_assoc] at h ⊢
    obtain ⟨hbefore, htime⟩ := h.append
    rw [all, Bool.and_eq_true] at htime
    rw [List.mem_append, List.mem_singleton, not_or] at hclear
    obtain ⟨hsites, htrace⟩ := ih hbefore hclear.1
    have hk := run_kept hbefore
    obtain ⟨hsites', htrace'⟩ :=
      hk.grows htime.1 (step_stepped hk.sound.catalog hk.sound.wf hook) (fun heq => hclear.2 heq.symm)
    rw [run_snoc]
    exact ⟨hsites.trans hsites', htrace.trans htrace'⟩

theorem Kept.callTraces_prefix (h : l.Kept cat) (hsites : l.recorder.sites <+: l'.recorder.sites)
    (htrace : l.recorder.trace <+: l'.recorder.trace) : l.recorder.callTraces <+: l'.recorder.callTraces := by
  have htake : ∀ e ∈ l.recorder.sites, l.recorder.trace.take e.2 = l'.recorder.trace.take e.2 := by
    intro e he
    obtain ⟨more, hmore⟩ := htrace
    rw [← hmore, List.take_append_of_le_length (h.filed.length_le h.sound he).2]
  have hsame : l.recorder.callTraces = l.recorder.sites.map fun e => (e.1, l'.recorder.trace.take e.2) :=
    List.map_congr_left fun e he => congrArg (e.1, ·) (htake e he)
  rw [hsame]
  exact hsites.map _

/-! ## The trace of each call -/

/-- **What the accepted ticket of a call yields**: under the position of the ticket and the method that the action names,
a part of the trace from its start to the clause that came in as this very action ended. -/
structure Entry (cat : Catalog) (l : Ledger) (t : Nat × Issue) (e : CallSite × Trace) : Prop where
  ticket : l.issued[t.1]? = some t.2
  since : l.floor ≤ t.1
  position : e.1.position = t.2.ticket.position
  method : t.2.action.callee?.map cat.resolveMethod = some (.ok e.1.method)
  start : e.2 <+: l.recorder.trace
  nonempty : e.2 ≠ []
  ending : ∃ p, t.2.ticket.pending = some p ∧ e.2.getLast? = some p.clause ∧
    l.marked[e.2.length - 1]? = some (.ended t.1, p.clause)

theorem Kept.entry (h : l.Kept cat) {t : Nat × Issue} {e : CallSite × Nat} (ht : t ∈ l.callTickets)
    (hfiles : Files l.marked t e) : l.Entry cat t (e.1, l.recorder.trace.take e.2) := by
  have haccepted : t ∈ l.accepted := (List.mem_filter.1 ht).1
  obtain ⟨hissue, -⟩ := h.accounted.accepted t haccepted
  have hgenuine : t.2.Genuine cat := h.sound.genuine t.2 (List.mem_of_getElem? hissue)
  obtain ⟨p, before, hp, rfl, after, hmarked⟩ := hfiles
  have htake : l.recorder.trace.take (before.length + 1) = before.map Prod.snd ++ [p.clause] := by
    rw [← h.sound.trace, ← hmarked, ← List.map_take, List.take_left' (by simp), List.map_append]
    rfl
  refine ⟨hissue, h.since t haccepted, rfl, ?_, List.take_prefix _ _, ?_, p, hp, ?_, ?_⟩
  · rw [← hgenuine, hp]
    rfl
  · simp [htake]
  · simp [htake]
  · simp [htake, ← hmarked]

/-- **A trace for each call that has returned since the recorder was last cleared.**  None is cut short: the lengths that
were noted are those of the traces. -/
structure CallTraces (cat : Catalog) (l : Ledger) : Prop where
  calls : l.recorder.calls = l.recorder.callTraces.length
  tickets : l.recorder.calls = l.callTickets.length
  distinct : (l.callTickets.map Prod.fst).Nodup
  entries : List.Forall₂ (l.Entry cat) l.callTickets l.recorder.callTraces
  rising : l.recorder.callTraces.Pairwise fun e e' => e.1.position < e'.1.position ∧ e.2.length < e'.2.length
  inside : ∀ e ∈ l.recorder.sites, 0 < e.2 ∧ e.2 ≤ l.recorder.trace.length
  lengths : l.recorder.sites = l.recorder.callTraces.map fun e => (e.1, e.2.length)

theorem Kept.callTraces (h : l.Kept cat) : l.CallTraces cat := by
  have hinside : ∀ e ∈ l.recorder.sites, 0 < e.2 ∧ e.2 ≤ l.recorder.trace.length := fun e he =>
    h.filed.length_le h.sound he
  -- no noted length reaches past the trace, so that nothing is missing from what is taken of it
  have htake : ∀ e ∈ l.recorder.sites, (l.recorder.trace.take e.2).length = e.2 := fun e he =>
    List.length_take_of_le (hinside e he).2
  have hlength := h.filed.entries.length_eq
  refine ⟨?_, ?_, ?_, ?_, ?_, hinside, ?_⟩
  · rw [h.filed.calls, Recorder.callTraces, List.length_map]
  · rw [h.filed.calls, hlength]
  · exact h.accounted.distinct.sublist (List.Sublist.map _ List.filter_sublist)
  · rw [Recorder.callTraces, List.forall₂_map_right_iff, List.forall₂_iff_get]
    exact ⟨hlength, fun k hk hk' => h.entry (List.get_mem _ _) (h.filed.entries.get hk hk')⟩
  · rw [Recorder.callTraces, List.pairwise_map]
    refine h.filed.rising.imp_of_mem fun {e e'} he he' hlt => ?_
    rw [htake e he, htake e' he']
    exact hlt
  · rw [Recorder.callTraces, List.map_map]
    refine ((List.map_congr_left fun e he => ?_).trans (List.map_id _)).symm
    exact congrArg (e.1, ·) (htake e he)

/-- **Each call that returns keeps its trace.**  Over any calls in which no ticket outlives a clear, the calls that have
returned since the last clear yield one trace each, in the order of their positions: a prefix of the whole trace that ends
in the clause of that call.  These traces stay as they are until the recorder is cleared. -/
theorem call_traces_kept (cat : Catalog) (hooks : List (Hook Nat)) (h : Timely cat hooks) :
    (run cat hooks).CallTraces cat ∧
      ∀ more, Timely cat (hooks ++ more) → .clear ∉ more →
        (run cat hooks).recorder.callTraces <+: (run cat (hooks ++ more)).recorder.callTraces := by
  have hkept := run_kept h
  refine ⟨hkept.callTraces, fun more hmore hclear => ?_⟩
  obtain ⟨hsites, htrace⟩ := run_grows more hmore hclear
  exact hkept.callTraces_prefix hsites htrace

/-- What instrumented code notes inside the second call. -/
def topBranch : Clause := ⟨.branch "top", .path (.var .bool "c!0") true⟩

/-- A call is left open over a clear.  Of two calls after it, the second raises, once instrumented code has added a
clause; a literal comes in between. -/
def siteHooks : List (Hook Nat) :=
  [.before (nextCall 0), .clear, .before (nextCall 0), .after 1 none,
   .before (.literal (.var ⟨1⟩ .int) (.scalar (.int 3))), .after 2 none, .before (nextCall 2),
   .probe (.record topBranch), .after 3 (some ⟨"Overflow", "next"⟩)]

theorem call_traces_kept_next :
    Timely counter (siteHooks ++ [.finish]) ∧ (run counter siteHooks).CallTraces counter ∧
      (run counter siteHooks).recorder.sites = [(⟨0, nextMethod⟩, 1), (⟨2, nextMethod⟩, 3)] ∧
      (run counter siteHooks).recorder.callTraces =
        [(⟨0, nextMethod⟩, [(nextPending "v0" "v0!0").clause]),
         (⟨2, nextMethod⟩, [(nextPending "v0" "v0!0").clause, topBranch, (nextPending "v2" "v2!1").clause])] ∧
      (run counter siteHooks).recorder.callTraces <+: (run counter (siteHooks ++ [.finish])).recorder.callTraces := by
  have htimely : Timely counter (siteHooks ++ [.finish]) := by decide
  obtain ⟨htraces, hkept⟩ := call_traces_kept counter siteHooks (by decide)
  exact ⟨htimely, htraces, by decide, by decide, hkept [.finish] htimely (by decide)⟩

end Ledger
end Retrace
