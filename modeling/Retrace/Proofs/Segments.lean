import Retrace.Proofs.Runs
/-!
# Segments — a trace follows its actions

The trace of a run is one segment after another, one for each accepted turn, in the order of the turns
(`Recorder.turns_segments`).  A segment is what the body of the turn added, with the clause of the action in front or, for
a call, behind.  The instruction of that clause is the one the action comes down to, with every operand by the handle
its reference is bound to.

What a handle stands for is settled by the actions alone, as long as no two references share an id.  `Bindings` follows
the actions without any table: a reference stands for what an earlier action gave to its id, or else for its own inline
constant.  The table of the run says the same (`Tracks`).
-/
namespace Retrace

open Cache (Consults Extends)

/-- **The clauses of one accepted turn**, over what references are bound to. -/
def Turn.Segment (cat : Catalog) (bound : RefId → Option Handle) (t : Turn) (segment : List Clause) : Prop :=
  match t.action with
  | .fieldRead _ _ _ | .assign _ _ | .compute _ _ _ _ =>
    ∃ cl, segment = cl :: t.recorded ∧ t.action.instruction? cat bound = some cl.instruction
  | .literal _ _ => segment = t.recorded
  | .call _ _ _ _ =>
    ∃ cl, segment = t.recorded ++ [cl] ∧ t.action.instruction? cat bound = some cl.instruction
  | .construct _ _ _ | .newArray _ _ | .mock _ _ => False

theorem Turn.Segment.mono {cat : Catalog} {bound bound' : RefId → Option Handle}
    (hb : ∀ id x, bound id = some x → bound' id = some x) :
    ∀ {t : Turn} {segment : List Clause}, t.Segment cat bound segment → t.Segment cat bound' segment
  | ⟨.fieldRead _ _ _, _, _⟩, _, ⟨cl, hseg, hinst⟩ | ⟨.assign _ _, _, _⟩, _, ⟨cl, hseg, hinst⟩
  | ⟨.compute _ _ _ _, _, _⟩, _, ⟨cl, hseg, hinst⟩ | ⟨.call _ _ _ _, _, _⟩, _, ⟨cl, hseg, hinst⟩ =>
    ⟨cl, hseg, Action.instruction?_mono hb hinst⟩
  | ⟨.literal _ _, _, _⟩, _, h => h

/-- **What an accepted turn adds to the trace is its segment.** -/
theorem Recorded.segment {cat : Catalog} {t : Turn} {c mid c' : Cache} {rec : Recording}
    (h : Recorded cat t.action c mid rec c') : t.Segment cat mid.lookup (rec.early ++ t.recorded ++ rec.late) := by
  obtain ⟨a, body, thrown⟩ := t
  have hform := h.form
  have hinst := h.instruction
  cases a <;> cases rec <;> first | exact hform.elim | skip
  case fieldRead.clause cl | assign.clause cl | compute.clause cl =>
    exact ⟨cl, by simp [Recording.early, Recording.late, Recording.pending?], hinst.symm⟩
  case literal.nothing => exact List.append_nil _
  case call.call p => exact ⟨p.clause, rfl, hinst.symm⟩

/-! ## What references stand for -/

/-- The values that actions have given to their results. -/
abbrev Bindings := RefId → Option Value

namespace Bindings

/-- What a reference stands for: the value given to its id, or else its own inline constant. -/
def standsFor (cat : Catalog) (env : Bindings) (r : Reference) : Option Value :=
  (env r.id).or ((r.inlineConstant cat).toOption.map .constant)

def after (cat : Catalog) (env : Bindings) (a : Action) : Bindings :=
  match a.product? cat (env.standsFor cat) with
  | none => env
  | some (id, v) => fun i => if i = id then some v else env i

def ofActions (cat : Catalog) (actions : List Action) : Bindings := actions.foldl (after cat) fun _ => none

end Bindings

theorem Action.product?_congr {cat : Catalog} {f g : Reference → Option Value} {a : Action}
    (h : ∀ r ∈ a.operands, f r = g r) : a.product? cat f = a.product? cat g := by
  cases a with
  | compute result lhs op rhs => simp only [product?, h lhs List.mem_cons_self]
  | _ => rfl

def Distinct (rs : List Reference) : Prop := ∀ r ∈ rs, ∀ r' ∈ rs, r.id = r'.id → r = r'

instance (rs : List Reference) : Decidable (Distinct rs) :=
  inferInstanceAs (Decidable (∀ r ∈ rs, ∀ r' ∈ rs, r.id = r'.id → r = r'))

/-- **A table that says what the actions settle**, when no other references than `rs` were looked up: it has all that
actions produced, and else only inline constants. -/
structure Tracks (cat : Catalog) (rs : List Reference) (env : Bindings) (c : Cache) : Prop where
  wf : c.Wf
  produced : ∀ {id v}, env id = some v → ∃ x, c.lookup id = some x ∧ c.valueAt? x = some v
  inline : ∀ {id x}, c.lookup id = some x → env id = none →
    ∃ r ∈ rs, ∃ k, r.id = id ∧ r.inlineConstant cat = .ok k ∧ c.valueAt? x = some (.constant k)

namespace Tracks

variable {cat : Catalog} {rs qs : List Reference} {env : Bindings} {c c' : Cache}

theorem empty : Tracks cat rs (fun _ => none) {} := ⟨Cache.wf_empty, fun h => (nomatch h), fun h => (nomatch h)⟩

theorem inline_later (h : Tracks cat rs env c) (hext : Extends c c') {id : RefId} {x : Handle}
    (hx : c.lookup id = some x) (henv : env id = none) :
    ∃ r ∈ rs, ∃ k, r.id = id ∧ r.inlineConstant cat = .ok k ∧ c'.valueAt? x = some (.constant k) := by
  obtain ⟨r, hr, k, hid, hk, hval⟩ := h.inline hx henv
  exact ⟨r, hr, k, hid, hk, hext.valueAt? hval⟩

theorem consults (h : Tracks cat rs env c) (hcon : Consults cat qs c c') (hqs : qs ⊆ rs) : Tracks cat rs env c' := by
  refine ⟨hcon.wf, fun {id v} hv => ?_, fun {id x} hx henv => ?_⟩
  · obtain ⟨x, hx, hval⟩ := h.produced hv
    exact ⟨x, hcon.lookup hx, hcon.valueAt? hval⟩
  · cases hold : c.lookup id with
    | none =>
      obtain ⟨r, hr, hk⟩ := hcon.lookup_new hold hx
      exact ⟨r, hqs hr, hk⟩
    | some y =>
      obtain rfl := hcon.lookup_eq hold hx
      exact h.inline_later hcon.toExtends hold henv

/-- **A bound reference is bound to what it stands for**, if no other reference has its id. -/
theorem read (h : Tracks cat rs env c) (hrs : Distinct rs) {r : Reference} (hr : r ∈ rs) {x : Handle}
    (hx : c.lookup r.id = some x) : ∃ v, c.read r = some v ∧ env.standsFor cat r = some v := by
  obtain ⟨v, hv⟩ := h.wf.value_of_lookup hx
  have hread : c.read r = some v := by rw [Cache.read, hx, Option.bind_some, hv]
  refine ⟨v, hread, ?_⟩
  unfold Bindings.standsFor
  cases henv : env r.id with
  | some w =>
    obtain ⟨y, hy, hval⟩ := h.produced henv
    rw [Cache.read, hy, Option.bind_some, hval] at hread
    rw [hread]
    rfl
  | none =>
    obtain ⟨r', hr', k, hid, hk, hval⟩ := h.inline hx henv
    obtain rfl := hrs r' hr' r hr hid
    obtain rfl := Option.some.inj (hval.symm.trans hv)
    rw [hk]
    rfl

theorem withResult (h : Tracks cat rs env c) {id : RefId} {v : Value} (hnone : c.lookup id = none) :
    Tracks cat rs (fun i => if i = id then some v else env i) (c.withResult id v) := by
  have hext : Extends c (c.withResult id v) := h.wf.extends_withResult v hnone
  refine ⟨h.wf.withResult v hnone, fun {i w} hw => ?_, fun {i x} hx henv => ?_⟩
  · by_cases hi : i = id
    · rw [if_pos hi] at hw
      cases hw
      rw [hi]
      exact ⟨_, h.wf.lookup_withResult v hnone⟩
    · rw [if_neg hi] at hw
      obtain ⟨x, hx, hval⟩ := h.produced hw
      exact ⟨x, hext.lookup hx, hext.valueAt? hval⟩
  · by_cases hi : i = id
    · rw [if_pos hi] at henv
      cases henv
    · rw [if_neg hi] at henv
      cases hold : c.lookup i with
      | none => exact absurd (Cache.eq_of_lookup_withResult hold hx) hi
      | some y =>
        obtain rfl := hext.lookup_eq hold hx
        exact h.inline_later hext hold henv

/-- **What recording an action keeps**: its operands are bound to what they stand for, and its product is taken in. -/
theorem recorded (h : Tracks cat rs env c) (hrs : Distinct rs) {a : Action} {mid : Cache} {rec : Recording}
    (hrec : Recorded cat a c mid rec c') (hops : a.operands ⊆ rs) :
    (∀ r ∈ a.operands, ∃ v, mid.read r = some v ∧ env.standsFor cat r = some v) ∧ Tracks cat rs (env.after cat a) c' := by
  have hmid : Tracks cat rs env mid := h.consults hrec.operands hops
  have hread : ∀ r ∈ a.operands, ∃ v, mid.read r = some v ∧ env.standsFor cat r = some v := fun r hr => by
    obtain ⟨x, hx⟩ := hrec.bound r hr
    exact hmid.read hrs (hops hr) hx
  refine ⟨hread, ?_⟩
  have hprod : a.product? cat mid.read = a.product? cat (env.standsFor cat) := by
    refine Action.product?_congr fun r hr => ?_
    obtain ⟨v, h₁, h₂⟩ := hread r hr
    rw [h₁, h₂]
  refine consults ?_ hrec.terms (List.nil_subset rs)
  unfold Bindings.after
  have hnew := hrec.unbound
  rw [hprod] at hnew ⊢
  cases hp : a.product? cat (env.standsFor cat) with
  | none => exact hmid
  | some p => exact hmid.withResult (hnew p.1 p.2 hp)

end Tracks

/-! ## Runs of turns -/

namespace Recorder

/-- The turns that are accepted, of those that are taken one after the other. -/
def accepted (r : Recorder) : List Turn → List Turn
  | [] => []
  | t :: ts =>
    match turn t r with
    | .ok _ r' => t :: r'.accepted ts
    | .error _ r' => r'.accepted ts

theorem mem_of_mem_accepted {t : Turn} : ∀ {ts : List Turn} {r : Recorder}, t ∈ r.accepted ts → t ∈ ts
  | [], _, h => h
  | t' :: ts, r, h => by
    rw [accepted] at h
    split at h
    · rcases List.mem_cons.1 h with rfl | h
      · exact List.mem_cons_self
      · exact List.mem_cons_of_mem _ (mem_of_mem_accepted h)
    · exact List.mem_cons_of_mem _ (mem_of_mem_accepted h)

theorem operand_consulted {t : Turn} {ts : List Turn} {r : Recorder} (ht : t ∈ r.accepted ts) {q : Reference}
    (hq : q ∈ t.action.operands) : q ∈ ts.flatMap Turn.consulted :=
  List.mem_flatMap.2 ⟨t, mem_of_mem_accepted ht, List.mem_append_left _ hq⟩

theorem turn_error {r r' : Recorder} (hc : r.cache.Wf) {t : Turn} {e : Fault} (h : turn t r = .error e r') :
    r'.catalog = r.catalog ∧ r'.trace = r.trace ∧ Consults r.catalog t.action.operands r.cache r'.cache := by
  have hout := turn_outcome hc t
  rw [h] at hout
  cases hout with
  | busy => exact ⟨rfl, rfl, .refl _ hc⟩
  | refused _ c journal _ hcon => exact ⟨rfl, rfl, hcon⟩

/-- **An accepted turn**: its segment is added, and its body consults the table that its action leaves. -/
theorem turn_ok {r r' : Recorder} (hc : r.cache.Wf) {t : Turn} {answers : List Probe.Answer}
    (h : turn t r = .ok answers r') :
    r'.catalog = r.catalog ∧ ∃ rec mid c₁, r'.trace = r.trace ++ (rec.early ++ t.recorded ++ rec.late) ∧
      Recorded r.catalog t.action r.cache mid rec c₁ ∧
      Consults r.catalog (t.body.filterMap Probe.query?) c₁ r'.cache := by
  have hout := turn_outcome hc t
  rw [h] at hout
  cases hout with
  | accepted _ rec mid c₁ c₂ sites calls journal _ _ hrec hbody =>
    exact ⟨rfl, rec, mid, c₁, by simp [List.append_assoc], hrec, hbody⟩

def turns (r : Recorder) (ts : List Turn) : Recorder := (ts.map Step.turn).foldl step r

theorem turns_cons {r : Recorder} {t : Turn} {ts : List Turn} : r.turns (t :: ts) = (endState (turn t r)).turns ts := rfl

/-- **The segments of a run**, over the table at its end. -/
theorem turns_segments : ∀ (ts : List Turn) {r : Recorder}, r.cache.Wf →
    (r.turns ts).cache.Wf ∧ Extends r.cache (r.turns ts).cache ∧
      ∃ segments, List.Forall₂ (Turn.Segment r.catalog (r.turns ts).cache.lookup) (r.accepted ts) segments ∧
        (r.turns ts).trace = r.trace ++ segments.flatten
  | [], r, hc => ⟨hc, .refl _, [], .nil, (List.append_nil _).symm⟩
  | t :: ts, r, hc => by
    rw [turns_cons, accepted]
    cases ht : turn t r with
    | error e r' =>
      obtain ⟨hcat, htrace, hcon⟩ := turn_error hc ht
      obtain ⟨hwf, hext, segments, hsegs, heq⟩ := turns_segments ts hcon.wf
      rw [hcat] at hsegs
      rw [htrace] at heq
      exact ⟨hwf, hcon.toExtends.trans hext, segments, hsegs, heq⟩
    | ok answers r' =>
      obtain ⟨hcat, rec, mid, c₁, htrace, hrec, hbody⟩ := turn_ok hc ht
      obtain ⟨hwf, hext, segments, hsegs, heq⟩ := turns_segments ts hbody.wf
      rw [hcat] at hsegs
      have hmid := hrec.extends.trans (hbody.toExtends.trans hext)
      refine ⟨hwf, hrec.operands.toExtends.trans hmid, (rec.early ++ t.recorded ++ rec.late) :: segments,
        .cons ?_ hsegs, ?_⟩
      · exact hrec.segment.mono fun id x => hmid.lookup
      · rw [List.flatten_cons, ← List.append_assoc, ← htrace]
        exact heq

/-- **An induction over the turns of a run**, on the accepted ones and the table: what consulting the table for some of
the references `rs` preserves, and what recording one more action preserves, holds at the end. -/
theorem turns_induction {cat : Catalog} {rs : List Reference} {P : List Turn → Cache → Prop}
    (consults : ∀ {done qs c c'}, c.Wf → Consults cat qs c c' → qs ⊆ rs → P done c → P done c')
    (records : ∀ {done} {t : Turn} {c mid rec c'}, c.Wf → t.action.operands ⊆ rs → Recorded cat t.action c mid rec c' →
      P done c → P (done ++ [t]) c') :
    ∀ (ts : List Turn) {r : Recorder} {done : List Turn}, r.catalog = cat → r.cache.Wf → (∀ t ∈ ts, t.consulted ⊆ rs) →
      P done r.cache → P (done ++ r.accepted ts) (r.turns ts).cache
  | [], r, done, _, _, _, hP => by rwa [accepted, List.append_nil]
  | t :: ts, r, done, hcat, hc, hts, hP => by
    obtain ⟨hops, hqueries⟩ := List.append_subset.1 (hts t List.mem_cons_self)
    have hrest : ∀ t ∈ ts, t.consulted ⊆ rs := fun t ht => hts t (List.mem_cons_of_mem _ ht)
    rw [turns_cons, accepted]
    subst hcat
    cases ht : turn t r with
    | error e r' =>
      obtain ⟨hcat, -, hcon⟩ := turn_error hc ht
      exact turns_induction (P := P) consults records ts hcat hcon.wf hrest (consults hc hcon hops hP)
    | ok answers r' =>
      obtain ⟨hcat, rec, mid, c₁, -, hrec, hbody⟩ := turn_ok hc ht
      have hnext := consults hrec.terms.wf hbody hqueries (records hc hops hrec hP)
      have hend := turns_induction (P := P) consults records ts hcat hbody.wf hrest hnext
      rwa [List.append_assoc, List.singleton_append] at hend

/-- **An accepted turn, found again in its run**: how its action was recorded, over the table by then and up to the table
at the end. -/
theorem turns_at {rs : List Reference} (hrs : Distinct rs) (ts : List Turn) {r : Recorder} {env : Bindings}
    (hts : ∀ t ∈ ts, t.consulted ⊆ rs) (htracks : Tracks r.catalog rs env r.cache) {before after : List Turn} {t : Turn}
    (hacc : r.accepted ts = before ++ t :: after) :
    ∃ c mid rec c₁, Tracks r.catalog rs ((before.map Turn.action).foldl (Bindings.after r.catalog) env) c ∧
      Recorded r.catalog t.action c mid rec c₁ ∧ Extends c₁ (r.turns ts).cache := by
  let P (done : List Turn) (c : Cache) : Prop :=
    Tracks r.catalog rs ((done.map Turn.action).foldl (Bindings.after r.catalog) env) c ∧
    ∀ before t after, done = before ++ t :: after → ∃ c₀ mid rec c₁,
      Tracks r.catalog rs ((before.map Turn.action).foldl (Bindings.after r.catalog) env) c₀ ∧
      Recorded r.catalog t.action c₀ mid rec c₁ ∧ Extends c₁ c
  have hend : P ([] ++ r.accepted ts) (r.turns ts).cache := by
    refine turns_induction (P := P) ?_ ?_ ts rfl htracks.wf hts
      ⟨htracks, fun before t after h => by cases before <;> cases h⟩
    · rintro done qs c c' - hcon hqs ⟨hP, hat⟩
      refine ⟨hP.consults hcon hqs, fun before t after h => ?_⟩
      obtain ⟨c₀, mid, rec, c₁, h₀, hrec, hext⟩ := hat before t after h
      exact ⟨c₀, mid, rec, c₁, h₀, hrec, hext.trans hcon.toExtends⟩
    · rintro done t c mid rec c' - hops hrec ⟨hP, hat⟩
      refine ⟨?_, fun before t' after h => ?_⟩
      · rw [List.map_append, List.foldl_append]
        exact (hP.recorded hrs hrec hops).2
      -- the turn in question is the new one, or one before it
      · rcases after.eq_nil_or_concat with rfl | ⟨after, t'', rfl⟩
        · obtain ⟨rfl, ⟨⟩⟩ := List.append_inj' h rfl
          exact ⟨c, mid, rec, c', hP, hrec, .refl c'⟩
        · rw [List.concat_eq_append, ← List.cons_append, ← List.append_assoc] at h
          obtain ⟨hdone, -⟩ := List.append_inj' h rfl
          obtain ⟨c₀, mid₀, rec₀, c₁, h₀, hrec₀, hext⟩ := hat before t' after hdone
          exact ⟨c₀, mid₀, rec₀, c₁, h₀, hrec₀, hext.trans (hrec.operands.toExtends.trans hrec.extends)⟩
  rw [List.nil_append] at hend
  exact hend.2 before t after hacc

/-- **What the operands of a run are bound to**, over the table at its end. -/
theorem turns_standsFor {rs : List Reference} (hrs : Distinct rs) (ts : List Turn) {r : Recorder} {env : Bindings}
    (hts : ∀ t ∈ ts, t.consulted ⊆ rs) (htracks : Tracks r.catalog rs env r.cache) (before : List Turn) (t : Turn)
    (after : List Turn) (hacc : r.accepted ts = before ++ t :: after) (q : Reference) (hq : q ∈ t.action.operands) :
    ∃ v, (r.turns ts).cache.read q = some v ∧
      ((before.map Turn.action).foldl (Bindings.after r.catalog) env).standsFor r.catalog q = some v := by
  obtain ⟨c, mid, rec, c₁, h, hrec, hext⟩ := turns_at hrs ts hts htracks hacc
  have ht : t ∈ ts := mem_of_mem_accepted (r := r) (hacc ▸ List.mem_append_right before List.mem_cons_self)
  obtain ⟨v, hv, hstands⟩ := (h.recorded hrs hrec (List.append_subset.1 (hts t ht)).1).1 q hq
  obtain ⟨hwf, -, -⟩ := turns_segments ts htracks.wf
  exact ⟨v, (hrec.extends.trans hext).read hv, hstands⟩

/-- **A trace is faithful to the actions and keeps their order.**  It is the segments of the accepted turns, one after
the other, over the bindings at the end.  And if no two references that are looked up share an id, every operand of an
accepted action is bound to what it stands for after the accepted actions before it, and no two operands share a
handle. -/
theorem run_faithful (cat : Catalog) (turns : List Turn) :
    let final := run cat (turns.map .turn)
    let accepted := accepted { catalog := cat } turns
    (∃ segments, List.Forall₂ (Turn.Segment cat final.cache.lookup) accepted segments ∧
      final.trace = segments.flatten) ∧
    (Distinct (turns.flatMap Turn.consulted) →
      (∀ before t after, accepted = before ++ t :: after → ∀ q ∈ t.action.operands,
        ∃ v, final.cache.read q = some v ∧
          (Bindings.ofActions cat (before.map Turn.action)).standsFor cat q = some v) ∧
      ∀ t ∈ accepted, ∀ q ∈ t.action.operands, ∀ t' ∈ accepted, ∀ q' ∈ t'.action.operands,
        final.cache.lookup q.id = final.cache.lookup q'.id → q = q') := by
  intro final accepted
  obtain ⟨hwf, -, segments, hsegs, htrace⟩ := turns_segments turns (r := { catalog := cat }) Cache.wf_empty
  refine ⟨⟨segments, hsegs, htrace⟩, fun hdistinct => ?_⟩
  have hsub : ∀ t ∈ turns, t.consulted ⊆ turns.flatMap Turn.consulted := fun t ht q hq =>
    List.mem_flatMap.2 ⟨t, ht, hq⟩
  have hstands := turns_standsFor hdistinct turns (r := { catalog := cat }) hsub .empty
  refine ⟨hstands, fun t ht q hq t' ht' q' hq' heq => ?_⟩
  have hbound : ∀ t ∈ accepted, ∀ q ∈ t.action.operands, ∃ x, final.cache.lookup q.id = some x := by
    intro t ht q hq
    obtain ⟨before, after, hsplit⟩ := List.append_of_mem ht
    obtain ⟨v, hv, -⟩ := hstands before t after hsplit q hq
    obtain ⟨x, hx, -⟩ := Option.bind_eq_some_iff.1 hv
    exact ⟨x, hx⟩
  obtain ⟨x, hx⟩ := hbound t ht q hq
  have hid := hwf.lookup_injective hx (heq ▸ hx)
  exact hdistinct q (operand_consulted ht hq) q' (operand_consulted ht' hq') hid

def calculator : Catalog := .ofDeclarations [⟨⟨"Calc", false⟩, [.method "twice" ⟨[.int], .int⟩ true]⟩]

/-- `v0 = 7; v1 = Calc.twice(v0); v2 = v1 + 3`, and then `v2` once more.  Instrumented code inside the call asks for the
operand 3 before the sum does, and notes a branch. -/
def sumTurns : List Turn :=
  [⟨.literal (.var ⟨0⟩ .int) (.scalar (.int 7)), [], none⟩,
   ⟨.call (.var ⟨1⟩ .int) none ⟨"Calc", "twice", ⟨[.int], .int⟩⟩ [.var ⟨0⟩ .int],
    [.termOf (.constant ⟨5⟩ .int (.scalar (.int 3))), .record ⟨.branch "even", .path (.const .null) true⟩], none⟩,
   ⟨.compute (.var ⟨2⟩ .int) (.var ⟨1⟩ .int) .plus (.constant ⟨5⟩ .int (.scalar (.int 3))), [], none⟩,
   ⟨.literal (.var ⟨2⟩ .int) (.scalar (.int 8)), [], none⟩]

/-- The last of the four turns is refused, and the sum adds what the call returned. -/
theorem run_faithful_sum :
    accepted { catalog := calculator } sumTurns = sumTurns.take 3 ∧ Distinct (sumTurns.flatMap Turn.consulted) ∧
      ∃ v, (run calculator (sumTurns.map .turn)).cache.read (.var ⟨1⟩ .int) = some v ∧
        (Bindings.ofActions calculator ((sumTurns.take 2).map Turn.action)).standsFor calculator (.var ⟨1⟩ .int) =
          some v := by
  have hacc : accepted { catalog := calculator } sumTurns = sumTurns.take 3 := by decide +kernel
  have hdistinct : Distinct (sumTurns.flatMap Turn.consulted) := by decide
  refine ⟨hacc, hdistinct, ?_⟩
  exact ((run_faithful calculator sumTurns).2 hdistinct).1 (sumTurns.take 2) _ [] hacc _ List.mem_cons_self

end Recorder

end Retrace
