import Retrace.Proofs.Names
import Retrace.Proofs.Runs
/-!
# SingleAssignment — every unknown is defined once, and before it is used

Read as a program, the clauses that a recorder adds are in single-assignment form (`SingleAssignment`).  The invariant
behind it (`Assigned`) ties the table to the clauses: the names given out are numbered below the supply's count, and
every unknown in the term of a value is the left-hand side of a clause.  An action that fails after its operands were
looked up leaves only constants behind, so nothing in the table ever lacks its clause.
-/
namespace Retrace

open Cache (Consults Extends)

namespace Term

mutual

def unknowns : Term → List Term
  | .var ty name => [.var ty name]
  | .const _ | .staticOf _ => []
  | .field owner _ _ => owner.unknowns
  | .load place => place.unknowns
  | .arith _ lhs rhs => lhs.unknowns ++ rhs.unknowns
  | .compare _ lhs rhs => lhs.unknowns ++ rhs.unknowns
  | .call owner _ args => owner.unknowns ++ unknownsAll args

def unknownsAll : List Term → List Term
  | [] => []
  | t :: ts => t.unknowns ++ unknownsAll ts

end

theorem mem_unknownsAll {u : Term} : ∀ ts : List Term, u ∈ unknownsAll ts ↔ ∃ t ∈ ts, u ∈ t.unknowns
  | [] => by simp [unknownsAll]
  | t :: ts => by simp [unknownsAll, mem_unknownsAll ts]

end Term

/-- The unknowns that a predicate speaks of, other than the one it defines. -/
def Predicate.used : Predicate → List Term
  | .equal _ rhs => rhs.unknowns
  | .store field value => field.unknowns ++ value.unknowns
  | .call _ applied => applied.unknowns
  | .path condition _ => condition.unknowns

def definedNames (cs : List Clause) : List String := cs.filterMap fun cl => cl.predicate.lhs?.bind Term.varName?

/-- **Clauses in single-assignment form**: what they define are unknowns, under names that all differ, and every other
unknown in a clause is defined by one strictly before it. -/
structure SingleAssignment (cs : List Clause) : Prop where
  lhs : ∀ cl ∈ cs, ∀ t, cl.predicate.lhs? = some t → ∃ ty name, t = .var ty name
  distinct : (definedNames cs).Nodup
  earlier : ∀ before cl after, cs = before ++ cl :: after →
    ∀ u ∈ cl.predicate.used, ∃ d ∈ before, d.predicate.lhs? = some u

theorem SingleAssignment.nil : SingleAssignment [] :=
  ⟨fun _ h => (nomatch h), List.nodup_nil, fun before cl after h => by cases before <;> cases h⟩

theorem mem_definedNames {cs : List Clause} {name : String} :
    name ∈ definedNames cs ↔ ∃ cl ∈ cs, ∃ ty, cl.predicate.lhs? = some (.var ty name) := by
  have hname : ∀ t : Term, t.varName? = some name ↔ ∃ ty, t = .var ty name := by
    intro t
    cases t <;> simp [Term.varName?]
  simp only [definedNames, List.mem_filterMap, Option.bind_eq_some_iff, hname]
  constructor
  · rintro ⟨cl, hcl, t, ht, ty, rfl⟩
    exact ⟨cl, hcl, ty, ht⟩
  · rintro ⟨cl, hcl, ty, ht⟩
    exact ⟨cl, hcl, _, ht, ty, rfl⟩

/-- One more clause: what it defines is new, and what it uses is defined. -/
theorem SingleAssignment.snoc {cs : List Clause} {cl : Clause} (h : SingleAssignment cs)
    (hlhs : ∀ t, cl.predicate.lhs? = some t → ∃ ty name, t = .var ty name ∧ name ∉ definedNames cs)
    (hused : ∀ u ∈ cl.predicate.used, ∃ d ∈ cs, d.predicate.lhs? = some u) : SingleAssignment (cs ++ [cl]) := by
  refine ⟨fun d hd t ht => ?_, ?_, fun before d after heq => ?_⟩
  · rcases List.mem_append.1 hd with hd | hd
    · exact h.lhs d hd t ht
    · obtain rfl := List.mem_singleton.1 hd
      obtain ⟨ty, name, hvar, -⟩ := hlhs t ht
      exact ⟨ty, name, hvar⟩
  · have happend : definedNames (cs ++ [cl]) = definedNames cs ++ definedNames [cl] := List.filterMap_append
    rw [happend]
    cases hl : cl.predicate.lhs? with
    | none =>
      have hnil : definedNames [cl] = [] := by simp [definedNames, hl]
      rw [hnil, List.append_nil]
      exact h.distinct
    | some t =>
      obtain ⟨ty, name, rfl, hnew⟩ := hlhs t hl
      have hone : definedNames [cl] = [name] := by simp [definedNames, hl, Term.varName?]
      rw [hone, List.nodup_append_comm, List.singleton_append, List.nodup_cons]
      exact ⟨hnew, h.distinct⟩
  · rcases after.eq_nil_or_concat with rfl | ⟨after, last, rfl⟩
    · obtain ⟨rfl, hlast⟩ := List.append_inj' heq rfl
      obtain rfl : cl = d := List.singleton_inj.1 hlast
      exact hused
    · have hsplit : cs ++ [cl] = (before ++ d :: after) ++ [last] := by rw [heq]; simp
      exact h.earlier before d after (List.append_inj' hsplit rfl).1

/-! ## What the predicate of an instruction defines and uses -/

namespace Instruction

variable {c : Cache} {k : Nat} {i : Instruction} {p : Predicate}

theorem lhs_of_predicate? (h : i.predicate? c k = some p) {t : Term} (ht : p.lhs? = some t) :
    ∃ ty name, t = .var ty (NameSupply.nameFor name k) := by
  cases predicate?_eq_some.1 h with
  | fieldStore => cases ht
  | call =>
    obtain ⟨n, -, rfl⟩ := Option.map_eq_some_iff.1 ht
    exact ⟨_, _, rfl⟩
  | _ =>
    cases ht
    exact ⟨_, _, rfl⟩

def Mentions (c : Cache) (x : Handle) (u : Term) : Prop := ∃ t, c.termAt? x = some t ∧ u ∈ t.unknowns

theorem mentions_of_ownerTerm? {owningClass : Class} {owner : Option Handle} {o u : Term}
    (h : ownerTerm? c owningClass owner = some o) (hu : u ∈ o.unknowns) : ∃ x, owner = some x ∧ Mentions c x u := by
  cases owner with
  | none =>
    cases h
    cases hu
  | some x => exact ⟨x, rfl, o, h, hu⟩

/-- **What a predicate uses comes from the operands of its instruction.** -/
theorem mentions_of_predicate? (h : i.predicate? c k = some p) : ∀ u ∈ p.used, ∃ x ∈ i.handles, Mentions c x u := by
  intro u hu
  cases predicate?_eq_some.1 h with
  | fieldLoad ho =>
    simp only [Predicate.used, Term.unknowns] at hu
    obtain ⟨x, rfl, hx⟩ := mentions_of_ownerTerm? ho hu
    exact ⟨x, List.mem_singleton_self x, hx⟩
  | fieldStore ho ht =>
    simp only [Predicate.used, Term.unknowns, List.mem_append] at hu
    rcases hu with hu | hu
    · obtain ⟨x, rfl, hx⟩ := mentions_of_ownerTerm? ho hu
      exact ⟨x, List.mem_cons_self, hx⟩
    · exact ⟨_, List.mem_append_right _ (List.mem_singleton_self _), _, ht, hu⟩
  | arith _ hl hr | compare hl hr =>
    simp only [Predicate.used, Term.unknowns, List.mem_append] at hu
    rcases hu with hu | hu
    · exact ⟨_, List.mem_cons_self, _, hl, hu⟩
    · exact ⟨_, List.mem_cons_of_mem _ (List.mem_singleton_self _), _, hr, hu⟩
  | call ho hts =>
    simp only [Predicate.used, Term.unknowns, List.mem_append, Term.mem_unknownsAll] at hu
    rcases hu with hu | ⟨t, ht, hu⟩
    · obtain ⟨x, rfl, hx⟩ := mentions_of_ownerTerm? ho hu
      exact ⟨x, List.mem_cons_self, hx⟩
    · obtain ⟨x, hx, hterm⟩ := exists_of_mem_mapM hts t ht
      exact ⟨x, List.mem_append_right _ hx, t, hterm, hu⟩

end Instruction

/-! ## The invariant -/

/-- Only the term of a named value has an unknown. -/
theorem Cache.Wf.named_of_mentions {c : Cache} (hc : c.Wf) {x : Handle} {u : Term} (h : Instruction.Mentions c x u) :
    ∃ name ty, c.valueAt? x = some (.named name ty) := by
  obtain ⟨t, ht, hu⟩ := h
  obtain ⟨v, hv⟩ := Cache.exists_value (hc.lt_size_of_termAt? ht)
  cases v with
  | named name ty => exact ⟨name, ty, hv⟩
  | constant k =>
    rw [hc.fits hv t ht] at hu
    cases hu

/-- **What ties the table to the clauses.** -/
structure Assigned (c : Cache) (cs : List Clause) : Prop where
  form : SingleAssignment cs
  numbered : ∀ name ∈ definedNames cs, ∃ base n, n < c.names.issued ∧ name = NameSupply.nameFor base n
  covered : ∀ {x u}, Instruction.Mentions c x u → ∃ d ∈ cs, d.predicate.lhs? = some u

namespace Assigned

variable {cat : Catalog} {rs : List Reference} {c c' : Cache} {cs : List Clause}

theorem empty : Assigned {} [] := by
  refine ⟨.nil, fun _ hname => (nomatch hname), ?_⟩
  rintro x u ⟨t, ht, -⟩
  cases ht

theorem mentions_before (hc : c.Wf) (hcon : Consults cat rs c c') {x : Handle} {u : Term}
    (h : Instruction.Mentions c' x u) : Instruction.Mentions c x u := by
  obtain ⟨name, ty, hv⟩ := hcon.wf.named_of_mentions h
  obtain ⟨t, ht, hu⟩ := h
  rw [(hcon.named_before hc hv).2] at ht
  exact ⟨t, ht, hu⟩

theorem consults (h : Assigned c cs) (hc : c.Wf) (hcon : Consults cat rs c c') : Assigned c' cs := by
  refine ⟨h.form, fun name hname => ?_, fun hx => h.covered (mentions_before hc hcon hx)⟩
  rw [hcon.names]
  exact h.numbered name hname

theorem unknown_termFor {names : NameSupply} {v : Value} {u : Term} (hu : u ∈ (Cache.termFor names v).1.unknowns) :
    u = (Cache.termFor names v).1 ∧ ∃ name ty, v = .named name ty := by
  cases v with
  | constant k => cases hu
  | named name ty => exact ⟨List.mem_singleton.1 hu, name, ty, rfl⟩

/-- A new value has no unknown in its term but its own. -/
theorem mentions_defining (hc : c.Wf) {product : Option (RefId × Value)}
    (hnew : ∀ id v, product = some (id, v) → c.lookup id = none) {x : Handle} {u : Term}
    (h : Instruction.Mentions (c.defining product) x u) :
    Instruction.Mentions c x u ∨ c.valueAt? x = none ∧ ∃ id v, product = some (id, v) ∧
      u ∈ (Cache.termFor c.names v).1.unknowns := by
  cases product with
  | none => exact .inl h
  | some p =>
    obtain ⟨id, v⟩ := p
    obtain ⟨t, ht, hu⟩ := h
    obtain ⟨w, hw⟩ := Cache.exists_value ((hc.withResult v (hnew id v rfl)).lt_size_of_termAt? ht)
    rw [Cache.defining, Cache.withResult] at ht
    rcases Cache.valueAt?_append hw with hold | ⟨hlast, -⟩
    · rw [Cache.termAt?_append_left hc (Cache.lt_size_of_valueAt? hold)] at ht
      exact .inl ⟨t, ht, hu⟩
    · rw [Cache.termAt?_append_last hc hlast] at ht
      cases ht
      exact .inr ⟨List.getElem?_eq_none (Nat.le_of_eq hlast.symm), id, v, rfl, hu⟩

section Recorded

variable {a : Action} {mid : Cache} {rec : Recording} {cl : Clause}

theorem mentions_recorded (hrec : Recorded cat a c mid rec c') {x : Handle} {u : Term}
    (h : Instruction.Mentions c' x u) :
    Instruction.Mentions mid x u ∨ mid.valueAt? x = none ∧ ∃ id v, a.product? cat mid.read = some (id, v) ∧
      u ∈ (Cache.termFor mid.names v).1.unknowns :=
  mentions_defining hrec.operands.wf hrec.unbound
    (mentions_before (hrec.operands.wf.defining hrec.unbound) hrec.terms h)

/-- An unknown that an action brings up is what its clause defines. -/
theorem lhs_of_product (hrec : Recorded cat a c mid rec c') {id : RefId} {v : Value} {u : Term}
    (hprod : a.product? cat mid.read = some (id, v))
    (hu : u ∈ (Cache.termFor mid.names v).1.unknowns) : ∃ cl, rec.clause? = some cl ∧ cl.predicate.lhs? = some u := by
  obtain ⟨rfl, name, ty, rfl⟩ := unknown_termFor hu
  cases hcl : rec.clause? with
  | some cl => exact ⟨cl, rfl, by rw [hrec.lhs cl hcl, hprod]; rfl⟩
  | none =>
    -- only a literal has no clause, and what it brings up is a constant
    have hform := hrec.form
    cases rec with
    | nothing =>
      cases a with
      | literal result value =>
        obtain ⟨k, -, hk⟩ := Option.bind_eq_some_iff.1 hprod
        cases hk
      | _ => exact hform.elim
    | clause cl => cases hcl
    | call p => cases hcl

theorem issued_lt (hrec : Recorded cat a c mid rec c') {t : Term} (hcl : rec.clause? = some cl)
    (ht : cl.predicate.lhs? = some t) : mid.names.issued < c'.names.issued := by
  obtain ⟨ty, name, hvar⟩ := Instruction.lhs_of_predicate? (hrec.meaning cl hcl) ht
  rw [hrec.lhs cl hcl] at ht
  obtain ⟨⟨id, v⟩, hprod, rfl⟩ := Option.map_eq_some_iff.1 ht
  rw [hrec.terms.names, hprod]
  cases v with
  | constant k => cases hvar
  | named name ty => exact Nat.lt_succ_self _

/-- The name a clause defines is new, because its number is. -/
theorem lhs_new (hmid : Assigned mid cs) (hrec : Recorded cat a c mid rec c') (hcl : rec.clause? = some cl) {t : Term}
    (ht : cl.predicate.lhs? = some t) : ∃ ty name, t = .var ty name ∧ name ∉ definedNames cs := by
  obtain ⟨ty, name, rfl⟩ := Instruction.lhs_of_predicate? (hrec.meaning cl hcl) ht
  refine ⟨ty, _, rfl, fun hmem => ?_⟩
  obtain ⟨base, n, hn, heq⟩ := hmid.numbered _ hmem
  obtain ⟨-, hk⟩ := NameSupply.nameFor_inj heq
  omega

theorem used_covered (hmid : Assigned mid cs) (hrec : Recorded cat a c mid rec c') (hcl : rec.clause? = some cl) {u : Term}
    (hu : u ∈ cl.predicate.used) : ∃ d ∈ cs, d.predicate.lhs? = some u := by
  obtain ⟨x, hx, hm⟩ := Instruction.mentions_of_predicate? (hrec.meaning cl hcl) u hu
  rcases mentions_recorded hrec hm with hm | ⟨hnone, -⟩
  · exact hmid.covered hm
  · -- not the result of the action itself: an operand has its place before
    obtain ⟨v, hv⟩ := hrec.operand_value hcl hx
    rw [hv] at hnone
    cases hnone

/-- **What recording an action keeps**: its clause defines a new unknown, and uses only those of its operands. -/
theorem recorded (h : Assigned c cs) (hc : c.Wf) (hrec : Recorded cat a c mid rec c') :
    Assigned c' (cs ++ rec.clause?.toList) := by
  have hmid : Assigned mid cs := h.consults hc hrec.operands
  refine ⟨?_, fun name hname => ?_, fun {x u} hx => ?_⟩
  · cases hcl : rec.clause? with
    | none =>
      rw [Option.toList_none, List.append_nil]
      exact h.form
    | some cl => exact h.form.snoc (fun t ht => lhs_new hmid hrec hcl ht) (fun u hu => used_covered hmid hrec hcl hu)
  · obtain ⟨cl, hcl, ty, hlhs⟩ := mem_definedNames.1 hname
    rcases List.mem_append.1 hcl with hcl | hcl
    · obtain ⟨base, n, hn, hbase⟩ := hmid.numbered name (mem_definedNames.2 ⟨cl, hcl, ty, hlhs⟩)
      exact ⟨base, n, Nat.lt_of_lt_of_le hn hrec.extends.issued, hbase⟩
    · have hcl := Option.mem_toList.1 hcl
      obtain ⟨ty', base, hvar⟩ := Instruction.lhs_of_predicate? (hrec.meaning cl hcl) hlhs
      cases hvar
      exact ⟨base, _, issued_lt hrec hcl hlhs, rfl⟩
  · rcases mentions_recorded hrec hx with hm | ⟨-, id, v, hprod, hu⟩
    · obtain ⟨d, hd, hlhs⟩ := hmid.covered hm
      exact ⟨d, List.mem_append_left _ hd, hlhs⟩
    · obtain ⟨cl, hcl, hlhs⟩ := lhs_of_product hrec hprod hu
      exact ⟨cl, List.mem_append_right _ (Option.mem_toList.2 hcl), hlhs⟩

end Recorded

end Assigned

/-- **The recorded model is in single-assignment form.**  After any steps, the account of the run is true to the
recorder, and the clauses that the recorder itself added since it was last cleared define every unknown once, and
before it is used. -/
theorem Attributed.translated_singleAssignment (cat : Catalog) (steps : List Step) :
    (run cat steps).recorder = Recorder.run cat steps ∧
      (run cat steps).marked.map Prod.snd = (Recorder.run cat steps).trace ∧
      SingleAssignment (run cat steps).translated := by
  have hassigned : Assigned (run cat steps).recorder.cache (run cat steps).translated :=
    run_induction .empty (fun hc hcon h => h.consults hc hcon) (fun hc hrec h => h.recorded hc hrec) steps
  rw [← recorder_run]
  exact ⟨rfl, (fits_run cat steps).trace, hassigned.form⟩

end Retrace
