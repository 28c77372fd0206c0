import Retrace.Proofs.Meaning
/-!
# Translation — what recording an action does to the table

An action that is recorded consults the table for its operands, then binds its result, then makes terms
(`Recorded`, `Action.recording_ok`).  One that is refused has only consulted the table (`Action.recording_error`): the
last thing that can fail is the binding of the result, so that an action that fails has named nothing.
-/
namespace Retrace

open Cache (Consults Extends)

def Recording.clause? : Recording → Option Clause
  | .nothing => none
  | .clause c => some c
  | .call p => some p.clause

/-- What kind of recording an action of each kind leads to: a literal is only bound, and the clause of a call is held
back.  There is none for the actions that cannot be recorded. -/
def Recording.Suits : Action → Recording → Prop
  | .fieldRead _ _ _, .clause _ | .assign _ _, .clause _ | .compute _ _ _ _, .clause _ => True
  | .literal _ _, .nothing => True
  | .call _ _ _ _, .call _ => True
  | _, _ => False

def Cache.defining (c : Cache) : Option (RefId × Value) → Cache
  | none => c
  | some (id, v) => c.withResult id v

theorem Cache.Wf.extends_defining {c : Cache} (hc : c.Wf) : ∀ {product : Option (RefId × Value)},
    (∀ id v, product = some (id, v) → c.lookup id = none) → Extends c (c.defining product)
  | none, _ => .refl c
  | some (id, v), h => hc.extends_withResult v (h id v rfl)

theorem Cache.Wf.defining {c : Cache} (hc : c.Wf) : ∀ {product : Option (RefId × Value)},
    (∀ id v, product = some (id, v) → c.lookup id = none) → (c.defining product).Wf
  | none, _ => hc
  | some (id, v), h => hc.withResult v (h id v rfl)

/-- **What an accepted action did**, from the table `c` over `mid`, where its operands are bound, to `c'`. -/
structure Recorded (cat : Catalog) (a : Action) (c mid : Cache) (rec : Recording) (c' : Cache) : Prop where
  form : rec.Suits a
  operands : Consults cat a.operands c mid
  bound : mid.Binds a.operands
  unbound : ∀ id v, a.product? cat mid.read = some (id, v) → mid.lookup id = none
  terms : Consults cat [] (mid.defining (a.product? cat mid.read)) c'
  instruction : rec.clause?.map (·.instruction) = a.instruction? cat mid.lookup
  meaning : ∀ cl, rec.clause? = some cl → cl.instruction.predicate? c' mid.names.issued = some cl.predicate
  lhs : ∀ cl, rec.clause? = some cl →
    cl.predicate.lhs? = (a.product? cat mid.read).map fun p => (Cache.termFor mid.names p.2).1

theorem Recorded.of_clause {cat : Catalog} {a : Action} {c mid c' : Cache} {rec : Recording} {cl : Clause}
    {product : Option (RefId × Value)} (hform : rec.Suits a) (hprod : a.product? cat mid.read = product)
    (hcl : rec.clause? = some cl) (hops : Consults cat a.operands c mid) (hbound : mid.Binds a.operands)
    (hnew : ∀ id v, product = some (id, v) → mid.lookup id = none)
    (hterms : Consults cat [] (mid.defining product) c') (hinst : a.instruction? cat mid.lookup = some cl.instruction)
    (hmean : cl.instruction.predicate? c' mid.names.issued = some cl.predicate)
    (hlhs : cl.predicate.lhs? = product.map fun p => (Cache.termFor mid.names p.2).1) : Recorded cat a c mid rec c' := by
  subst hprod
  refine ⟨hform, hops, hbound, hnew, hterms, by rw [hcl, hinst]; rfl, fun cl' h => ?_, fun cl' h => ?_⟩
  · rw [hcl] at h
    cases h
    exact hmean
  · rw [hcl] at h
    cases h
    exact hlhs

theorem Recorded.extends {cat : Catalog} {a : Action} {c mid c' : Cache} {rec : Recording}
    (h : Recorded cat a c mid rec c') : Extends mid c' :=
  (h.operands.wf.extends_defining h.unbound).trans h.terms.toExtends

theorem Recorded.instruction_of_clause {cat : Catalog} {a : Action} {c mid c' : Cache} {rec : Recording} {cl : Clause}
    (h : Recorded cat a c mid rec c') (hcl : rec.clause? = some cl) :
    a.instruction? cat mid.lookup = some cl.instruction := by
  rw [← h.instruction, hcl]
  rfl

/-- The operands of a clause have their places before its result does. -/
theorem Recorded.operand_value {cat : Catalog} {a : Action} {c mid c' : Cache} {rec : Recording} {cl : Clause}
    (h : Recorded cat a c mid rec c') (hcl : rec.clause? = some cl) {x : Handle} (hx : x ∈ cl.instruction.handles) :
    ∃ v, mid.valueAt? x = some v := by
  obtain ⟨r, -, hr⟩ := Action.handles_bound (h.instruction_of_clause hcl) x hx
  exact h.operands.wf.value_of_lookup hr

/-- **What recording an action comes to**: it is recorded, or it is refused and has only consulted the table. -/
def Outcome (cat : Catalog) (a : Action) (c : Cache) : EStateM.Result Fault Cache Recording → Prop
  | .ok rec c' => ∃ mid, Recorded cat a c mid rec c'
  | .error _ c' => Consults cat a.operands c c'

namespace Recording

variable {cat : Catalog} {c c' : Cache} {e : Fault}

/-! ## The parts of a translation -/

theorem answer_ok {α : Type} {x : Except Fault α} {a : α} (h : answer x c = .ok a c') : x = .ok a ∧ c = c' := by
  cases x with
  | ok b => cases h; exact ⟨rfl, rfl⟩
  | error e => cases h

theorem answer_error {α : Type} {x : Except Fault α} (h : answer x c = .error e c') : c' = c := by
  cases x with
  | ok b => cases h
  | error e => cases h; rfl

theorem optional_ok (hc : c.Wf) {source : Option Reference} {o : Option Handle} (h : optional cat source c = .ok o c') :
    Consults cat source.toList c c' ∧
      ∀ c'', c'.Extends c'' → (o = source.bind fun r => c''.lookup r.id) ∧ c''.Binds source.toList := by
  cases source with
  | none => cases h; exact ⟨.refl _ hc, fun _ _ => ⟨rfl, fun r hr => nomatch hr⟩⟩
  | some r =>
    obtain ⟨x, c₁, hx, h⟩ := bind_ok h
    cases h
    obtain ⟨hcon, hl⟩ := Cache.valueOf_ok hc hx
    refine ⟨hcon, fun c'' hext => ⟨(hext.lookup hl).symm, fun r' hr' => ?_⟩⟩
    rw [List.mem_singleton.1 hr']
    exact ⟨x, hext.lookup hl⟩

theorem optional_error {source : Option Reference} (h : optional cat source c = .error e c') : c' = c := by
  cases source with
  | none => cases h
  | some r =>
    rcases bind_error h with h | ⟨x, c₁, -, h⟩
    · exact Cache.valueOf_error h
    · cases h

theorem operands_ok : ∀ {rs : List Reference} {c c' : Cache} {xs : List Handle}, c.Wf → operands cat rs c = .ok xs c' →
    Consults cat rs c c' ∧ (rs.mapM fun r => c'.lookup r.id) = some xs
  | [], c, c', xs, hc, h => by cases h; exact ⟨.refl _ hc, rfl⟩
  | r :: rs, c, c', xs, hc, h => by
    obtain ⟨x, c₁, hx, h⟩ := bind_ok h
    obtain ⟨xs', c₂, hxs, h⟩ := bind_ok h
    cases h
    obtain ⟨hcon, hl⟩ := Cache.valueOf_ok hc hx
    obtain ⟨hcons, hls⟩ := operands_ok hcon.wf hxs
    refine ⟨(hcon.mono (by simp)).trans (hcons.mono (by simp)), ?_⟩
    rw [List.mapM_cons, hcons.lookup hl, hls]
    rfl

theorem operands_error : ∀ {rs : List Reference} {c c' : Cache}, c.Wf → operands cat rs c = .error e c' →
    Consults cat rs c c'
  | [], c, c', hc, h => by cases h
  | r :: rs, c, c', hc, h => by
    rcases bind_error h with h | ⟨x, c₁, hx, h⟩
    · rw [Cache.valueOf_error h]
      exact .refl _ hc
    obtain ⟨hcon, -⟩ := Cache.valueOf_ok hc hx
    rcases bind_error h with h | ⟨xs, c₂, -, h⟩
    · exact (hcon.mono (by simp)).trans ((operands_error hcon.wf h).mono (by simp))
    · cases h

theorem terms_ok (cat : Catalog) : ∀ {xs : List Handle} {c : Cache}, c.Wf → (∀ x ∈ xs, ∃ v, c.valueAt? x = some v) →
    ∃ ts c', terms xs c = .ok ts c' ∧ Consults cat [] c c' ∧ xs.mapM c'.termAt? = some ts
  | [], c, hc, _ => ⟨[], c, rfl, .refl _ hc, rfl⟩
  | x :: xs, c, hc, hxs => by
    obtain ⟨v, hv⟩ := hxs x List.mem_cons_self
    obtain ⟨t, c₁, ht, hcon, hterm⟩ := Cache.termOf_ok cat hc hv
    have hxs₁ : ∀ y ∈ xs, ∃ v, c₁.valueAt? y = some v := fun y hy => by
      obtain ⟨w, hw⟩ := hxs y (List.mem_cons_of_mem x hy)
      exact ⟨w, hcon.valueAt? hw⟩
    obtain ⟨ts, c₂, hts, hcons, hterms⟩ := terms_ok cat hcon.wf hxs₁
    refine ⟨t :: ts, c₂, ?_, hcon.trans hcons, ?_⟩
    · unfold terms
      rw [bind_of_ok _ ht, bind_of_ok _ hts]
      rfl
    · rw [List.mapM_cons, hcons.termAt? hterm, hterms]
      rfl

theorem fieldOwner_ok {field : Field} {source : Option Reference} {missing : Fault.Invariant} {o : Option Handle}
    (h : fieldOwner field (source.bind fun r => c.lookup r.id) missing c = .ok o c') :
    c = c' ∧ ownerHandle? c.lookup (!field.isStatic) source = some o := by
  unfold fieldOwner at h
  unfold ownerHandle?
  cases hs : field.isStatic with
  | true =>
    rw [hs] at h
    cases h
    exact ⟨rfl, rfl⟩
  | false =>
    rw [hs] at h
    cases hx : source.bind fun r => c.lookup r.id with
    | none => rw [hx] at h; cases h
    | some x => rw [hx] at h; cases h; exact ⟨rfl, rfl⟩

theorem fieldOwner_error {field : Field} {given : Option Handle} {missing : Fault.Invariant}
    (h : fieldOwner field given missing c = .error e c') : c' = c := by
  unfold fieldOwner at h
  split at h
  · cases h
  · cases given with
    | none => cases h; rfl
    | some x => cases h

theorem place_ok (cat : Catalog) (hc : c.Wf) (field : Field) {owner : Option Handle}
    (ho : ∀ x, owner = some x → ∃ v, c.valueAt? x = some v) :
    ∃ o c', place field owner c = .ok (.field o field.ty field.name) c' ∧ Consults cat [] c c' ∧
      Instruction.ownerTerm? c' field.owner owner = some o := by
  cases owner with
  | none => exact ⟨_, c, rfl, .refl _ hc, rfl⟩
  | some x =>
    obtain ⟨v, hv⟩ := ho x rfl
    obtain ⟨t, c₁, ht, hcon, hterm⟩ := Cache.termOf_ok cat hc hv
    exact ⟨t, c₁, bind_of_ok (fun t => pure (Term.field t field.ty field.name)) ht, hcon, hterm⟩

theorem optionalTerm_ok (cat : Catalog) (hc : c.Wf) {receiver : Option Handle} (owningClass : Class)
    (hr : ∀ x, receiver = some x → ∃ v, c.valueAt? x = some v) :
    ∃ t c', optionalTerm receiver c = .ok t c' ∧ Consults cat [] c c' ∧
      Instruction.ownerTerm? c' owningClass receiver = some (t.getD (.staticOf owningClass)) := by
  cases receiver with
  | none => exact ⟨none, c, rfl, .refl _ hc, rfl⟩
  | some x =>
    obtain ⟨v, hv⟩ := hr x rfl
    obtain ⟨t, c₁, ht, hcon, hterm⟩ := Cache.termOf_ok cat hc hv
    exact ⟨some t, c₁, bind_of_ok (fun t => pure (some t)) ht, hcon, hterm⟩

theorem callReceiver_ok {kind : CallKind} {method : Method} {source : Option Reference} {o : Option Handle}
    (h : callReceiver kind method (source.bind fun r => c.lookup r.id) c = .ok o c') :
    c = c' ∧ ownerHandle? c.lookup kind.needsReceiver source = some o := by
  unfold callReceiver at h
  unfold ownerHandle?
  split at h
  · rename_i hk
    rw [if_pos hk]
    cases hx : source.bind fun r => c.lookup r.id with
    | none => rw [hx] at h; cases h
    | some x => rw [hx] at h; cases h; exact ⟨rfl, rfl⟩
  · rename_i hk
    rw [if_neg hk]
    cases h
    exact ⟨rfl, rfl⟩

theorem callReceiver_error {kind : CallKind} {method : Method} {given : Option Handle}
    (h : callReceiver kind method given c = .error e c') : c' = c := by
  unfold callReceiver at h
  split at h
  · cases given with
    | none => cases h; rfl
    | some x => cases h
  · cases h

theorem callResult_ok (hc : c.Wf) {result : Reference} {method : Method} {t : Option Term}
    (h : callResult result method method.isVoid c = .ok t c') :
    (∀ id v, method.product? result = some (id, v) → c.lookup id = none) ∧
      t = (method.product? result).map (fun p => (Cache.termFor c.names p.2).1) ∧
      c' = c.defining (method.product? result) := by
  unfold callResult at h
  unfold Method.product?
  split at h
  · rename_i hv
    cases h
    rw [if_pos hv]
    exact ⟨fun id v hp => (nomatch hp), rfl, rfl⟩
  · rename_i hv
    rw [if_neg hv]
    obtain ⟨⟨x, t'⟩, c₁, hr, h⟩ := bind_ok h
    obtain ⟨hnone, rfl, rfl⟩ := Cache.register_ok hc hr
    cases h
    exact ⟨fun id v hp => by cases hp; exact hnone, rfl, rfl⟩

theorem callResult_error (hc : c.Wf) {result : Reference} {method : Method} {isVoid : Bool}
    (h : callResult result method isVoid c = .error e c') : c' = c := by
  unfold callResult at h
  split at h
  · cases h
  · rcases bind_error h with h | ⟨⟨x, t⟩, c₁, -, h⟩
    · exact Cache.register_error hc h
    · cases h

/-! ## The actions, one by one -/

theorem allocated_of_ownerHandle? (hc : c.Wf) {needed : Bool} {source : Option Reference} {owner : Option Handle}
    (h : ownerHandle? c.lookup needed source = some owner) :
    ∀ x, owner = some x → ∃ v, c.valueAt? x = some v := by
  intro x hx
  obtain ⟨r, -, hr⟩ := exists_of_ownerHandle? h hx
  exact hc.value_of_lookup hr

theorem allocated_mono (h : Extends c c') {x : Handle} (hx : ∃ v, c.valueAt? x = some v) :
    ∃ v, c'.valueAt? x = some v := by
  obtain ⟨v, hv⟩ := hx
  exact ⟨v, h.valueAt? hv⟩

theorem ofFieldRead_outcome (hc : c.Wf) (result : Reference) (source : Option Reference) (ref : FieldRef) :
    Outcome cat (.fieldRead result source ref) c (ofFieldRead cat result source ref c) := by
  refine bind_cases (fun e c' h => ?_) (fun field c₀ hf => ?_)
  · rw [answer_error h]
    exact .refl _ hc
  obtain ⟨hfield, rfl⟩ := answer_ok hf
  refine bind_cases (fun e c' h => ?_) (fun given mid hg => ?_)
  · rw [optional_error h]
    exact .refl _ hc
  obtain ⟨hcon, hgiven⟩ := optional_ok hc hg
  obtain ⟨rfl, hbound⟩ := hgiven mid (.refl mid)
  refine bind_cases (fun e c' h => ?_) (fun owner c₁ ho => ?_)
  · rw [fieldOwner_error h]
    exact hcon
  obtain ⟨rfl, howner⟩ := fieldOwner_ok ho
  refine bind_cases (fun e c' h => ?_) (fun p c₂ hr => ?_)
  · rw [Cache.register_error hcon.wf h]
    exact hcon
  obtain ⟨x, t⟩ := p
  obtain ⟨hnone, rfl, rfl⟩ := Cache.register_ok hcon.wf hr
  -- from here on nothing fails: the owner has a place in the table
  have hext : Extends mid (mid.withResult result.id (.named result.name field.ty)) :=
    hcon.wf.extends_withResult _ hnone
  obtain ⟨o, c', hp, hterms, hterm⟩ := place_ok cat (hcon.wf.withResult _ hnone) field
    (fun x hx => allocated_mono hext (allocated_of_ownerHandle? hcon.wf howner x hx))
  simp only
  rw [bind_of_ok _ hp]
  have hprod : (Action.fieldRead result source ref).product? cat mid.read =
      some (result.id, .named result.name field.ty) := by
    simp [Action.product?, hfield, Except.toOption]
  refine ⟨mid, .of_clause trivial hprod rfl hcon hbound (fun id v hv => ?_) hterms ?_ ?_ rfl⟩
  · cases hv
    exact hnone
  · exact Action.instruction?_fieldRead.2 ⟨field, owner, hfield, howner, rfl⟩
  · simp [Instruction.predicate?, hterm, Cache.termFor, NameSupply.next]

/-- Writing a field, once the value and its term are known. -/
theorem ofFieldWrite_outcome {target value : Reference} {source : Option Reference} {ref : FieldRef} {x : Handle}
    {t : Term} {c₁ : Cache} (hval : Consults cat [value] c c₁) (hx : c₁.lookup value.id = some x)
    (ht : c₁.termAt? x = some t) (hops : (Action.assign target value).operands = value :: source.toList)
    (hinst : ∀ bound, (Action.assign target value).instruction? cat bound = storeInstruction? cat bound source ref value) :
    Outcome cat (.assign target value) c (ofFieldWrite cat source ref x t c₁) := by
  have hval' : Consults cat (Action.assign target value).operands c c₁ := hval.mono (by simp [hops])
  refine bind_cases (fun e c' h => ?_) (fun field c₀ hf => ?_)
  · rw [answer_error h]
    exact hval'
  obtain ⟨hfield, rfl⟩ := answer_ok hf
  refine bind_cases (fun e c' h => ?_) (fun given mid hg => ?_)
  · rw [optional_error h]
    exact hval'
  obtain ⟨hsource, hgiven⟩ := optional_ok hval.wf hg
  obtain ⟨rfl, hbound⟩ := hgiven mid (.refl mid)
  have hcon : Consults cat (Action.assign target value).operands c mid := hval'.trans (hsource.mono (by simp [hops]))
  refine bind_cases (fun e c' h => ?_) (fun owner c₂ ho => ?_)
  · rw [fieldOwner_error h]
    exact hcon
  obtain ⟨rfl, howner⟩ := fieldOwner_ok ho
  obtain ⟨o, c', hp, hterms, hterm⟩ := place_ok cat hcon.wf field (allocated_of_ownerHandle? hcon.wf howner)
  rw [bind_of_ok _ hp]
  have hx' : mid.lookup value.id = some x := hsource.lookup hx
  refine ⟨mid, .of_clause trivial rfl rfl hcon ?_ (fun id v hv => nomatch hv) hterms ?_ ?_ rfl⟩
  · rw [hops]
    exact List.forall_mem_cons.2 ⟨⟨x, hx'⟩, hbound⟩
  · rw [hinst]
    exact storeInstruction?_eq_some.2 ⟨field, owner, x, hfield, howner, hx', rfl⟩
  · simp [Instruction.predicate?, hterm, hterms.termAt? (hsource.termAt? ht)]

theorem ofAssign_outcome (hc : c.Wf) (target value : Reference) :
    Outcome cat (.assign target value) c (ofAssign cat target value c) := by
  refine bind_cases (fun e c' h => ?_) (fun x c₁ hx => ?_)
  · rw [Cache.valueOf_error h]
    exact .refl _ hc
  obtain ⟨hval, hlook⟩ := Cache.valueOf_ok hc hx
  obtain ⟨v, hv⟩ := hval.wf.value_of_lookup hlook
  obtain ⟨t, c₂, ht, hcon, hterm⟩ := Cache.termOf_ok cat hval.wf hv
  rw [bind_of_ok _ ht]
  have hval₂ : Consults cat [value] c c₂ := hval.trans (hcon.mono (by simp))
  have hlook₂ : c₂.lookup value.id = some x := hcon.lookup hlook
  cases target with
  | staticField id ty ref => exact ofFieldWrite_outcome hval₂ hlook₂ hterm rfl (fun _ => rfl)
  | instanceField id ty source ref => exact ofFieldWrite_outcome hval₂ hlook₂ hterm rfl (fun _ => rfl)
  | _ => exact hval₂

theorem ofLiteral_outcome (hc : c.Wf) (result : Reference) (value : Literal) :
    Outcome cat (.literal result value) c (ofLiteral cat result value c) := by
  refine bind_cases (fun e c' h => ?_) (fun k c₀ hk₀ => ?_)
  · rw [answer_error h]
    exact .refl _ hc
  obtain ⟨hk, rfl⟩ := answer_ok hk₀
  refine bind_cases (fun e c' h => ?_) (fun p c₁ hr => ?_)
  · rw [Cache.register_error hc h]
    exact .refl _ hc
  obtain ⟨x, t⟩ := p
  obtain ⟨hnone, rfl, rfl⟩ := Cache.register_ok hc hr
  have hprod : (Action.literal result value).product? cat c.read = some (result.id, .constant k) := by
    simp [Action.product?, hk, Except.toOption]
  refine ⟨c, trivial, .refl _ hc, fun r hr => ?_, fun id v hv => ?_, ?_, rfl, fun cl hcl => ?_, fun cl hcl => ?_⟩
  · cases hr
  · rw [hprod] at hv
    cases hv
    exact hnone
  · rw [hprod]
    exact .refl _ (hc.withResult _ hnone)
  · cases hcl
  · cases hcl

/-- Binds a result, then makes the terms of two operands: how every expression ends. -/
def bindThenTerms (id : RefId) (v : Value) (l r : Handle) (yield : Term → Term → Term → Recording) : M Recording := do
  let (_, term) ← Cache.register id v
  let lt ← Cache.termOf l
  let rt ← Cache.termOf r
  return yield term lt rt

theorem ofCompute_arith {op : Operator} {o : ArithOp} (ho : op.opcode = .arith o) (result lhs rhs : Reference) :
    ofCompute cat result lhs op rhs = (do
      let l ← Cache.valueOf cat lhs
      let r ← Cache.valueOf cat rhs
      let ty ← Cache.tyOf l
      bindThenTerms result.id (.named result.name ty) l r fun term lt rt =>
        .clause ⟨.arith result.name o l r, .equal term (.arith o lt rt)⟩) := by
  simp only [ofCompute, ho, bindThenTerms]

theorem ofCompute_rel {op : Operator} {o : RelOp} (ho : op.opcode = .rel o) (result lhs rhs : Reference) :
    ofCompute cat result lhs op rhs = (do
      let l ← Cache.valueOf cat lhs
      let r ← Cache.valueOf cat rhs
      bindThenTerms result.id (.named result.name result.ty) l r fun term lt rt =>
        .clause ⟨.compare result.name result.ty o l r, .equal term (.compare o lt rt)⟩) := by
  simp only [ofCompute, ho, bindThenTerms]

/-- An expression, once its operands are bound and the type of its result is known. -/
theorem bindThenTerms_outcome {result lhs rhs : Reference} {op : Operator} {ty : Ty} {l r : Handle} {mid : Cache}
    {combine : Term → Term → Term} (hcon : Consults cat [lhs, rhs] c mid) (hl : mid.lookup lhs.id = some l)
    (hr : mid.lookup rhs.id = some r)
    (hprod : (Action.compute result lhs op rhs).product? cat mid.read = some (result.id, .named result.name ty))
    (hmean : ∀ c' lt rt, mid.Extends c' → c'.termAt? l = some lt → c'.termAt? r = some rt →
      (op.instruction result l r).predicate? c' mid.names.issued =
        some (.equal (.var ty (NameSupply.nameFor result.name mid.names.issued)) (combine lt rt))) :
    Outcome cat (.compute result lhs op rhs) c (bindThenTerms result.id (.named result.name ty) l r
      (fun term lt rt => .clause ⟨op.instruction result l r, .equal term (combine lt rt)⟩) mid) := by
  refine bind_cases (fun e c' h => ?_) (fun p c₁ hreg => ?_)
  · rw [Cache.register_error hcon.wf h]
    exact hcon
  obtain ⟨x, t⟩ := p
  obtain ⟨hnone, rfl, rfl⟩ := Cache.register_ok hcon.wf hreg
  have hext : Extends mid (mid.withResult result.id (.named result.name ty)) := hcon.wf.extends_withResult _ hnone
  obtain ⟨lv, hlv⟩ := hcon.wf.value_of_lookup hl
  obtain ⟨lt, c₂, hlt, hcon₂, hlterm⟩ := Cache.termOf_ok cat (hcon.wf.withResult _ hnone) (hext.valueAt? hlv)
  obtain ⟨rv, hrv⟩ := hcon.wf.value_of_lookup hr
  obtain ⟨rt, c₃, hrt, hcon₃, hrterm⟩ := Cache.termOf_ok cat hcon₂.wf (hcon₂.valueAt? (hext.valueAt? hrv))
  simp only
  rw [bind_of_ok _ hlt, bind_of_ok _ hrt]
  have hterms := hcon₂.trans hcon₃
  refine ⟨mid, .of_clause trivial hprod rfl hcon ?_ (fun id v hv => ?_) hterms ?_ ?_ rfl⟩
  · exact List.forall_mem_cons.2 ⟨⟨l, hl⟩, List.forall_mem_singleton.2 ⟨r, hr⟩⟩
  · cases hv
    exact hnone
  · exact Action.instruction?_compute.2 ⟨l, r, hl, hr, rfl⟩
  · exact hmean c₃ lt rt (hext.trans hterms.toExtends) (hcon₃.termAt? hlterm) hrterm

theorem ofCompute_outcome (hc : c.Wf) (result lhs : Reference) (op : Operator) (rhs : Reference) :
    Outcome cat (.compute result lhs op rhs) c (ofCompute cat result lhs op rhs c) := by
  have hstart : ∀ {f : Handle → Handle → M Recording},
      (∀ l r mid, Consults cat [lhs, rhs] c mid → mid.lookup lhs.id = some l → mid.lookup rhs.id = some r →
        Outcome cat (.compute result lhs op rhs) c (f l r mid)) →
      Outcome cat (.compute result lhs op rhs) c
        ((do let l ← Cache.valueOf cat lhs; let r ← Cache.valueOf cat rhs; f l r : M Recording) c) := by
    intro f hf
    refine bind_cases (fun e c' h => ?_) (fun l c₁ hl => ?_)
    · rw [Cache.valueOf_error h]
      exact .refl _ hc
    obtain ⟨hcon, hlook⟩ := Cache.valueOf_ok hc hl
    refine bind_cases (fun e c' h => ?_) (fun r mid hr => ?_)
    · rw [Cache.valueOf_error h]
      exact hcon.mono (by simp [Action.operands])
    obtain ⟨hcon', hlook'⟩ := Cache.valueOf_ok hcon.wf hr
    exact hf l r mid ((hcon.mono (by simp)).trans (hcon'.mono (by simp))) (hcon'.lookup hlook) hlook'
  cases ho : op.opcode with
  | arith o =>
    rw [ofCompute_arith ho]
    refine hstart fun l r mid hcon hl hr => ?_
    obtain ⟨v, hv⟩ := hcon.wf.value_of_lookup hl
    have hty : Cache.tyOf l mid = .ok v.ty mid := by rw [Cache.tyOf, hv]
    have hinst : op.instruction result l r = .arith result.name o l r := by rw [Operator.instruction, ho]
    rw [bind_of_ok _ hty, ← hinst]
    refine bindThenTerms_outcome hcon hl hr ?_ (fun c' lt rt hext hlt hrt => ?_)
    · simp [Action.product?, ho, Cache.read, hl, hv]
    · simp [hinst, Instruction.predicate?, hext.valueAt? hv, hlt, hrt]
  | rel o =>
    rw [ofCompute_rel ho]
    refine hstart fun l r mid hcon hl hr => ?_
    have hinst : op.instruction result l r = .compare result.name result.ty o l r := by rw [Operator.instruction, ho]
    rw [← hinst]
    refine bindThenTerms_outcome hcon hl hr ?_ (fun c' lt rt hext hlt hrt => ?_)
    · simp [Action.product?, ho]
    · simp [hinst, Instruction.predicate?, hlt, hrt]

theorem ofCall_outcome (hc : c.Wf) (result : Reference) (given : Option Reference) (ref : MethodRef)
    (args : List Reference) : Outcome cat (.call result given ref args) c (ofCall cat result given ref args c) := by
  refine bind_cases (fun e c' h => ?_) (fun method c₀ hm => ?_)
  · rw [answer_error h]
    exact .refl _ hc
  obtain ⟨hmethod, rfl⟩ := answer_ok hm
  refine bind_cases (fun e c' h => ?_) (fun callee c₁ hcallee => ?_)
  · rw [optional_error h]
    exact .refl _ hc
  obtain ⟨hcon₁, hstays⟩ := optional_ok hc hcallee
  refine bind_cases (fun e c' h => ?_) (fun handles mid hhandles => ?_)
  · exact (hcon₁.mono (List.subset_append_left _ _)).trans
      ((operands_error hcon₁.wf h).mono (List.subset_append_right _ _))
  obtain ⟨hcon₂, hlooks⟩ := operands_ok hcon₁.wf hhandles
  obtain ⟨rfl, hbound⟩ := hstays mid hcon₂.toExtends
  have hcon : Consults cat (given.toList ++ args) c mid :=
    (hcon₁.mono (List.subset_append_left _ _)).trans (hcon₂.mono (List.subset_append_right _ _))
  refine bind_cases (fun e c' h => ?_) (fun form c₂ hf => ?_)
  · rw [answer_error h]
    exact hcon
  obtain ⟨hform, rfl⟩ := answer_ok hf
  obtain ⟨hvoid, -⟩ := Dispatch.ofMethod_ok hform
  refine bind_cases (fun e c' h => ?_) (fun receiver c₃ hr => ?_)
  · rw [callReceiver_error h]
    exact hcon
  obtain ⟨rfl, hreceiver⟩ := callReceiver_ok hr
  rw [hvoid]
  refine bind_cases (fun e c' h => ?_) (fun term c₄ hresult => ?_)
  · rw [callResult_error hcon.wf h]
    exact hcon
  obtain ⟨hnew, rfl, rfl⟩ := callResult_ok hcon.wf hresult
  -- from here on nothing fails: receiver and arguments have a place in the table
  have hext : Extends mid (mid.defining (method.product? result)) := hcon.wf.extends_defining hnew
  have hwf : (mid.defining (method.product? result)).Wf := hcon.wf.defining hnew
  obtain ⟨rt, c₅, hrt, hcon₅, hrterm⟩ := optionalTerm_ok cat hwf method.owner
    (fun x hx => allocated_mono hext (allocated_of_ownerHandle? hcon.wf hreceiver x hx))
  obtain ⟨ats, c₆, hats, hcon₆, haterms⟩ := terms_ok cat hcon₅.wf fun x hx => by
    obtain ⟨r, -, hr⟩ := exists_of_mem_mapM hlooks x hx
    exact allocated_mono (hext.trans hcon₅.toExtends) (hcon.wf.value_of_lookup hr)
  rw [bind_of_ok _ hrt, bind_of_ok _ hats]
  have hprod : (Action.call result given ref args).product? cat mid.read = method.product? result := by
    simp [Action.product?, hmethod, Except.toOption]
  refine ⟨mid, .of_clause trivial hprod rfl hcon ?_ hnew (hcon₅.trans hcon₆) ?_ ?_ rfl⟩
  · exact List.forall_mem_append.2 ⟨hbound, exists_of_mapM hlooks⟩
  · exact Action.instruction?_call.2 ⟨method, form, receiver, handles, hmethod, hform, hreceiver, hlooks, rfl⟩
  · have howner := Instruction.ownerTerm?_mono hcon₆.toExtends hrterm
    simp only [PendingCall.clause, Instruction.predicate?, howner, haterms, Option.bind_eq_bind, Option.bind_some]
    unfold Method.product?
    split <;> rfl

end Recording

/-- **Recording an action, unpacked.** -/
theorem Action.recording_outcome {cat : Catalog} {c : Cache} (hc : c.Wf) (a : Action) :
    Outcome cat a c (a.recording cat c) := by
  cases a with
  | fieldRead result source ref => exact Recording.ofFieldRead_outcome hc result source ref
  | assign target value => exact Recording.ofAssign_outcome hc target value
  | compute result lhs op rhs => exact Recording.ofCompute_outcome hc result lhs op rhs
  | literal result value => exact Recording.ofLiteral_outcome hc result value
  | call result receiver ref args => exact Recording.ofCall_outcome hc result receiver ref args
  | construct result ref args => exact .refl _ hc
  | newArray result length => exact .refl _ hc
  | mock result target => exact .refl _ hc

theorem Action.recording_ok {cat : Catalog} {c c' : Cache} (hc : c.Wf) {a : Action} {rec : Recording}
    (h : a.recording cat c = .ok rec c') : ∃ mid, Recorded cat a c mid rec c' := by
  have hout : Outcome cat a c (a.recording cat c) := recording_outcome hc a
  rwa [h] at hout

theorem Action.recording_error {cat : Catalog} {c c' : Cache} (hc : c.Wf) {a : Action} {e : Fault}
    (h : a.recording cat c = .error e c') : Consults cat a.operands c c' := by
  have hout : Outcome cat a c (a.recording cat c) := recording_outcome hc a
  rwa [h] at hout

end Retrace
