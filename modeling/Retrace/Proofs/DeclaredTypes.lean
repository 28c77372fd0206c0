import Retrace.Proofs.Literals
import Retrace.Proofs.Segments
/-!
# DeclaredTypes — what a variable is bound to, and the type it is declared with

A test declares a type for every variable.  The unknown that is recorded for it takes its type from elsewhere: from the
field that is read, from the method that is called, from the result of a comparison, and for arithmetic from the *left
operand*.  In a test whose actions are well typed these agree with the declarations as long as the left operand of every
arithmetic action has the wider type already; where it has not, they do not.
-/
namespace Retrace

open Cache (Consults Extends)

/-! ## Well-typed actions -/

def Ty.isNumeric : Ty → Bool
  | .byte | .char | .short | .int | .long | .float | .double => true
  | _ => false

/-- The type of arithmetic on two numeric operands: the widest of double, float and long that one of them has, and else
int, also on two operands that are narrower. -/
def Ty.promote (a b : Ty) : Ty :=
  if a = .double ∨ b = .double then .double
  else if a = .float ∨ b = .float then .float
  else if a = .long ∨ b = .long then .long
  else .int

def Operator.isNumeric (op : Operator) : Bool :=
  op ∈ [times, divide, remainder, plus, minus]

/-- **A well-typed action**: the declared type of its result is the one of the field, of what the method returns, of
truth values for a comparison, and for arithmetic that of the two operands, which are numbers. -/
def Action.WellTyped : Action → Prop
  | .fieldRead result _ field => result.ty = field.ty
  | .call result _ method _ => method.sig.ret.isVoid = false → result.ty = method.sig.ret
  | .compute result lhs op rhs =>
    match op.opcode with
    | .rel _ => result.ty = .bool
    | .arith _ => op.isNumeric = true ∧ lhs.ty.isNumeric = true ∧ rhs.ty.isNumeric = true ∧
        result.ty = lhs.ty.promote rhs.ty
  | .assign _ _ | .literal _ _ | .construct _ _ _ | .newArray _ _ | .mock _ _ => True

/-- **Arithmetic whose left operand has the type of the result**, and is not null. -/
def Action.LeftWide : Action → Prop
  | .compute _ lhs op rhs =>
    match op.opcode with
    | .rel _ => True
    | .arith _ => lhs.ty.promote rhs.ty = lhs.ty ∧ ¬ lhs.IsNull
  | _ => True

/-- The result is a variable, unless the action stores a value. -/
def Action.DefinesVariable : Action → Prop
  | .assign _ _ => True
  | a => ∃ id ty, a.result = .var id ty

/-- The references of a turn: the result of its action, the operands, and what its body asks for. -/
def Turn.mentioned (t : Turn) : List Reference := t.action.result :: t.consulted

theorem Ty.isKindOf_numeric {t k : Ty} (ht : t.isNumeric = true) : t.isKindOf k = true ↔ t = k := by
  cases t <;> simp_all [isNumeric, isKindOf]

theorem Ty.isNumeric_promote (a b : Ty) : (a.promote b).isNumeric = true := by
  unfold promote
  split
  · rfl
  · split
    · rfl
    · split <;> rfl

/-! ## Bindings of the declared kind -/

/-- **A value of the kind that a reference declares.**  Of null nothing is asked. -/
def Reference.Admits (q : Reference) (v : Value) : Prop := ¬ q.IsNull → q.ty.isKindOf v.ty = true

theorem Reference.admits_inlineConstant {cat : Catalog} {q : Reference} {k : Constant}
    (h : q.inlineConstant cat = .ok k) : q.Admits (.constant k) := by
  intro hnull
  cases q with
  | constant id ty literal => exact Literal.isKindOf_of_toConstant h
  | null id ty => exact absurd trivial hnull
  | _ => cases h

namespace Action

variable {cat : Catalog} {read : Reference → Option Value} {id : RefId} {v : Value}

theorem product?_fieldRead {result : Reference} {source : Option Reference} {ref : FieldRef} :
    (fieldRead result source ref).product? cat read = some (id, v) ↔
      ∃ field, cat.resolveField ref = .ok field ∧ result.id = id ∧ .named result.name field.ty = v := by
  simp [product?, Option.bind_eq_some_iff, toOption_eq_some]

theorem product?_arith {result lhs rhs : Reference} {op : Operator} {o : ArithOp} (ho : op.opcode = .arith o) :
    (compute result lhs op rhs).product? cat read = some (id, v) ↔
      ∃ w, read lhs = some w ∧ result.id = id ∧ .named result.name w.ty = v := by
  simp [product?, ho, Option.bind_eq_some_iff]

theorem product?_rel {result lhs rhs : Reference} {op : Operator} {o : RelOp} (ho : op.opcode = .rel o) :
    (compute result lhs op rhs).product? cat read = some (id, v) ↔ result.id = id ∧ .named result.name result.ty = v := by
  simp [product?, ho]

theorem product?_literal {result : Reference} {value : Literal} :
    (literal result value).product? cat read = some (id, v) ↔
      ∃ k, value.toConstant result.ty cat = .ok k ∧ result.id = id ∧ .constant k = v := by
  simp [product?, Option.bind_eq_some_iff, toOption_eq_some]

theorem product?_call {result : Reference} {receiver : Option Reference} {ref : MethodRef} {args : List Reference} :
    (call result receiver ref args).product? cat read = some (id, v) ↔
      ∃ method, cat.resolveMethod ref = .ok method ∧ method.isVoid = false ∧ result.id = id ∧
        .named result.name method.sig.ret = v := by
  simp [product?, Method.product?, Option.bind_eq_some_iff, toOption_eq_some]

theorem product?_id {a : Action} (h : a.product? cat read = some (id, v)) : a.result.id = id := by
  cases a with
  | fieldRead result source ref =>
    obtain ⟨-, -, hid, -⟩ := product?_fieldRead.1 h
    exact hid
  | compute result lhs op rhs =>
    cases ho : op.opcode with
    | arith o =>
      obtain ⟨-, -, hid, -⟩ := (product?_arith ho).1 h
      exact hid
    | rel o => exact ((product?_rel ho).1 h).1
  | literal result value =>
    obtain ⟨-, -, hid, -⟩ := product?_literal.1 h
    exact hid
  | call result receiver ref args =>
    obtain ⟨-, -, -, hid, -⟩ := product?_call.1 h
    exact hid
  | _ => cases h

/-- **What a well-typed action produces is of the declared kind**, if its operands are and arithmetic is wide on the
left. -/
theorem product?_kind {a : Action} (htyped : a.WellTyped) (hwide : a.LeftWide)
    (hread : ∀ q ∈ a.operands, ∀ v, read q = some v → q.Admits v) (h : a.product? cat read = some (id, v)) :
    a.result.ty.isKindOf v.ty = true := by
  cases a with
  | fieldRead result source ref =>
    obtain ⟨field, hfield, -, rfl⟩ := product?_fieldRead.1 h
    show result.ty.isKindOf field.ty = true
    rw [show result.ty = ref.ty from htyped, (Catalog.ty_of_field hfield).2]
    exact Ty.isKindOf_self _
  | compute result lhs op rhs =>
    cases ho : op.opcode with
    | arith o =>
      obtain ⟨w, hw, -, rfl⟩ := (product?_arith ho).1 h
      simp only [WellTyped, LeftWide, ho] at htyped hwide
      obtain ⟨-, hnumeric, -, hresult⟩ := htyped
      obtain ⟨hpromote, hnull⟩ := hwide
      have hlhs := hread lhs List.mem_cons_self w hw hnull
      rw [Ty.isKindOf_numeric hnumeric] at hlhs
      show result.ty.isKindOf w.ty = true
      rw [hresult, hpromote, hlhs]
      exact Ty.isKindOf_self _
    | rel o =>
      obtain ⟨-, rfl⟩ := (product?_rel ho).1 h
      exact Ty.isKindOf_self _
  | literal result value =>
    obtain ⟨k, hk, -, rfl⟩ := product?_literal.1 h
    exact Literal.isKindOf_of_toConstant hk
  | call result receiver ref args =>
    obtain ⟨method, hmethod, hvoid, -, rfl⟩ := product?_call.1 h
    have hsig : method.sig = ref.sig := (Catalog.sig_of_method hmethod).2
    rw [Method.isVoid, hsig] at hvoid
    show result.ty.isKindOf method.sig.ret = true
    rw [show result.ty = ref.sig.ret from htyped hvoid, hsig]
    exact Ty.isKindOf_self _
  | _ => cases h

end Action

namespace Cache

variable {cat : Catalog} {rs qs : List Reference} {c c' : Cache}

/-- **Every reference of `rs` that is bound has a value of the kind it declares.** -/
def Typed (rs : List Reference) (c : Cache) : Prop := ∀ q ∈ rs, ∀ v, c.read q = some v → q.Admits v

theorem Wf.exists_read (hc : c.Wf) {q : Reference} {x : Handle} (h : c.lookup q.id = some x) : ∃ v, c.read q = some v := by
  obtain ⟨v, hv⟩ := hc.value_of_lookup h
  exact ⟨v, by rw [read, h, Option.bind_some, hv]⟩

/-- Only what is newly bound has to be looked at. -/
theorem Typed.extend (h : Typed rs c) (hc : c.Wf) (hext : Extends c c')
    (hnew : ∀ q ∈ rs, c.lookup q.id = none → ∀ x v, c'.lookup q.id = some x → c'.valueAt? x = some v → q.Admits v) :
    Typed rs c' := by
  intro q hq v hv
  cases hx : c.lookup q.id with
  | some x =>
    obtain ⟨w, hw⟩ := hc.exists_read hx
    have hw' := hext.read hw
    rw [hv] at hw'
    cases hw'
    exact h q hq v hw
  | none =>
    obtain ⟨x, hx', hval⟩ := Option.bind_eq_some_iff.1 hv
    exact hnew q hq hx x v hx' hval

theorem Typed.consults (h : Typed rs c) (hc : c.Wf) (hrs : Distinct rs) (hcon : Consults cat qs c c') (hqs : qs ⊆ rs) :
    Typed rs c' := by
  refine h.extend hc hcon.toExtends fun q hq hnone x v hx hv => ?_
  obtain ⟨r, hr, k, hid, hk, hval⟩ := hcon.lookup_new hnone hx
  obtain rfl := hrs r (hqs hr) q hq hid
  rw [hv] at hval
  cases hval
  exact Reference.admits_inlineConstant hk

/-- **Recording a well-typed action keeps the types**, if arithmetic is wide on the left. -/
theorem Typed.recorded (h : Typed rs c) (hc : c.Wf) (hrs : Distinct rs) {a : Action} {mid : Cache} {rec : Recording}
    (hrec : Recorded cat a c mid rec c') (hops : a.operands ⊆ rs) (hresult : a.result ∈ rs) (htyped : a.WellTyped)
    (hwide : a.LeftWide) : Typed rs c' := by
  have hmid : Typed rs mid := h.consults hc hrs hrec.operands hops
  refine Typed.consults ?_ (hrec.operands.wf.defining hrec.unbound) hrs hrec.terms (List.nil_subset rs)
  refine hmid.extend hrec.operands.wf (hrec.operands.wf.extends_defining hrec.unbound) fun q hq hnone x w hx hw => ?_
  cases hp : a.product? cat mid.read with
  | none =>
    rw [hp, defining, hnone] at hx
    cases hx
  | some p =>
    obtain ⟨id, v⟩ := p
    have hnew := hrec.unbound id v hp
    rw [hp, defining] at hx hw
    have hqid := eq_of_lookup_withResult hnone hx
    obtain rfl := hrs q hq a.result hresult (hqid.trans (Action.product?_id hp).symm)
    obtain ⟨hlook, hval⟩ := hrec.operands.wf.lookup_withResult v hnew
    rw [hqid, hlook] at hx
    cases hx
    rw [hval] at hw
    cases hw
    exact fun _ => Action.product?_kind htyped hwide (fun r hr => hmid r (hops hr)) hp

/-- **Variables follow their declarations**: a variable of `rs` that is bound has a value of the kind it declares, and so
is the unknown that stands for it. -/
def FollowsDeclarations (rs : List Reference) (c : Cache) : Prop :=
  ∀ id ty x v, .var id ty ∈ rs → c.lookup id = some x → c.valueAt? x = some v →
    ty.isKindOf v.ty = true ∧ ∀ s name, c.termAt? x = some (.var s name) → ty.isKindOf s = true

theorem Wf.ty_of_var (hc : c.Wf) {x : Handle} {v : Value} {s : Ty} {name : String} (hv : c.valueAt? x = some v)
    (ht : c.termAt? x = some (.var s name)) : s = v.ty := by
  cases v with
  | constant k => exact nomatch hc.fits hv _ ht
  | named name ty =>
    obtain ⟨n, -, hterm⟩ := hc.fits hv
    rw [ht] at hterm
    cases hterm
    rfl

theorem FollowsDeclarations.isKindOf (h : FollowsDeclarations rs c) {q : Reference} (hq : q ∈ rs)
    (hvar : ∃ id ty, q = .var id ty) {v : Value} (hv : c.read q = some v) : q.ty.isKindOf v.ty = true := by
  obtain ⟨id, ty, rfl⟩ := hvar
  obtain ⟨x, hx, hval⟩ := Option.bind_eq_some_iff.1 hv
  exact (h id ty x v hq hx hval).1

theorem Typed.followsDeclarations (h : Typed rs c) (hc : c.Wf) : FollowsDeclarations rs c := by
  intro i ty x v hmem hx hv
  have hread : c.read (.var i ty) = some v := by
    rw [read, show c.lookup (Reference.var i ty).id = some x from hx]
    exact hv
  have hkind := h _ hmem v hread id
  refine ⟨hkind, fun s name ht => ?_⟩
  rw [hc.ty_of_var hv ht]
  exact hkind

end Cache

/-! ## Runs -/

/-- What is bound after some actions was bound before, or is the result of one of them. -/
theorem Bindings.exists_of_foldl_after {cat : Catalog} {id : RefId} {v : Value} :
    ∀ {actions : List Action} {env : Bindings}, actions.foldl (after cat) env id = some v →
      env id = some v ∨ ∃ a ∈ actions, a.result.id = id ∧ ∃ read p, a.product? cat read = some p
  | [], env, h => .inl h
  | a :: actions, env, h => by
    rw [List.foldl_cons] at h
    rcases exists_of_foldl_after h with h | ⟨a', ha', hrest⟩
    · unfold after at h
      cases hp : a.product? cat (env.standsFor cat) with
      | none =>
        rw [hp] at h
        exact .inl h
      | some p =>
        rw [hp] at h
        by_cases hid : id = p.1
        · exact .inr ⟨a, List.mem_cons_self, (Action.product?_id hp).trans hid.symm, _, p, hp⟩
        · exact .inl ((if_neg hid).symm.trans h)
    · exact .inr ⟨a', List.mem_cons_of_mem a ha', hrest⟩

theorem Action.DefinesVariable.of_product? {cat : Catalog} {read : Reference → Option Value} {a : Action}
    {p : RefId × Value} (h : a.DefinesVariable) (hp : a.product? cat read = some p) : ∃ id ty, a.result = .var id ty := by
  cases a with
  | assign target value => cases hp
  | _ => exact h

/-- The result of an action is bound to what it produced, from then on. -/
theorem Recorded.read_result {cat : Catalog} {a : Action} {c mid c₁ c' : Cache} {rec : Recording} {id : RefId} {v : Value}
    (h : Recorded cat a c mid rec c₁) (hp : a.product? cat mid.read = some (id, v)) (hext : Extends c₁ c') :
    c'.read a.result = some v := by
  have hnew := h.unbound id v hp
  obtain ⟨hlook, hval⟩ := h.operands.wf.lookup_withResult v hnew
  have hterms := h.terms
  rw [hp] at hterms
  have hend := hterms.toExtends.trans hext
  rw [Cache.read, Action.product?_id hp, hend.lookup hlook]
  exact hend.valueAt? hval

namespace Recorder

variable {cat : Catalog} {rs : List Reference}

/-- **What a run of well-typed actions keeps.** -/
theorem turns_typed (hrs : Distinct rs) (ts : List Turn) (hts : ∀ t ∈ ts, t.mentioned ⊆ rs)
    (htyped : ∀ t ∈ accepted { catalog := cat } ts, t.action.WellTyped ∧ t.action.LeftWide) :
    (turns { catalog := cat } ts).cache.Typed rs := by
  let P (done : List Turn) (c : Cache) : Prop :=
    (∀ t ∈ done, t.action.result ∈ rs ∧ t.action.WellTyped ∧ t.action.LeftWide) → c.Typed rs
  have hend : P ([] ++ accepted { catalog := cat } ts) (turns { catalog := cat } ts).cache := by
    refine turns_induction (P := P) ?_ ?_ ts rfl Cache.wf_empty
      (fun t ht => (List.cons_subset.1 (hts t ht)).2) fun _ q _ v hv => ?_
    · exact fun hc hcon hqs hP hdone => (hP hdone).consults hc hrs hcon hqs
    · intro done t c mid rec c' hc hops hrec hP hdone
      obtain ⟨hresult, hwell, hwide⟩ := hdone t (List.mem_append_right done (List.mem_singleton_self t))
      exact (hP fun t' ht' => hdone t' (List.mem_append_left [t] ht')).recorded hc hrs hrec hops hresult hwell hwide
    · cases hv
  refine hend fun t ht => ⟨?_, htyped t ht⟩
  exact (List.cons_subset.1 (hts t (mem_of_mem_accepted ht))).1

/-- **An operand that follows its declaration has the type it is declared with**, if both are numbers: it is a variable,
or a constant in its own place. -/
theorem ty_of_standsFor (hrs : Distinct rs) {actions : List Action}
    (hactions : ∀ a ∈ actions, a.result ∈ rs ∧ a.DefinesVariable) {q : Reference} (hq : q ∈ rs)
    (hnumeric : q.ty.isNumeric = true) {w : Value} (hw : (Bindings.ofActions cat actions).standsFor cat q = some w)
    (hwty : w.ty.isNumeric = true) (hvar : (∃ id ty, q = .var id ty) → q.ty.isKindOf w.ty = true) :
    q.ty = w.ty ∧ ¬ q.IsNull := by
  unfold Bindings.standsFor at hw
  cases henv : Bindings.ofActions cat actions q.id with
  | some v =>
    rcases Bindings.exists_of_foldl_after henv with h | ⟨a, ha, hid, read, p, hp⟩
    · cases h
    obtain ⟨hresult, hdefines⟩ := hactions a ha
    obtain rfl := hrs a.result hresult q hq hid
    obtain ⟨id, ty, hresult⟩ := hdefines.of_product? hp
    refine ⟨(Ty.isKindOf_numeric hnumeric).1 (hvar ⟨id, ty, hresult⟩), ?_⟩
    rw [hresult]
    exact not_false
  | none =>
    rw [henv, Option.none_or, Option.map_eq_some_iff] at hw
    obtain ⟨k, hk, rfl⟩ := hw
    rw [toOption_eq_some] at hk
    have hnull : ¬ q.IsNull := by
      cases q with
      | null id ty =>
        cases hk
        cases hwty
      | _ => exact not_false
    exact ⟨(Ty.isKindOf_numeric hnumeric).1 (Reference.admits_inlineConstant hk hnull), hnull⟩

/-- **Arithmetic is wide on the left, if variables follow their declarations afterwards.** -/
theorem leftWide_of_recorded (hrs : Distinct rs) {actions : List Action}
    (hactions : ∀ a ∈ actions, a.result ∈ rs ∧ a.DefinesVariable) {a : Action} {c mid c₁ c' : Cache} {rec : Recording}
    (htracks : Tracks cat rs (Bindings.ofActions cat actions) c) (hrec : Recorded cat a c mid rec c₁)
    (hops : a.operands ⊆ rs) (ha : a.result ∈ rs ∧ a.DefinesVariable) (htyped : a.WellTyped) (hext : Extends c₁ c')
    (hfollows : c'.FollowsDeclarations rs) : a.LeftWide := by
  cases a with
  | compute result lhs op rhs =>
    cases ho : op.opcode with
    | rel o => simp only [Action.LeftWide, ho]
    | arith o =>
      simp only [Action.WellTyped, Action.LeftWide, ho] at htyped ⊢
      obtain ⟨-, hnumeric, -, hty⟩ := htyped
      obtain ⟨w, hw, hstands⟩ := (htracks.recorded hrs hrec hops).1 lhs List.mem_cons_self
      have hlhs : lhs ∈ rs := hops List.mem_cons_self
      -- the result is bound to an unknown with the type of what the left operand stands for
      have hread := hrec.read_result ((Action.product?_arith ho).2 ⟨w, hw, rfl, rfl⟩) hext
      have hkind := hfollows.isKindOf ha.1 ha.2 hread
      have hpromote : result.ty.isNumeric = true := hty ▸ Ty.isNumeric_promote lhs.ty rhs.ty
      have hwty : result.ty = w.ty := (Ty.isKindOf_numeric hpromote).1 hkind
      obtain ⟨hleft, hnull⟩ := ty_of_standsFor hrs hactions hlhs hnumeric hstands (hwty ▸ hpromote) fun hvar =>
        hfollows.isKindOf hlhs hvar ((hrec.extends.trans hext).read hw)
      exact ⟨(hty.symm.trans hwty).trans hleft.symm, hnull⟩
  | _ => trivial

/-- **Declared types are followed exactly where arithmetic is wide on the left.**  In a run of well-typed actions, where
references that share an id are equal: if the left operand of every accepted arithmetic action has the type of the
result, every variable that is bound has a value of the kind it declares, and so is the unknown that stands for it.  And
if the results are variables, it is so only then. -/
theorem declared_types_followed (cat : Catalog) (turns : List Turn)
    (hdistinct : Distinct (turns.flatMap Turn.mentioned))
    (htyped : ∀ t ∈ accepted { catalog := cat } turns, t.action.WellTyped) :
    let final := run cat (turns.map .turn)
    let accepted := accepted { catalog := cat } turns
    ((∀ t ∈ accepted, t.action.LeftWide) → final.cache.FollowsDeclarations (turns.flatMap Turn.mentioned)) ∧
    ((∀ t ∈ accepted, t.action.DefinesVariable) → final.cache.FollowsDeclarations (turns.flatMap Turn.mentioned) →
      ∀ t ∈ accepted, t.action.LeftWide) := by
  intro final accepted
  have hsub : ∀ t ∈ turns, t.mentioned ⊆ turns.flatMap Turn.mentioned := fun t ht q hq => List.mem_flatMap.2 ⟨t, ht, hq⟩
  have hresult : ∀ t ∈ accepted, t.action.result ∈ turns.flatMap Turn.mentioned := fun t ht =>
    (List.cons_subset.1 (hsub t (mem_of_mem_accepted ht))).1
  have hconsulted : ∀ t ∈ turns, t.consulted ⊆ turns.flatMap Turn.mentioned := fun t ht =>
    (List.cons_subset.1 (hsub t ht)).2
  obtain ⟨hwf, -, -⟩ := turns_segments turns (r := { catalog := cat }) Cache.wf_empty
  refine ⟨fun hwide => ?_, fun hvars hfollows t ht => ?_⟩
  · exact (turns_typed hdistinct turns hsub fun t ht => ⟨htyped t ht, hwide t ht⟩).followsDeclarations hwf
  · obtain ⟨before, after, hsplit⟩ := List.append_of_mem ht
    obtain ⟨c, mid, rec, c₁, htracks, hrec, hext⟩ :=
      turns_at hdistinct turns (r := { catalog := cat }) hconsulted .empty hsplit
    have hearlier : ∀ a ∈ before.map Turn.action, a.result ∈ turns.flatMap Turn.mentioned ∧ a.DefinesVariable := by
      intro a ha
      obtain ⟨t', ht', rfl⟩ := List.mem_map.1 ha
      have hmem : t' ∈ accepted := hsplit ▸ List.mem_append_left _ ht'
      exact ⟨hresult t' hmem, hvars t' hmem⟩
    have hops := (List.append_subset.1 (hconsulted t (mem_of_mem_accepted ht))).1
    exact leftWide_of_recorded hdistinct hearlier htracks hrec hops ⟨hresult t ht, hvars t ht⟩ (htyped t ht) hext hfollows

/-- `v0 = 7; v1 = 5; v2 = v0 + 3; v3 = v2 < v1`, where `v1` is boxed and 3 is a byte. -/
def intSumTurns : List Turn :=
  [⟨.literal (.var ⟨0⟩ .int) (.scalar (.int 7)), [], none⟩,
   ⟨.literal (.var ⟨1⟩ (.object "java.lang.Integer")) (.scalar (.int 5)), [], none⟩,
   ⟨.compute (.var ⟨2⟩ .int) (.var ⟨0⟩ .int) .plus (.constant ⟨9⟩ .byte (.scalar (.byte 3))), [], none⟩,
   ⟨.compute (.var ⟨3⟩ .bool) (.var ⟨2⟩ .int) .less (.var ⟨1⟩ (.object "java.lang.Integer")), [], none⟩]

theorem declared_types_followed_intSum :
    Distinct (intSumTurns.flatMap Turn.mentioned) ∧
    accepted { catalog := {} } intSumTurns = intSumTurns ∧
    (∀ t ∈ intSumTurns, t.action.WellTyped ∧ t.action.LeftWide ∧ t.action.DefinesVariable) ∧
    (run {} (intSumTurns.map .turn)).cache.FollowsDeclarations (intSumTurns.flatMap Turn.mentioned) ∧
    ∀ t ∈ accepted { catalog := {} } intSumTurns, t.action.LeftWide := by
  have hdistinct : Distinct (intSumTurns.flatMap Turn.mentioned) := by decide
  have hacc : accepted { catalog := {} } intSumTurns = intSumTurns := by decide
  have hactions : ∀ t ∈ intSumTurns, t.action.WellTyped ∧ t.action.LeftWide ∧ t.action.DefinesVariable := by
    simp only [intSumTurns, List.forall_mem_cons]
    simp [Action.WellTyped, Action.LeftWide, Action.DefinesVariable, Action.result, Operator.opcode,
      Operator.isNumeric, Reference.ty, Reference.IsNull, Ty.isNumeric, Ty.promote]
  obtain ⟨hforth, hback⟩ := declared_types_followed {} intSumTurns hdistinct fun t ht => (hactions t (hacc ▸ ht)).1
  have hfollows := hforth fun t ht => (hactions t (hacc ▸ ht)).2.1
  exact ⟨hdistinct, hacc, hactions, hfollows, hback (fun t ht => (hactions t (hacc ▸ ht)).2.2) hfollows⟩

/-- `v0 = 7; v1 = 5; v2 = v0 + v1`, where `v1` and `v2` are longs. -/
def longSumTurns : List Turn :=
  [⟨.literal (.var ⟨0⟩ .int) (.scalar (.int 7)), [], none⟩,
   ⟨.literal (.var ⟨1⟩ .long) (.scalar (.long 5)), [], none⟩,
   ⟨.compute (.var ⟨2⟩ .long) (.var ⟨0⟩ .int) .plus (.var ⟨1⟩ .long), [], none⟩]

/-- **Declared types are not always followed**: the sum is accepted and well typed, and the unknown that stands for `v2`
is an int. -/
theorem widened_sum_keeps_left_type :
    Distinct (longSumTurns.flatMap Turn.mentioned) ∧ accepted { catalog := {} } longSumTurns = longSumTurns ∧
    (∀ t ∈ longSumTurns, t.action.WellTyped) ∧
    (run {} (longSumTurns.map .turn)).cache.read (.var ⟨2⟩ .long) = some (.named "v2" .int) ∧
    ¬ (run {} (longSumTurns.map .turn)).cache.FollowsDeclarations (longSumTurns.flatMap Turn.mentioned) := by
  have hread : (run {} (longSumTurns.map .turn)).cache.read (.var ⟨2⟩ .long) = some (.named "v2" .int) := by decide
  refine ⟨by decide, by decide, ?_, hread, fun h => ?_⟩
  · simp only [longSumTurns, List.forall_mem_cons]
    simp [Action.WellTyped, Operator.opcode, Operator.isNumeric, Reference.ty, Ty.isNumeric, Ty.promote]
  · have hkind := h.isKindOf (by decide) ⟨_, _, rfl⟩ hread
    cases hkind

end Recorder

end Retrace
