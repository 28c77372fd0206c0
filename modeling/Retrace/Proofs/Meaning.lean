import Retrace.Recorder.Step
import Retrace.Proofs.Table
/-!
# Meaning — what an action comes down to, and what an instruction says

The specification side of recording.  An action determines its instruction from the catalog and from the handles its
operands are bound to (`Action.instruction?`), and the value its result is bound to from the values its operands stand
for (`Action.product?`).  An instruction denotes a predicate over a table: operands stand for their terms, and what it
defines stands for an unknown with a number (`Instruction.predicate?`).  None of this runs the recorder.
-/
namespace Retrace

/-! ## Actions -/

def Action.operands : Action → List Reference
  | .fieldRead _ source _ => source.toList
  | .assign (.instanceField _ _ source _) value => [value, source]
  | .assign _ value => [value]
  | .compute _ lhs _ rhs => [lhs, rhs]
  | .call _ receiver _ args => receiver.toList ++ args
  | .construct _ _ args => args
  | .literal _ _ | .newArray _ _ | .mock _ _ => []

def Reference.IsNull : Reference → Prop
  | .null _ _ => True
  | _ => False

/-- The handle a member is reached through: no handle if it needs no owner, else the one its owner is bound to. -/
def ownerHandle? (bound : RefId → Option Handle) (needed : Bool) (owner : Option Reference) : Option (Option Handle) :=
  if needed then (owner.bind fun r => bound r.id).map some else some none

def storeInstruction? (cat : Catalog) (bound : RefId → Option Handle) (source : Option Reference) (ref : FieldRef)
    (value : Reference) : Option Instruction := do
  let field ← (cat.resolveField ref).toOption
  let owner ← ownerHandle? bound (!field.isStatic) source
  return .fieldStore field owner (← bound value.id)

def Operator.instruction (op : Operator) (result : Reference) (l r : Handle) : Instruction :=
  match op.opcode with
  | .arith o => .arith result.name o l r
  | .rel o => .compare result.name result.ty o l r

/-- The instruction an action comes down to, with its operands by the handles they are bound to. -/
def Action.instruction? (cat : Catalog) (bound : RefId → Option Handle) : Action → Option Instruction
  | .fieldRead result source ref => do
    let field ← (cat.resolveField ref).toOption
    let owner ← ownerHandle? bound (!field.isStatic) source
    return .fieldLoad result.name field owner
  | .assign (.staticField _ _ ref) value => storeInstruction? cat bound none ref value
  | .assign (.instanceField _ _ source ref) value => storeInstruction? cat bound (some source) ref value
  | .compute result lhs op rhs => do
    return op.instruction result (← bound lhs.id) (← bound rhs.id)
  | .call result receiver ref args => do
    let method ← (cat.resolveMethod ref).toOption
    let form ← (Dispatch.ofMethod method).toOption
    let callee ← ownerHandle? bound form.kind.needsReceiver receiver
    let handles ← args.mapM fun r => bound r.id
    return .call form.kind method (if method.isVoid then none else some result.name) callee handles
  | .assign _ _ | .literal _ _ | .construct _ _ _ | .newArray _ _ | .mock _ _ => none

def Method.product? (method : Method) (result : Reference) : Option (RefId × Value) :=
  if method.isVoid then none else some (result.id, .named result.name method.sig.ret)

/-- The value an action binds to its result: a constant for a literal, else an unknown under the result's name.
Arithmetic takes its type from the value that the left operand stands for. -/
def Action.product? (cat : Catalog) (standsFor : Reference → Option Value) : Action → Option (RefId × Value)
  | .fieldRead result _ ref => do
    let field ← (cat.resolveField ref).toOption
    return (result.id, .named result.name field.ty)
  | .compute result lhs op _ =>
    match op.opcode with
    | .arith _ => do
      let v ← standsFor lhs
      return (result.id, .named result.name v.ty)
    | .rel _ => some (result.id, .named result.name result.ty)
  | .literal result value => do
    let k ← (value.toConstant result.ty cat).toOption
    return (result.id, .constant k)
  | .call result _ ref _ => do
    let method ← (cat.resolveMethod ref).toOption
    method.product? result
  | .assign _ _ | .construct _ _ _ | .newArray _ _ | .mock _ _ => none

/-! ## Instructions -/

namespace Instruction

def handles : Instruction → List Handle
  | .fieldLoad _ _ owner => owner.toList
  | .fieldStore _ owner value => owner.toList ++ [value]
  | .arith _ _ lhs rhs | .compare _ _ _ lhs rhs => [lhs, rhs]
  | .call _ _ _ receiver args => receiver.toList ++ args
  | .branch _ => []

/-- **An instruction of the right form**: a field is reached through an owner exactly if it is not static, a call is
made as its method's modifiers say, on a receiver exactly if it is not static, and has a name exactly if it returns a
value.  A branch is no action's instruction. -/
def Fits : Instruction → Prop
  | .fieldLoad _ field owner | .fieldStore field owner _ => owner = none ↔ field.isStatic = true
  | .arith _ _ _ _ | .compare _ _ _ _ _ => True
  | .call kind method name receiver _ =>
    Dispatch.ofMethod method = .ok ⟨kind, method.isVoid⟩ ∧ (receiver = none ↔ method.isStatic = true) ∧
      (name = none ↔ method.isVoid = true)
  | .branch _ => False

def ownerTerm? (c : Cache) (owningClass : Class) : Option Handle → Option Term
  | none => some (.staticOf owningClass)
  | some h => c.termAt? h

/-- **The predicate an instruction denotes** over a table, when the unknown it defines has the number `k`. -/
def predicate? (c : Cache) (k : Nat) : Instruction → Option Predicate
  | .fieldLoad name field owner => do
    let o ← ownerTerm? c field.owner owner
    return .equal (.var field.ty (NameSupply.nameFor name k)) (.load (.field o field.ty field.name))
  | .fieldStore field owner value => do
    let o ← ownerTerm? c field.owner owner
    return .store (.field o field.ty field.name) (← c.termAt? value)
  | .arith name op lhs rhs => do
    let v ← c.valueAt? lhs
    return .equal (.var v.ty (NameSupply.nameFor name k)) (.arith op (← c.termAt? lhs) (← c.termAt? rhs))
  | .compare name ty op lhs rhs => do
    return .equal (.var ty (NameSupply.nameFor name k)) (.compare op (← c.termAt? lhs) (← c.termAt? rhs))
  | .call _ method name receiver args => do
    let o ← ownerTerm? c method.owner receiver
    let ts ← args.mapM c.termAt?
    return .call (name.map fun n => .var method.sig.ret (NameSupply.nameFor n k)) (.call o method ts)
  | .branch _ => none

end Instruction

def Predicate.lhs? : Predicate → Option Term
  | .equal lhs _ => some lhs
  | .call result _ => result
  | .store _ _ | .path _ _ => none

/-! ## More is known, nothing changes

Both specifications only ask what the table has an answer to, so a table that answers more gives the same answers. -/

theorem Instruction.ownerTerm?_mono {c c' : Cache} (h : c.Extends c') {owningClass : Class} {owner : Option Handle}
    {t : Term} (ht : ownerTerm? c owningClass owner = some t) : ownerTerm? c' owningClass owner = some t := by
  cases owner with
  | none => exact ht
  | some x => exact h.termAt? ht

inductive Instruction.Denotes (c : Cache) (k : Nat) : Instruction → Predicate → Prop
  | fieldLoad {name : String} {field : Field} {owner : Option Handle} {o : Term}
      (ho : ownerTerm? c field.owner owner = some o) :
      Denotes c k (.fieldLoad name field owner)
        (.equal (.var field.ty (NameSupply.nameFor name k)) (.load (.field o field.ty field.name)))
  | fieldStore {field : Field} {owner : Option Handle} {value : Handle} {o t : Term}
      (ho : ownerTerm? c field.owner owner = some o) (ht : c.termAt? value = some t) :
      Denotes c k (.fieldStore field owner value) (.store (.field o field.ty field.name) t)
  | arith {name : String} {op : ArithOp} {lhs rhs : Handle} {v : Value} {l r : Term} (hv : c.valueAt? lhs = some v)
      (hl : c.termAt? lhs = some l) (hr : c.termAt? rhs = some r) :
      Denotes c k (.arith name op lhs rhs) (.equal (.var v.ty (NameSupply.nameFor name k)) (.arith op l r))
  | compare {name : String} {ty : Ty} {op : RelOp} {lhs rhs : Handle} {l r : Term} (hl : c.termAt? lhs = some l)
      (hr : c.termAt? rhs = some r) :
      Denotes c k (.compare name ty op lhs rhs) (.equal (.var ty (NameSupply.nameFor name k)) (.compare op l r))
  | call {kind : CallKind} {method : Method} {name : Option String} {receiver : Option Handle} {args : List Handle}
      {o : Term} {ts : List Term} (ho : ownerTerm? c method.owner receiver = some o)
      (hts : args.mapM c.termAt? = some ts) :
      Denotes c k (.call kind method name receiver args)
        (.call (name.map fun n => .var method.sig.ret (NameSupply.nameFor n k)) (.call o method ts))

theorem Instruction.predicate?_eq_some {c : Cache} {k : Nat} {i : Instruction} {p : Predicate} :
    i.predicate? c k = some p ↔ Denotes c k i p := by
  constructor
  · intro h
    cases i with
    | fieldLoad name field owner =>
      simp only [predicate?, Option.bind_eq_bind, Option.bind_eq_some_iff] at h
      obtain ⟨o, ho, ⟨⟩⟩ := h
      exact .fieldLoad ho
    | fieldStore field owner value =>
      simp only [predicate?, Option.bind_eq_bind, Option.bind_eq_some_iff] at h
      obtain ⟨o, ho, t, ht, ⟨⟩⟩ := h
      exact .fieldStore ho ht
    | arith name op lhs rhs =>
      simp only [predicate?, Option.bind_eq_bind, Option.bind_eq_some_iff] at h
      obtain ⟨v, hv, l, hl, r, hr, ⟨⟩⟩ := h
      exact .arith hv hl hr
    | compare name ty op lhs rhs =>
      simp only [predicate?, Option.bind_eq_bind, Option.bind_eq_some_iff] at h
      obtain ⟨l, hl, r, hr, ⟨⟩⟩ := h
      exact .compare hl hr
    | call kind method name receiver args =>
      simp only [predicate?, Option.bind_eq_bind, Option.bind_eq_some_iff] at h
      obtain ⟨o, ho, ts, hts, ⟨⟩⟩ := h
      exact .call ho hts
    | branch label => cases h
  · intro h
    cases h with
    | fieldLoad ho => simp [predicate?, ho]
    | fieldStore ho ht => simp [predicate?, ho, ht]
    | arith hv hl hr => simp [predicate?, hv, hl, hr]
    | compare hl hr => simp [predicate?, hl, hr]
    | call ho hts => simp [predicate?, ho, hts]

/-- **What an instruction denotes never changes**: it is the same over every later table. -/
theorem Instruction.predicate?_mono {c c' : Cache} (h : c.Extends c') {k : Nat} {i : Instruction} {p : Predicate}
    (hp : i.predicate? c k = some p) : i.predicate? c' k = some p := by
  rw [predicate?_eq_some] at hp ⊢
  cases hp with
  | fieldLoad ho => exact .fieldLoad (ownerTerm?_mono h ho)
  | fieldStore ho ht => exact .fieldStore (ownerTerm?_mono h ho) (h.termAt? ht)
  | arith hv hl hr => exact .arith (h.valueAt? hv) (h.termAt? hl) (h.termAt? hr)
  | compare hl hr => exact .compare (h.termAt? hl) (h.termAt? hr)
  | call ho hts => exact .call (ownerTerm?_mono h ho) (mapM_mono (fun _ _ => h.termAt?) hts)

/-- A call is void as its method is, and is made on a receiver unless its method is static. -/
theorem Dispatch.ofMethod_ok {m : Method} {form : Dispatch} (h : Dispatch.ofMethod m = .ok form) :
    form.isVoid = m.isVoid ∧ form.kind.needsReceiver = !m.isStatic := by
  unfold Dispatch.ofMethod Dispatch.select at h
  split at h
  · cases h
  split at h
  · rename_i hs
    cases h
    simp [CallKind.needsReceiver, hs]
  · rename_i hs
    split at h
    · cases h
      simp [CallKind.needsReceiver, hs]
    · split at h <;>
        · cases h
          simp [CallKind.needsReceiver, hs]

section Bound

variable {cat : Catalog} {bound bound' : RefId → Option Handle}

theorem ownerHandle?_mono (hb : ∀ id x, bound id = some x → bound' id = some x) {needed : Bool}
    {owner : Option Reference} {x : Option Handle} (h : ownerHandle? bound needed owner = some x) :
    ownerHandle? bound' needed owner = some x := by
  unfold ownerHandle? at h ⊢
  split
  · rename_i hn
    rw [if_pos hn] at h
    obtain ⟨y, hy, rfl⟩ := Option.map_eq_some_iff.1 h
    obtain ⟨r, hr, hy⟩ := Option.bind_eq_some_iff.1 hy
    rw [hr, Option.bind_some, hb _ _ hy]
    rfl
  · rename_i hn
    rwa [if_neg hn] at h

theorem exists_of_ownerHandle? {needed : Bool} {owner : Option Reference} {o : Option Handle}
    (h : ownerHandle? bound needed owner = some o) {x : Handle} (hx : o = some x) :
    ∃ r, owner = some r ∧ bound r.id = some x := by
  subst hx
  unfold ownerHandle? at h
  split at h
  · obtain ⟨y, hy, heq⟩ := Option.map_eq_some_iff.1 h
    cases heq
    exact Option.bind_eq_some_iff.1 hy
  · cases h

theorem ownerHandle?_eq_none_iff {needed : Bool} {owner : Option Reference} {o : Option Handle}
    (h : ownerHandle? bound needed owner = some o) : o = none ↔ needed = false := by
  unfold ownerHandle? at h
  split at h
  · rename_i hn
    obtain ⟨y, -, rfl⟩ := Option.map_eq_some_iff.1 h
    simp [hn]
  · rename_i hn
    cases h
    simpa using hn

theorem storeInstruction?_eq_some {source : Option Reference} {ref : FieldRef} {value : Reference} {i : Instruction} :
    storeInstruction? cat bound source ref value = some i ↔
      ∃ field owner x, cat.resolveField ref = .ok field ∧ ownerHandle? bound (!field.isStatic) source = some owner ∧
        bound value.id = some x ∧ .fieldStore field owner x = i := by
  simp [storeInstruction?, Option.bind_eq_some_iff, toOption_eq_some]

namespace Action

theorem instruction?_fieldRead {result : Reference} {source : Option Reference} {ref : FieldRef} {i : Instruction} :
    (fieldRead result source ref).instruction? cat bound = some i ↔
      ∃ field owner, cat.resolveField ref = .ok field ∧ ownerHandle? bound (!field.isStatic) source = some owner ∧
        .fieldLoad result.name field owner = i := by
  simp [instruction?, Option.bind_eq_some_iff, toOption_eq_some]

theorem instruction?_compute {result lhs rhs : Reference} {op : Operator} {i : Instruction} :
    (compute result lhs op rhs).instruction? cat bound = some i ↔
      ∃ l r, bound lhs.id = some l ∧ bound rhs.id = some r ∧ op.instruction result l r = i := by
  simp [instruction?, Option.bind_eq_some_iff]

theorem instruction?_call {result : Reference} {receiver : Option Reference} {ref : MethodRef} {args : List Reference}
    {i : Instruction} :
    (call result receiver ref args).instruction? cat bound = some i ↔
      ∃ method form callee xs, cat.resolveMethod ref = .ok method ∧ Dispatch.ofMethod method = .ok form ∧
        ownerHandle? bound form.kind.needsReceiver receiver = some callee ∧
        (args.mapM fun r => bound r.id) = some xs ∧
        .call form.kind method (if method.isVoid then none else some result.name) callee xs = i := by
  simp [instruction?, Option.bind_eq_some_iff, toOption_eq_some]

/-- **An action has one instruction**: where more references are bound, it is still the same. -/
theorem instruction?_mono (hb : ∀ id x, bound id = some x → bound' id = some x) {a : Action} {i : Instruction}
    (h : a.instruction? cat bound = some i) : a.instruction? cat bound' = some i := by
  have hstore : ∀ {source ref value}, storeInstruction? cat bound source ref value = some i →
      storeInstruction? cat bound' source ref value = some i := by
    intro source ref value h
    obtain ⟨field, owner, x, hf, ho, hx, rfl⟩ := storeInstruction?_eq_some.1 h
    exact storeInstruction?_eq_some.2 ⟨field, owner, x, hf, ownerHandle?_mono hb ho, hb _ _ hx, rfl⟩
  cases a with
  | fieldRead result source ref =>
    obtain ⟨field, owner, hf, ho, rfl⟩ := instruction?_fieldRead.1 h
    exact instruction?_fieldRead.2 ⟨field, owner, hf, ownerHandle?_mono hb ho, rfl⟩
  | assign target value =>
    cases target with
    | staticField id ty ref => exact hstore h
    | instanceField id ty source ref => exact hstore h
    | _ => cases h
  | compute result lhs op rhs =>
    obtain ⟨l, r, hl, hr, rfl⟩ := instruction?_compute.1 h
    exact instruction?_compute.2 ⟨l, r, hb _ _ hl, hb _ _ hr, rfl⟩
  | call result receiver ref args =>
    obtain ⟨method, form, callee, xs, hm, hd, ho, hxs, rfl⟩ := instruction?_call.1 h
    exact instruction?_call.2 ⟨method, form, callee, xs, hm, hd, ownerHandle?_mono hb ho,
      mapM_mono (fun r : Reference => hb r.id) hxs, rfl⟩
  | _ => cases h

/-- **Every operand of an action's instruction is the handle that an operand of the action is bound to.** -/
theorem handles_bound {a : Action} {i : Instruction} (h : a.instruction? cat bound = some i) :
    ∀ x ∈ i.handles, ∃ r ∈ a.operands, bound r.id = some x := by
  intro x hx
  have hstore : ∀ {source ref value}, storeInstruction? cat bound source ref value = some i →
      bound value.id = some x ∨ ∃ r, source = some r ∧ bound r.id = some x := by
    intro source ref value h
    obtain ⟨field, owner, y, -, ho, hy, rfl⟩ := storeInstruction?_eq_some.1 h
    rcases List.mem_append.1 hx with hx | hx
    · exact .inr (exists_of_ownerHandle? ho (Option.mem_toList.1 hx))
    · rw [List.mem_singleton.1 hx]
      exact .inl hy
  cases a with
  | fieldRead result source ref =>
    obtain ⟨field, owner, -, ho, rfl⟩ := instruction?_fieldRead.1 h
    obtain ⟨r, rfl, hr⟩ := exists_of_ownerHandle? ho (Option.mem_toList.1 hx)
    exact ⟨r, List.mem_singleton_self r, hr⟩
  | assign target value =>
    cases target with
    | staticField id ty ref =>
      rcases hstore h with hv | ⟨r, hr, -⟩
      · exact ⟨value, List.mem_singleton_self value, hv⟩
      · cases hr
    | instanceField id ty source ref =>
      rcases hstore h with hv | ⟨r, hr, hx⟩
      · exact ⟨value, List.mem_cons_self, hv⟩
      · cases hr
        exact ⟨source, by simp [operands], hx⟩
    | _ => cases h
  | compute result lhs op rhs =>
    obtain ⟨l, r, hl, hr, rfl⟩ := instruction?_compute.1 h
    have hlr : x = l ∨ x = r := by
      unfold Operator.instruction at hx
      split at hx <;> simpa [Instruction.handles] using hx
    rcases hlr with rfl | rfl
    · exact ⟨lhs, List.mem_cons_self, hl⟩
    · exact ⟨rhs, by simp [operands], hr⟩
  | call result receiver ref args =>
    obtain ⟨method, form, callee, xs, -, -, ho, hxs, rfl⟩ := instruction?_call.1 h
    rcases List.mem_append.1 hx with hx | hx
    · obtain ⟨r, rfl, hr⟩ := exists_of_ownerHandle? ho (Option.mem_toList.1 hx)
      exact ⟨r, List.mem_cons_self, hr⟩
    · obtain ⟨r, hr, hb⟩ := exists_of_mem_mapM hxs x hx
      exact ⟨r, List.mem_append_right _ hr, hb⟩
  | _ => cases h

/-- **The instruction of an action has the right form.** -/
theorem instruction?_fits {a : Action} {i : Instruction} (h : a.instruction? cat bound = some i) : i.Fits := by
  have hstore : ∀ {source ref value}, storeInstruction? cat bound source ref value = some i → i.Fits := by
    intro source ref value h
    obtain ⟨field, owner, x, -, ho, -, rfl⟩ := storeInstruction?_eq_some.1 h
    simpa [Instruction.Fits] using ownerHandle?_eq_none_iff ho
  cases a with
  | fieldRead result source ref =>
    obtain ⟨field, owner, -, ho, rfl⟩ := instruction?_fieldRead.1 h
    simpa [Instruction.Fits] using ownerHandle?_eq_none_iff ho
  | assign target value =>
    cases target with
    | staticField id ty ref => exact hstore h
    | instanceField id ty source ref => exact hstore h
    | _ => cases h
  | compute result lhs op rhs =>
    obtain ⟨l, r, -, -, rfl⟩ := instruction?_compute.1 h
    unfold Operator.instruction
    split <;> exact trivial
  | call result receiver ref args =>
    obtain ⟨method, form, callee, xs, -, hd, ho, -, rfl⟩ := instruction?_call.1 h
    obtain ⟨hvoid, hkind⟩ := Dispatch.ofMethod_ok hd
    refine ⟨?_, ?_, by cases method.isVoid <;> simp⟩
    · rw [hd, ← hvoid]
    · simpa [hkind] using ownerHandle?_eq_none_iff ho
  | _ => cases h

end Action

end Bound

end Retrace
