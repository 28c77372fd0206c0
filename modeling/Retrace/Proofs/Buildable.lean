import Mathlib.Algebra.GroupWithZero.Nat
import Retrace.Proofs.Replay
import Retrace.Proofs.Statements
/-!
# Buildable — which solved inputs a test can be built from

A solved value has a plan unless an array, or a field wrongly given as static, occurs somewhere in it.  What occurs in it
is listed in the order of a depth-first walk (`Shape.parts`), and the first part with an offence is the one reported
(`Plan.ofShape_settles`).  After that only the call itself can be at fault, or the ids run out.
-/
namespace Retrace

/-! ## Offences -/

namespace Shape

mutual

/-- A value and everything in it, in the order of a depth-first walk. -/
def parts : Shape → List Shape
  | .null ty => [.null ty]
  | .constant value => [.constant value]
  | .object owner fields => .object owner fields :: partsOfFields fields
  | .array element elements => .array element elements :: partsOfAll elements
  | .staticField field value => .staticField field value :: value.parts

def partsOfFields : List (FieldRef × Shape) → List Shape
  | [] => []
  | (_, value) :: rest => value.parts ++ partsOfFields rest

def partsOfAll : List Shape → List Shape
  | [] => []
  | s :: rest => s.parts ++ partsOfAll rest

end

/-- Why a value cannot be planned, whatever is in it. -/
def offence? : Shape → Option Fault.Unplannable
  | .array element _ => some (.array element)
  | .staticField field _ => if field.isStatic then none else some (.notStatic field)
  | .null _ | .constant _ | .object _ _ => none

/-- The ids that go to a value itself when a test is drafted: one for it, and one for the place of each field. -/
def ownIds : Shape → Nat
  | .object _ fields => 1 + fields.length
  | _ => 1

end Shape

/-- Everything in the inputs of a call, in the order of a depth-first walk over receiver, arguments and static state. -/
def Inputs.parts (p : Inputs Shape) : List Shape := p.toList.flatMap Shape.parts

/-- **The first offence decides**: with one, it is the failure, and with none there is an answer. -/
def Settles {α : Type} (x : Except Fault α) : Option Fault.Unplannable → Prop
  | some o => x = .error (.unplannable o)
  | none => ∃ a, x = .ok a

namespace Settles

variable {α β : Type} {x : Except Fault α} {o o' : Option Fault.Unplannable}

theorem bind {f : α → Except Fault β} (hx : Settles x o) (hf : ∀ a, x = .ok a → Settles (f a) o') :
    Settles (x >>= f) (o.or o') := by
  cases o with
  | some offence =>
    rw [show x = .error (.unplannable offence) from hx]
    rfl
  | none =>
    obtain ⟨a, ha⟩ := hx
    rw [Option.none_or, ha]
    exact hf a ha

theorem map {f : α → β} (hx : Settles x o) : Settles (x.map f) o := by
  cases o with
  | some offence =>
    rw [show x = .error (.unplannable offence) from hx]
    rfl
  | none =>
    obtain ⟨a, rfl⟩ := hx
    exact ⟨f a, rfl⟩

theorem of_map {f : α → β} (h : Settles (f <$> x) o) : Settles x o := by
  cases x with
  | ok a =>
    cases o with
    | some offence => cases h
    | none => exact ⟨a, rfl⟩
  | error e =>
    cases o with
    | some offence =>
      cases h
      rfl
    | none =>
      obtain ⟨b, hb⟩ := h
      cases hb

end Settles

namespace Plan

mutual

/-- **A value without an offence has a plan**, and else the first offence is reported. -/
theorem ofShape_settles : ∀ s : Shape, Settles (ofShape s) (s.parts.findSome? Shape.offence?)
  | .null ty => ⟨_, by rw [ofShape]⟩
  | .constant .null => ⟨_, by rw [ofShape]⟩
  | .constant (.scalar value) => ⟨_, rfl⟩
  | .constant (.method m) => ⟨_, rfl⟩
  | .object owner fields => by
    rw [ofShape, Shape.parts]
    exact (ofFields_settles fields).map
  | .array element elements => by
    rw [ofShape, Shape.parts]
    rfl
  | .staticField field value => by
    rw [ofShape, Shape.parts, List.findSome?_cons, Shape.offence?]
    by_cases hs : field.isStatic = true
    · rw [if_pos hs, if_pos hs]
      exact (ofShape_settles value).map
    · rw [if_neg hs, if_neg hs]
      rfl

theorem ofFields_settles : ∀ fields : List (FieldRef × Shape),
    Settles (ofFields fields) ((Shape.partsOfFields fields).findSome? Shape.offence?)
  | [] => ⟨[], by rw [ofFields]⟩
  | (field, value) :: rest => by
    rw [ofFields, Shape.partsOfFields, List.findSome?_append]
    have hbind := (ofShape_settles value).bind (f := fun plan => (ofFields rest).map ((field, plan) :: ·))
      fun plan _ => (ofFields_settles rest).map
    cases hvalue : ofShape value with
    | error e =>
      rw [hvalue] at hbind
      exact hbind
    | ok plan =>
      rw [hvalue] at hbind
      exact hbind

end

theorem ofAll_settles : ∀ ss : List Shape, Settles (ss.mapM ofShape) ((ss.flatMap Shape.parts).findSome? Shape.offence?)
  | [] => ⟨[], rfl⟩
  | s :: ss => by
    rw [List.mapM_cons, List.flatMap_cons, List.findSome?_append]
    refine (ofShape_settles s).bind fun plan _ => ?_
    rw [← Option.or_none (o := List.findSome? _ _)]
    exact (ofAll_settles ss).bind fun plans _ => ⟨_, rfl⟩

theorem ty_of_ofShape {s : Shape} {plan : Plan} (h : ofShape s = .ok plan) : plan.ty = s.ty := by
  cases s with
  | null ty =>
    rw [ofShape] at h
    cases h
    rfl
  | constant value => cases value <;> cases h <;> rfl
  | object owner fields =>
    rw [ofShape] at h
    obtain ⟨plans, -, rfl⟩ := map_ok h
    rfl
  | array element elements =>
    rw [ofShape] at h
    cases h
  | staticField field value =>
    rw [ofShape] at h
    split at h
    · obtain ⟨plan', -, rfl⟩ := map_ok h
      rfl
    · cases h

mutual

/-- **The ids of a plan**, counted over the parts of the value. -/
theorem ids_of_ofShape : ∀ {s : Shape} {plan : Plan}, ofShape s = .ok plan →
    plan.ids = (s.parts.map Shape.ownIds).sum
  | .null ty, plan, h => by
    rw [ofShape] at h
    cases h
    rfl
  | .constant .null, plan, h => by
    rw [ofShape] at h
    cases h
    rfl
  | .constant (.scalar value), plan, h => by
    cases h
    rfl
  | .constant (.method m), plan, h => by
    cases h
    rfl
  | .object owner fields, plan, h => by
    rw [ofShape] at h
    obtain ⟨plans, hplans, rfl⟩ := map_ok h
    rw [ids, Shape.parts, List.map_cons, List.sum_cons, Shape.ownIds, ids_of_ofFields hplans, Nat.add_assoc]
  | .array element elements, plan, h => by
    rw [ofShape] at h
    cases h
  | .staticField field value, plan, h => by
    rw [ofShape] at h
    split at h
    · obtain ⟨plan', hplan', rfl⟩ := map_ok h
      rw [ids, Shape.parts, List.map_cons, List.sum_cons, Shape.ownIds, ids_of_ofShape hplan', Nat.add_comm]
      exact nofun
    · cases h

theorem ids_of_ofFields : ∀ {fields : List (FieldRef × Shape)} {plans : List (FieldRef × Plan)},
    ofFields fields = .ok plans → idsOfFields plans = fields.length + ((Shape.partsOfFields fields).map Shape.ownIds).sum
  | [], plans, h => by
    rw [ofFields] at h
    cases h
    rfl
  | (field, value) :: rest, plans, h => by
    rw [ofFields] at h
    split at h
    · cases h
    · rename_i plan hplan
      obtain ⟨plans', hplans', rfl⟩ := map_ok h
      rw [idsOfFields, ids_of_ofShape hplan, ids_of_ofFields hplans', Shape.partsOfFields, List.map_append,
        List.sum_append, List.length_cons]
      omega

end

theorem ids_of_ofAll : ∀ {ss : List Shape} {plans : List Plan}, ss.mapM ofShape = .ok plans →
    (plans.map ids).sum = ((ss.flatMap Shape.parts).map Shape.ownIds).sum
  | [], plans, h => by
    cases h
    rfl
  | s :: ss, plans, h => by
    rw [List.mapM_cons] at h
    obtain ⟨plan, hplan, h⟩ := except_bind_ok h
    obtain ⟨plans', hplans', h⟩ := except_bind_ok h
    cases h
    rw [List.map_cons, List.sum_cons, ids_of_ofShape hplan, ids_of_ofAll hplans', List.flatMap_cons, List.map_append,
      List.sum_append]

end Plan

namespace Shape

mutual

/-- What occurs in a part occurs in the whole. -/
theorem parts_trans : ∀ {s q : Shape}, q ∈ s.parts → q.parts ⊆ s.parts
  | .null ty, q, h => by
    rw [parts] at h
    rw [List.mem_singleton.1 h]
    exact List.Subset.refl _
  | .constant value, q, h => by
    rw [parts] at h
    rw [List.mem_singleton.1 h]
    exact List.Subset.refl _
  | .object owner fields, q, h => by
    rw [parts, List.mem_cons] at h
    rcases h with rfl | h
    · exact List.Subset.refl _
    · rw [parts]
      exact List.subset_cons_of_subset _ (partsOfFields_trans h)
  | .array element elements, q, h => by
    rw [parts, List.mem_cons] at h
    rcases h with rfl | h
    · exact List.Subset.refl _
    · rw [parts]
      exact List.subset_cons_of_subset _ (partsOfAll_trans h)
  | .staticField field value, q, h => by
    rw [parts, List.mem_cons] at h
    rcases h with rfl | h
    · exact List.Subset.refl _
    · rw [parts]
      exact List.subset_cons_of_subset _ (parts_trans h)

theorem partsOfFields_trans : ∀ {fields : List (FieldRef × Shape)} {q : Shape}, q ∈ partsOfFields fields →
    q.parts ⊆ partsOfFields fields
  | [], q, h => by
    rw [partsOfFields] at h
    cases h
  | (field, value) :: rest, q, h => by
    rw [partsOfFields] at h ⊢
    rcases List.mem_append.1 h with h | h
    · exact List.subset_append_of_subset_left _ (parts_trans h)
    · exact List.subset_append_of_subset_right _ (partsOfFields_trans h)

theorem partsOfAll_trans : ∀ {ss : List Shape} {q : Shape}, q ∈ partsOfAll ss → q.parts ⊆ partsOfAll ss
  | [], q, h => by
    rw [partsOfAll] at h
    cases h
  | s :: rest, q, h => by
    rw [partsOfAll] at h ⊢
    rcases List.mem_append.1 h with h | h
    · exact List.subset_append_of_subset_left _ (parts_trans h)
    · exact List.subset_append_of_subset_right _ (partsOfAll_trans h)

end

theorem offence?_eq_none {q : Shape} :
    q.offence? = none ↔ (∀ element elements, q ≠ .array element elements) ∧
      ∀ field value, q = .staticField field value → field.isStatic = true := by
  cases q <;> simp [offence?]

end Shape

/-! ## The whole test -/

namespace Plan

open Draft (Spends)

theorem materialize_ty {plan : Plan} {d d' : Draft} {r : Reference} (h : plan.materialize d = .ok r d') :
    r.ty = plan.ty := by
  obtain ⟨-, as, hwritten⟩ := (materialize_spends plan d).ok h
  exact hwritten.ty

theorem materializeAll_spends : ∀ (plans : List Plan) (d : Draft),
    Spends d (plans.map ids).sum (fun _ t => ∃ as, Writes [] d.test t as ∧ as.length = (plans.map statements).sum)
      (plans.mapM materialize)
  | [], d => .of_ok rfl rfl ⟨[], .nil (Nat.le_refl _) rfl, rfl⟩
  | plan :: plans, d => by
    rw [List.mapM_cons]
    refine (materialize_spends plan d).bind ?_
    rintro r d₁ - ⟨as, hwritten⟩
    refine (materializeAll_spends plans d₁).bind (l := 0) ?_
    rintro rs d₂ - ⟨bs, hwrites, hlength⟩
    refine .of_ok rfl rfl ⟨as ++ bs, hwritten.toWrites.append hwrites (List.forall_mem_nil _), ?_⟩
    rw [List.length_append, hwritten.length, hlength, List.map_cons, List.sum_cons]

theorem materializeInputs_spends (plans : Inputs Plan) (d : Draft) :
    Spends d (plans.toList.map ids).sum
      (fun _ t => ∃ as, Writes [] d.test t as ∧ as.length = (plans.toList.map statements).sum)
      (plans.mapM materialize) := by
  have hlist := materializeAll_spends plans.toList d
  rw [← Inputs.toList_mapM] at hlist
  exact hlist.of_map

end Plan

def Method.complaint? {α : Type} (m : Method) (p : Inputs α) : Option Fault.Unbuildable :=
  if p.arguments.length ≠ m.sig.params.length then some (.arity m p.arguments.length)
  else if m.isConstructor || m.isStatic || p.receiver.isSome then none
  else some (.noReceiver m)

theorem Method.complaint?_eq_none {α : Type} {m : Method} {p : Inputs α} :
    m.complaint? p = none ↔ p.arguments.length = m.sig.params.length ∧
      (m.isConstructor = true ∨ m.isStatic = true ∨ p.receiver.isSome = true) := by
  unfold complaint?
  split
  · simp_all
  · split <;> simp_all [or_assoc]

theorem Inputs.SameShape.complaint? {α β : Type} {p : Inputs α} {q : Inputs β} (h : p.SameShape q) (m : Method) :
    m.complaint? q = m.complaint? p := by
  rw [Method.complaint?, Method.complaint?, h.1, h.2]

/-- **The call under test**: it is refused for what is wrong with it, and else it takes one id. -/
theorem Draft.call_outcome (m : Method) (refs : Inputs Reference) (d : Draft) :
    match m.complaint? refs with
    | some c => Draft.call m refs d = .error (.fault (.unbuildable c)) d
    | none => Spends d 1 (fun _ t => ∃ result,
        t.actions = d.test.actions ++ [m.calling result (m.receiverOf refs) refs.arguments]) (Draft.call m refs) := by
  -- whichever form the call has, it is one statement for a new variable
  have hdefine : ∀ (ty : Ty) (act : Reference → Action), (∀ r, (act r).result = r) →
      Spends d 1 (fun _ t => ∃ result, t.actions = d.test.actions ++ [act result])
        (fresh (fun id => .var id ty) >>= fun r => push (act r)) := by
    intro ty act hact
    have hspends : Spends d (1 + 0) (fun _ t => ∃ result, t.actions = d.test.actions ++ [act result])
        (fresh (fun id => .var id ty) >>= fun r => push (act r) >>= fun _ => pure ()) :=
      spends_define (fun _ => rfl) hact fun d₁ _ hacts => .of_ok rfl rfl ⟨_, hacts⟩
    simpa using hspends
  unfold Method.complaint? Draft.call Method.calling Method.receiverOf
  by_cases harity : refs.arguments.length = m.sig.params.length
  · by_cases hc : m.isConstructor = true
    · simpa [harity, hc] using hdefine _ (fun r => .construct r m.ref refs.arguments) fun _ => rfl
    by_cases hs : m.isStatic = true
    · simpa [harity, hc, hs] using hdefine _ (fun r => .call r none m.ref refs.arguments) fun _ => rfl
    cases hr : refs.receiver with
    | none =>
      simp [harity, hc, hs]
      rfl
    | some receiver => simpa [harity, hc, hs] using hdefine _ (fun r => .call r receiver m.ref refs.arguments) fun _ => rfl
  · simp [harity]
    rfl

namespace Inputs

/-- **Inputs without an offence have plans**, and else the first offence is reported. -/
theorem mapM_ofShape_settles (p : Inputs Shape) :
    Settles (p.mapM Plan.ofShape) (p.parts.findSome? Shape.offence?) := by
  have hlist := Plan.ofAll_settles p.toList
  rw [← toList_mapM] at hlist
  exact hlist.of_map

theorem ids_of_mapM_ofShape {p : Inputs Shape} {plans : Inputs Plan} (h : p.mapM Plan.ofShape = .ok plans) :
    (plans.toList.map Plan.ids).sum = (p.parts.map Shape.ownIds).sum := by
  refine Plan.ids_of_ofAll ?_
  rw [← toList_mapM, h]
  rfl

/-- What occurs in inputs without an offence has a plan, and a reference, of its own type. -/
theorem planned_of_mem_parts {p : Inputs Shape} (hparts : p.parts.findSome? Shape.offence? = none) {q : Shape}
    (hq : q ∈ p.parts) : ∃ plan, Plan.ofShape q = .ok plan ∧ plan.ty = q.ty ∧
      ∀ d r d', plan.materialize d = .ok r d' → r.ty = q.ty := by
  obtain ⟨s, hs, hq⟩ := List.mem_flatMap.1 hq
  have hfine : q.parts.findSome? Shape.offence? = none := by
    rw [List.findSome?_eq_none_iff] at hparts ⊢
    exact fun q' hq' => hparts q' (List.mem_flatMap.2 ⟨s, hs, Shape.parts_trans hq hq'⟩)
  have hsettles := Plan.ofShape_settles q
  rw [hfine] at hsettles
  obtain ⟨plan, hplan⟩ := hsettles
  have hty := Plan.ty_of_ofShape hplan
  exact ⟨plan, hplan, hty, fun d r d' hmat => (Plan.materialize_ty hmat).trans hty⟩

end Inputs

/-- **A test that was built from solved inputs.**  It has the statements of the plans and then the call of the method, with
an argument for each parameter.  Plans and references have the types of the values they are for, and so has the plan of
everything that occurs in them. -/
def Test.BuiltFrom (t : Test) (m : Method) (p : Inputs Shape) : Prop :=
  ∃ plans refs d d' result,
    p.mapM Plan.ofShape = .ok plans ∧ d.test = {} ∧ plans.mapM Plan.materialize d = .ok refs d' ∧
    t.actions = d'.test.actions ++ [m.calling result (m.receiverOf refs) refs.arguments] ∧
    t.actions.length = 1 + (plans.toList.map Plan.statements).sum ∧ refs.arguments.length = m.sig.params.length ∧
    plans.toList.map Plan.ty = p.toList.map Shape.ty ∧ refs.toList.map Reference.ty = p.toList.map Shape.ty ∧
    ∀ q ∈ p.parts, ∃ plan, Plan.ofShape q = .ok plan ∧ plan.ty = q.ty ∧
      ∀ d r d', plan.materialize d = .ok r d' → r.ty = q.ty

/-- **What building a test comes to.** -/
inductive BuildOutcome (m : Method) (p : Inputs Shape) : Except Stop Test → Prop
  | unplannable (o : Fault.Unplannable) (h : p.parts.findSome? Shape.offence? = some o) :
      BuildOutcome m p (.error (.fault (.unplannable o)))
  | exhausted (h : Test.lastId.toNat ≤ (p.parts.map Shape.ownIds).sum) : BuildOutcome m p (.error .idsExhausted)
  | unbuildable (c : Fault.Unbuildable) (hparts : p.parts.findSome? Shape.offence? = none)
      (h : m.complaint? p = some c) : BuildOutcome m p (.error (.fault (.unbuildable c)))
  | built (t : Test) (hparts : p.parts.findSome? Shape.offence? = none) (hcall : m.complaint? p = none)
      (h : t.BuiltFrom m p) : BuildOutcome m p (.ok t)

namespace Method

theorem buildTest_of_plans {m : Method} {p : Inputs Shape} {plans : Inputs Plan} (h : p.mapM Plan.ofShape = .ok plans) :
    ∃ d : Draft, d.test = {} ∧ (m.buildTest p).1 =
      match Draft.callOn m plans d with
      | .ok _ d' => .ok d'.test
      | .error e _ => .error e := by
  unfold buildTest
  rw [h]
  simp only [EStateM.run]
  generalize hd : (Draft.mk {} _ : Draft) = d
  refine ⟨d, by rw [← hd], ?_⟩
  cases Draft.callOn m plans d <;> rfl

theorem buildTest_outcome (m : Method) (p : Inputs Shape) : BuildOutcome m p (m.buildTest p).1 := by
  have hsettles := p.mapM_ofShape_settles
  cases hparts : p.parts.findSome? Shape.offence? with
  | some o =>
    rw [hparts] at hsettles
    have hbuild : (m.buildTest p).1 = .error (.fault (.unplannable o)) := by
      rw [buildTest, show p.mapM Plan.ofShape = .error (.unplannable o) from hsettles]
    rw [hbuild]
    exact .unplannable o hparts
  | none =>
    rw [hparts] at hsettles
    obtain ⟨plans, hplans⟩ := hsettles
    obtain ⟨hplanTypes, hplanShape⟩ := Inputs.mapM_except_map (fun _ _ => Plan.ty_of_ofShape) hplans
    have hids := Inputs.ids_of_mapM_ofShape hplans
    obtain ⟨d, hd, hbuild⟩ := buildTest_of_plans (m := m) hplans
    have hstart : d.test.nextRef.toNat = 0 := by rw [hd]; rfl
    obtain ⟨hok, herror⟩ := Plan.materializeInputs_spends plans d
    rw [hstart, Nat.zero_add, hids] at hok herror
    rw [hbuild]
    rcases Nat.lt_or_ge Test.lastId.toNat (p.parts.map Shape.ownIds).sum with hlt | hle
    · obtain ⟨d', hrun⟩ := herror hlt
      rw [Draft.callOn, bind_of_error _ hrun]
      exact .exhausted (Nat.le_of_lt hlt)
    obtain ⟨refs, d₁, hrun, hnext, as, hwrites, hlength⟩ := hok hle
    obtain ⟨hrefTypes, hrefShape⟩ := Inputs.mapM_state_map (f := Plan.materialize) (fun _ _ _ _ => Plan.materialize_ty) hrun
    have hcall := Draft.call_outcome m refs d₁
    rw [hrefShape.complaint?, hplanShape.complaint?] at hcall
    rw [Draft.callOn, bind_of_ok _ hrun]
    cases hcomplaint : m.complaint? p with
    | some c =>
      rw [hcomplaint] at hcall
      rw [show Draft.call m refs d₁ = _ from hcall]
      exact .unbuildable c hparts hcomplaint
    | none =>
      rw [hcomplaint] at hcall
      obtain ⟨hdone, hexhausted⟩ := hcall
      rw [hnext] at hdone hexhausted
      rcases Nat.lt_or_ge Test.lastId.toNat ((p.parts.map Shape.ownIds).sum + 1) with hlt | hle'
      · obtain ⟨d', hrun'⟩ := hexhausted hlt
        rw [hrun']
        exact .exhausted (Nat.le_of_lt_succ hlt)
      · obtain ⟨⟨⟩, d', hrun', -, result, hacts⟩ := hdone hle'
        rw [hrun']
        refine .built _ hparts hcomplaint ⟨plans, refs, d, d₁, result, hplans, hd, hrun, hacts, ?_, ?_, hplanTypes, ?_, ?_⟩
        · rw [hacts, hwrites.actions, hd, List.nil_append, List.length_append, hlength, Nat.add_comm]
          rfl
        · rw [hrefShape.2, hplanShape.2]
          exact (complaint?_eq_none.1 hcomplaint).1
        · rw [hrefTypes, hplanTypes]
        · exact fun q hq => Inputs.planned_of_mem_parts hparts hq

/-- **Exactly which solved inputs a test can be built from.**  As long as the ids do not run out, which they do not below
four billion of them, a test is built if and only if no array and no field wrongly given as static occurs in the inputs,
there is an argument for each parameter, and a receiver where one is needed.  A failure reports the first offence in the
order of a depth-first walk, and only without one what is wrong with the call. -/
theorem buildTest_exactly (m : Method) (p : Inputs Shape) :
    ((p.parts.map Shape.ownIds).sum < Test.lastId.toNat → (m.buildTest p).1 ≠ .error .idsExhausted) ∧
    ((m.buildTest p).1 ≠ .error .idsExhausted →
      ((∃ t, (m.buildTest p).1 = .ok t) ↔
        (∀ q ∈ p.parts, (∀ element elements, q ≠ .array element elements) ∧
          ∀ field value, q = .staticField field value → field.isStatic = true) ∧
        p.arguments.length = m.sig.params.length ∧
        (m.isConstructor = true ∨ m.isStatic = true ∨ p.receiver.isSome = true)) ∧
      (∀ e, (m.buildTest p).1 = .error e →
        (∃ o, p.parts.findSome? Shape.offence? = some o ∧ e = .fault (.unplannable o)) ∨
        p.parts.findSome? Shape.offence? = none ∧ ∃ c, m.complaint? p = some c ∧ e = .fault (.unbuildable c)) ∧
      ∀ t, (m.buildTest p).1 = .ok t → t.BuiltFrom m p) := by
  have hfine : p.parts.findSome? Shape.offence? = none ↔
      ∀ q ∈ p.parts, (∀ element elements, q ≠ .array element elements) ∧
        ∀ field value, q = .staticField field value → field.isStatic = true := by
    rw [List.findSome?_eq_none_iff]
    exact forall₂_congr fun q _ => Shape.offence?_eq_none
  rw [← hfine, ← complaint?_eq_none]
  have houtcome := buildTest_outcome m p
  generalize (m.buildTest p).1 = x at houtcome
  cases houtcome with
  | unplannable o h => simp [h]
  | exhausted h => exact ⟨fun hlt => absurd h (Nat.not_le.2 hlt), fun hne => absurd rfl hne⟩
  | unbuildable c hparts h => simp [hparts, h]
  | built t hparts hcall h => simpa [hparts, hcall] using h

/-- `Account.move` on too few arguments and two values without a plan.  The account's home is given as static, which it
is not, and has an array in it; the argument is an array as well. -/
def strandedInputs : Inputs Shape where
  receiver := some (.object ⟨"Account", false⟩
    [(⟨"Account", "balance", .int, false⟩, .constant (.scalar (.int 5))),
     (⟨"Account", "home", .object "Bank", false⟩,
      .staticField ⟨"Account", "home", .object "Bank", false⟩ (.array .int []))])
  arguments := [.array (.object "Bank") [.null (.object "Bank")]]

/-- The inputs of `Rebuild` can be built from.  The stranded ones cannot, and of their faults the first is reported. -/
theorem buildTest_exactly_move :
    (∃ t, (moveMethod.buildTest moveInputs).1 = .ok t ∧ t.BuiltFrom moveMethod moveInputs) ∧
    (moveMethod.buildTest strandedInputs).1 =
      .error (.fault (.unplannable (.notStatic ⟨"Account", "home", .object "Bank", false⟩))) := by
  constructor
  · obtain ⟨hsmall, hexactly⟩ := buildTest_exactly moveMethod moveInputs
    obtain ⟨hiff, -, hbuilt⟩ := hexactly (hsmall (by decide +kernel))
    obtain ⟨t, ht⟩ := hiff.2 ⟨by simp [moveInputs, Inputs.parts, Inputs.toList, Shape.parts, Shape.partsOfFields],
      by decide, by decide⟩
    exact ⟨t, ht, hbuilt t ht⟩
  · obtain ⟨hsmall, hexactly⟩ := buildTest_exactly moveMethod strandedInputs
    obtain ⟨hiff, hfails, -⟩ := hexactly (hsmall (by decide +kernel))
    have hfirst : strandedInputs.parts.findSome? Shape.offence? =
        some (.notStatic ⟨"Account", "home", .object "Bank", false⟩) := by decide +kernel
    cases h : (moveMethod.buildTest strandedInputs).1 with
    | ok t =>
      have harity := (hiff.1 ⟨t, h⟩).2.1
      exact absurd harity (by decide)
    | error e =>
      rcases hfails e h with ⟨o, ho, rfl⟩ | ⟨hnone, -⟩
      · rw [hfirst] at ho
        cases ho
        rfl
      · rw [hfirst] at hnone
        cases hnone

end Method

end Retrace
