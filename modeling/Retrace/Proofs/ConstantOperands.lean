import Retrace.Proofs.Segments
/-!
# Constant operands — actions on constants can be recorded

A literal, a store to a static field and a call can be recorded if their operands stand for constants (`Cache.Stands`)
and their results are not bound yet, and the terms of the operands are these constants.  Operands are looked up one
after the other, which may bind those that are inline; that leaves the others alone, as long as no two of them share an
id.
-/
namespace Retrace

open Cache (Consults Extends)

/-! ## References that stand for constants -/

namespace Cache

variable {cat : Catalog} {c c' : Cache} {r : Reference} {k : Constant} {x : Handle}

/-- **A reference stands for a constant**: it is bound to it, or not bound and that constant inline. -/
def Stands (cat : Catalog) (c : Cache) (r : Reference) (k : Constant) : Prop :=
  (∃ x, c.lookup r.id = some x ∧ c.valueAt? x = some (.constant k)) ∨
    (c.lookup r.id = none ∧ r.inlineConstant cat = .ok k)

def Holds (c : Cache) (x : Handle) (k : Constant) : Prop := c.valueAt? x = some (.constant k)

/-- Looking up other references changes nothing about what this one stands for. -/
theorem Stands.consults {rs : List Reference} (h : c.Stands cat r k) (hcon : Consults cat rs c c')
    (hrs : ∀ q ∈ rs, q.id = r.id → q = r) : c'.Stands cat r k := by
  rcases h with ⟨x, hx, hv⟩ | ⟨hnone, hk⟩
  · exact .inl ⟨x, hcon.lookup hx, hcon.valueAt? hv⟩
  · cases hx : c'.lookup r.id with
    | none => exact .inr ⟨hx, hk⟩
    | some x =>
      obtain ⟨q, hq, k', hid, hk', hv⟩ := hcon.lookup_new hnone hx
      obtain rfl := hrs q hq hid
      rw [hk] at hk'
      cases hk'
      exact .inl ⟨x, hx, hv⟩

theorem stand_consults {qs rs : List Reference} {ks : List Constant} (h : List.Forall₂ (c.Stands cat) rs ks)
    (hcon : Consults cat qs c c') (hqs : ∀ q ∈ qs, ∀ r ∈ rs, q.id = r.id → q = r) :
    List.Forall₂ (c'.Stands cat) rs ks :=
  ((List.forall₂_and_left _ _).2 ⟨fun _ hr => hr, h⟩).imp fun r _ ⟨hr, hstands⟩ =>
    hstands.consults hcon fun q hq => hqs q hq r hr

theorem valueOf_stands (hc : c.Wf) (h : c.Stands cat r k) :
    ∃ x c', valueOf cat r c = .ok x c' ∧ Consults cat [r] c c' ∧ c'.Holds x k := by
  have hok : ∃ x c', valueOf cat r c = .ok x c' := by
    unfold valueOf
    rcases h with ⟨x, hx, -⟩ | ⟨hnone, hk⟩
    · exact ⟨x, c, by rw [hx]⟩
    · exact ⟨_, _, by rw [hnone, hk]⟩
  obtain ⟨x, c', hvalue⟩ := hok
  obtain ⟨hcon, hx⟩ := valueOf_ok hc hvalue
  refine ⟨x, c', hvalue, hcon, ?_⟩
  rcases h.consults hcon (fun q hq _ => List.mem_singleton.1 hq) with ⟨y, hy, hv⟩ | ⟨hnone, -⟩
  · rw [hx] at hy
    cases hy
    exact hv
  · rw [hx] at hnone
    cases hnone

theorem termOf_constant (cat : Catalog) (hc : c.Wf) (hv : c.Holds x k) :
    ∃ c', termOf x c = .ok (.const k) c' ∧ Consults cat [] c c' := by
  obtain ⟨t, c', hterm, hcon, ht⟩ := termOf_ok cat hc hv
  obtain rfl := hcon.wf.fits (hcon.valueAt? hv) t ht
  exact ⟨c', hterm, hcon⟩

end Cache

namespace Recording

variable {cat : Catalog} {c : Cache}

theorem operands_stand : ∀ {rs : List Reference} {ks : List Constant} {c : Cache}, c.Wf → Distinct rs →
    List.Forall₂ (c.Stands cat) rs ks →
    ∃ xs c', operands cat rs c = .ok xs c' ∧ Consults cat rs c c' ∧ List.Forall₂ c'.Holds xs ks
  | [], _, c, hc, _, .nil => ⟨[], c, rfl, .refl _ hc, .nil⟩
  | r :: rs, k :: ks, c, hc, hrs, .cons hr hstand => by
    obtain ⟨x, c₁, hx, hcon, hv⟩ := Cache.valueOf_stands hc hr
    have hstand₁ : List.Forall₂ (c₁.Stands cat) rs ks := Cache.stand_consults hstand hcon fun p hp q hq => by
      rw [List.mem_singleton.1 hp]
      exact hrs r List.mem_cons_self q (List.mem_cons_of_mem _ hq)
    have hrs₁ : Distinct rs := fun p hp q hq => hrs p (List.mem_cons_of_mem _ hp) q (List.mem_cons_of_mem _ hq)
    obtain ⟨xs, c₂, hxs, hcons, hvs⟩ := operands_stand hcon.wf hrs₁ hstand₁
    refine ⟨x :: xs, c₂, ?_, (hcon.mono (by simp)).trans (hcons.mono (by simp)), .cons (hcons.valueAt? hv) hvs⟩
    rw [operands, bind_of_ok _ hx, bind_of_ok _ hxs]
    rfl

theorem optional_stand {given : Option Reference} {receiver : Option Constant} (hc : c.Wf)
    (h : List.Forall₂ (c.Stands cat) given.toList receiver.toList) :
    ∃ o c', optional cat given c = .ok o c' ∧ Consults cat given.toList c c' ∧ o.isSome = given.isSome ∧
      List.Forall₂ c'.Holds o.toList receiver.toList := by
  cases given with
  | none => exact ⟨none, c, rfl, .refl _ hc, rfl, by simpa using h⟩
  | some r =>
    obtain ⟨k, hk⟩ : ∃ k, receiver = some k := by
      cases receiver with
      | none => cases h
      | some k => exact ⟨k, rfl⟩
    subst hk
    obtain ⟨x, c', hx, hcon, hv⟩ := Cache.valueOf_stands hc (List.forall₂_cons.1 h).1
    exact ⟨some x, c', bind_of_ok (fun x => pure (some x)) hx, hcon, rfl, .cons hv .nil⟩

/-- A call whose receiver is given exactly if it needs one is made on that. -/
theorem callReceiver_given {kind : CallKind} {m : Method} {o : Option Handle} (h : o.isSome = kind.needsReceiver) :
    callReceiver kind m o c = .ok o c := by
  unfold callReceiver
  cases o with
  | none => rw [← h]; rfl
  | some x => rw [← h]; rfl

theorem callResult_new {result : Reference} {m : Method} (hc : c.Wf) (hnew : c.lookup result.id = none) :
    ∃ lhs c', callResult result m m.isVoid c = .ok lhs c' ∧ Extends c c' ∧ c'.Wf ∧ (lhs = none ↔ m.isVoid = true) := by
  unfold callResult
  cases m.isVoid with
  | true => exact ⟨none, c, rfl, .refl c, hc, by simp⟩
  | false =>
    let v : Value := .named result.name m.sig.ret
    refine ⟨some (Cache.termFor c.names v).1, c.withResult result.id v, ?_, hc.extends_withResult _ hnew,
      hc.withResult _ hnew, by simp⟩
    rw [if_neg Bool.false_ne_true, bind_of_ok _ (Cache.register_new hc v hnew)]
    rfl

theorem optionalTerm_constant (cat : Catalog) {o : Option Handle} {receiver : Option Constant} (hc : c.Wf)
    (h : List.Forall₂ c.Holds o.toList receiver.toList) :
    ∃ c', optionalTerm o c = .ok (receiver.map .const) c' ∧ Consults cat [] c c' := by
  cases o with
  | none =>
    cases receiver with
    | none => exact ⟨c, rfl, .refl _ hc⟩
    | some k => cases h
  | some x =>
    cases receiver with
    | none => cases h
    | some k =>
      obtain ⟨c', hterm, hcon⟩ := Cache.termOf_constant cat hc (List.forall₂_cons.1 h).1
      exact ⟨c', bind_of_ok (fun t => pure (some t)) hterm, hcon⟩

theorem terms_constant (cat : Catalog) : ∀ {xs : List Handle} {ks : List Constant} {c : Cache}, c.Wf →
    List.Forall₂ c.Holds xs ks → ∃ c', terms xs c = .ok (ks.map .const) c' ∧ Consults cat [] c c'
  | [], _, c, hc, .nil => ⟨c, rfl, .refl _ hc⟩
  | x :: xs, k :: ks, c, hc, .cons hv hvs => by
    obtain ⟨c₁, hterm, hcon⟩ := Cache.termOf_constant cat hc hv
    obtain ⟨c₂, hterms, hcons⟩ := terms_constant cat hcon.wf (hvs.imp fun _ _ hv => hcon.valueAt? hv)
    refine ⟨c₂, ?_, hcon.trans hcons⟩
    rw [terms, bind_of_ok _ hterm, bind_of_ok _ hterms]
    rfl

end Recording

/-! ## The actions of a drafted test -/

/-- A static field holds a constant from now on. -/
def Predicate.staticStore (field : Field) (k : Constant) : Predicate :=
  .store (.field (.staticOf field.owner) field.ty field.name) (.const k)

namespace Action

variable {cat : Catalog} {c : Cache}

theorem recording_literal (hc : c.Wf) {result : Reference} {value : Literal} {k : Constant}
    (hk : value.toConstant result.ty cat = .ok k) (hnew : c.lookup result.id = none) :
    (literal result value).recording cat c = .ok .nothing (c.withResult result.id (.constant k)) := by
  rw [recording, Recording.ofLiteral, hk]
  simp only [Recording.answer, pure_bind]
  rw [bind_of_ok _ (Cache.register_new hc (.constant k) hnew)]
  rfl

theorem recording_store (hc : c.Wf) (id : RefId) (ty : Ty) {ref : FieldRef} {field : Field} {value : Reference}
    {k : Constant} (hfield : cat.resolveField ref = .ok field) (hstatic : field.isStatic = true)
    (hvalue : c.Stands cat value k) :
    ∃ cl c', (assign (.staticField id ty ref) value).recording cat c = .ok (.clause cl) c' ∧
      cl.predicate = .staticStore field k ∧ Consults cat [value] c c' := by
  obtain ⟨x, c₁, hx, hcon, hv⟩ := Cache.valueOf_stands hc hvalue
  obtain ⟨c₂, hterm, hcons⟩ := Cache.termOf_constant cat hcon.wf hv
  refine ⟨⟨.fieldStore field none x, .staticStore field k⟩, c₂, ?_, rfl, hcon.trans (hcons.mono (List.nil_subset _))⟩
  rw [recording, Recording.ofAssign, bind_of_ok _ hx, bind_of_ok _ hterm]
  simp only [Recording.ofFieldWrite, hfield, Recording.answer, Recording.optional, Recording.fieldOwner, hstatic, if_true,
    Recording.place, pure_bind]
  rfl

/-- **A call on constants is recorded**, on a receiver exactly if its method is not static. -/
theorem recording_call (hc : c.Wf) {m : Method} (hm : m.isConstructor = false)
    (hresolve : cat.resolveMethod m.ref = .ok m) {result : Reference} {given : Option Reference} {args : List Reference}
    {receiver : Option Constant} {ks : List Constant} (hgiven : given.isSome = !m.isStatic)
    (hrs : Distinct (given.toList ++ args)) (hreceiver : List.Forall₂ (c.Stands cat) given.toList receiver.toList)
    (hargs : List.Forall₂ (c.Stands cat) args ks) (hnew : c.lookup result.id = none)
    (hother : ∀ q ∈ given.toList ++ args, q.id ≠ result.id) :
    ∃ p c' lhs, (call result given m.ref args).recording cat c = .ok (.call p) c' ∧
      p.predicate = .call lhs (.call ((receiver.map .const).getD (.staticOf m.owner)) m (ks.map .const)) ∧
      (lhs = none ↔ m.isVoid = true) := by
  obtain ⟨o, c₁, ho, hcon₁, hsome, hv⟩ := Recording.optional_stand hc hreceiver
  -- looking up the receiver leaves the arguments alone
  have hargs₁ : List.Forall₂ (c₁.Stands cat) args ks := Cache.stand_consults hargs hcon₁ fun p hp q hq =>
    hrs p (List.mem_append_left _ hp) q (List.mem_append_right _ hq)
  have hrs₁ : Distinct args := fun p hp q hq => hrs p (List.mem_append_right _ hp) q (List.mem_append_right _ hq)
  obtain ⟨xs, c₂, hxs, hcon₂, hvs⟩ := Recording.operands_stand hcon₁.wf hrs₁ hargs₁
  have hcon : Consults cat (given.toList ++ args) c c₂ :=
    (hcon₁.mono (List.subset_append_left _ _)).trans (hcon₂.mono (List.subset_append_right _ _))
  obtain ⟨form, hform⟩ : ∃ form, Dispatch.ofMethod m = .ok form := by
    unfold Dispatch.ofMethod Dispatch.select
    cases m.isStatic <;> cases m.owner.isInterface <;> simp [hm]
  obtain ⟨hvoid, hkind⟩ := Dispatch.ofMethod_ok hform
  have hcallee : Recording.callReceiver form.kind m o c₂ = .ok o c₂ :=
    Recording.callReceiver_given (by rw [hsome, hkind, hgiven])
  have hnew₂ : c₂.lookup result.id = none := hcon.lookup_none hnew hother
  obtain ⟨lhs, c₃, hlhs, hext, hwf₃, hiff⟩ := Recording.callResult_new (m := m) hcon.wf hnew₂
  obtain ⟨c₄, hterm, hcon₄⟩ := Recording.optionalTerm_constant cat hwf₃
    (hv.imp fun _ _ hv => hext.valueAt? (hcon₂.valueAt? hv))
  obtain ⟨c₅, hterms, -⟩ := Recording.terms_constant cat hcon₄.wf
    (hvs.imp fun _ _ hv => hcon₄.valueAt? (hext.valueAt? hv))
  let p : PendingCall := {
    instruction := .call form.kind m (if m.isVoid then none else some result.name) o xs
    method := m
    result := lhs
    inputs := { receiver := receiver.map .const, arguments := ks.map .const }
    predicate := .call lhs (.call ((receiver.map .const).getD (.staticOf m.owner)) m (ks.map .const)) }
  refine ⟨p, c₅, lhs, ?_, rfl, hiff⟩
  rw [recording, Recording.ofCall, hresolve]
  simp only [Recording.answer, pure_bind]
  rw [bind_of_ok _ ho, bind_of_ok _ hxs, hform]
  simp only [pure_bind]
  rw [bind_of_ok _ hcallee, hvoid, bind_of_ok _ hlhs, bind_of_ok _ hterm, bind_of_ok _ hterms]
  rfl

end Action

end Retrace
