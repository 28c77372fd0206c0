import Retrace.Proofs.ConstantOperands
/-!
# Lockstep — one action, recorded over two tables

Instrumented code that asks for a term may bind an inline constant before any action does.  A table it was asked of has
more values than one it was not, in another order, so that handles differ; but it shadows the other one
(`Cache.Shadows`): all that the other has it has too, under the same names, and what it has besides are inline constants
that were asked for.

An action is recorded over both in lockstep (`Action.recording_lockstep`): it is refused with the same fault, or
recorded with the same predicate, and one table goes on shadowing the other.  This takes that an operand which was asked
for before is the same reference, and that the result was not asked for.
-/
namespace Retrace

open Cache (Consults Extends)

/-! ## Two computations in step -/

/-- **Two computations in step**: both fail with the same fault, or both succeed, with results and states so related. -/
inductive InStep {ε σ α β : Type} (Q : α → β → σ → σ → Prop) : EStateM.Result ε σ α → EStateM.Result ε σ β → Prop
  | failed (e : ε) (s s' : σ) : InStep Q (.error e s) (.error e s')
  | done {a : α} {b : β} {s s' : σ} (h : Q a b s s') : InStep Q (.ok a s) (.ok b s')

namespace InStep

variable {ε σ α β γ δ : Type} {s s' : σ}

theorem bind {x : EStateM ε σ α} {y : EStateM ε σ β} {f : α → EStateM ε σ γ} {g : β → EStateM ε σ δ}
    {Q : α → β → σ → σ → Prop} {R : γ → δ → σ → σ → Prop} (h : InStep Q (x s) (y s'))
    (hnext : ∀ a b t t', Q a b t t' → InStep R (f a t) (g b t')) : InStep R ((x >>= f) s) ((y >>= g) s') := by
  generalize hx : x s = rx at h
  generalize hy : y s' = ry at h
  cases h with
  | failed e t t' =>
    rw [bind_of_error _ hx, bind_of_error _ hy]
    exact .failed e t t'
  | done hQ =>
    rw [bind_of_ok _ hx, bind_of_ok _ hy]
    exact hnext _ _ _ _ hQ

end InStep

namespace Cache

variable {cat : Catalog} {qs : List Reference} {c d c' d' c'' d'' : Cache} {x y : Handle}

/-! ## A table that shadows another -/

theorem Extends.lookup_none_before (h : Extends c c') {id : RefId} (hnone : c'.lookup id = none) : c.lookup id = none := by
  cases hx : c.lookup id with
  | none => rfl
  | some x =>
    rw [h.lookup hx] at hnone
    cases hnone

/-- **Two handles that come to the same**: the same constant stands behind both, or the same unknown with the same
term. -/
inductive Alike (c d : Cache) (x y : Handle) : Prop
  | constant (k : Constant) (hx : c.Holds x k) (hy : d.Holds y k)
  | named (name : String) (ty : Ty) (t : Term) (hx : c.valueAt? x = some (.named name ty))
      (hy : d.valueAt? y = some (.named name ty)) (ht : c.termAt? x = some t) (ht' : d.termAt? y = some t)

theorem Alike.mono (h : Alike c d x y) (hc : Extends c c') (hd : Extends d d') : Alike c' d' x y := by
  cases h with
  | constant k hx hy => exact .constant k (hc.valueAt? hx) (hd.valueAt? hy)
  | named name ty t hx hy ht ht' =>
    exact .named name ty t (hc.valueAt? hx) (hd.valueAt? hy) (hc.termAt? ht) (hd.termAt? ht')

theorem Alike.value (h : Alike c d x y) : ∃ v, c.valueAt? x = some v ∧ d.valueAt? y = some v := by
  cases h with
  | constant k hx hy => exact ⟨_, hx, hy⟩
  | named name ty t hx hy => exact ⟨_, hx, hy⟩

/-- **The table `d` shadows the table `c`**: what is bound in `c` is bound in `d` to the same, as many names were given
out, and what is bound in `d` alone are inline constants of `qs`. -/
structure Shadows (cat : Catalog) (qs : List Reference) (c d : Cache) : Prop where
  wf : c.Wf
  wf' : d.Wf
  names : d.names = c.names
  kept : ∀ {id x}, c.lookup id = some x → ∃ y, d.lookup id = some y ∧ Alike c d x y
  extra : ∀ {id y}, c.lookup id = none → d.lookup id = some y →
    ∃ q ∈ qs, ∃ k, q.id = id ∧ q.inlineConstant cat = .ok k ∧ d.Holds y k

theorem shadows_empty : Shadows cat qs {} {} :=
  ⟨wf_empty, wf_empty, rfl, fun h => (nomatch h), fun _ h => (nomatch h)⟩

/-- Asking more of the second table adds to what it may have besides. -/
theorem Shadows.asked {rs : List Reference} (h : Shadows cat qs c d) (hcon : Consults cat rs d d') :
    Shadows cat (qs ++ rs) c d' := by
  refine ⟨h.wf, hcon.wf, hcon.names.trans h.names, fun {id x} hx => ?_, fun {id y} hnone hy => ?_⟩
  · obtain ⟨y, hy, halike⟩ := h.kept hx
    exact ⟨y, hcon.lookup hy, halike.mono (.refl c) hcon.toExtends⟩
  · cases hd : d.lookup id with
    | none =>
      obtain ⟨q, hq, k, hid, hk, hv⟩ := hcon.lookup_new hd hy
      exact ⟨q, List.mem_append_right qs hq, k, hid, hk, hv⟩
    | some y' =>
      obtain ⟨q, hq, k, hid, hk, hv⟩ := h.extra hnone hd
      obtain rfl := hcon.lookup_eq hd hy
      exact ⟨q, List.mem_append_left rs hq, k, hid, hk, hcon.valueAt? hv⟩

structure Onward (cat : Catalog) (qs : List Reference) (c d c' d' : Cache) : Prop where
  left : Extends c c'
  right : Extends d d'
  shadows : Shadows cat qs c' d'

namespace Onward

theorem refl (h : Shadows cat qs c d) : Onward cat qs c d c d := ⟨.refl c, .refl d, h⟩

theorem trans (h : Onward cat qs c d c' d') (h' : Onward cat qs c' d' c'' d'') : Onward cat qs c d c'' d'' :=
  ⟨h.left.trans h'.left, h.right.trans h'.right, h'.shadows⟩

theorem alike (h : Onward cat qs c d c' d') (hxy : Alike c d x y) : Alike c' d' x y := hxy.mono h.left h.right

theorem alike_option (h : Onward cat qs c d c' d') {o o' : Option Handle} (ho : Option.Rel (Alike c d) o o') :
    Option.Rel (Alike c' d') o o' := by
  cases ho with
  | none => exact .none
  | some hxy => exact .some (h.alike hxy)

end Onward

/-- Both tables are consulted for the same references, which come to the same in the end. -/
theorem Shadows.consults {rs : List Reference} (h : Shadows cat qs c d) (hc : Consults cat rs c c')
    (hd : Consults cat rs d d')
    (hrs : ∀ r ∈ rs, ∃ x y, c'.lookup r.id = some x ∧ d'.lookup r.id = some y ∧ Alike c' d' x y) :
    Onward cat qs c d c' d' := by
  refine ⟨hc.toExtends, hd.toExtends, hc.wf, hd.wf, ?_, fun {id x} hx => ?_, fun {id y} hnone hy => ?_⟩
  · rw [hd.names, hc.names, h.names]
  · cases hold : c.lookup id with
    | some x' =>
      obtain ⟨y, hy, halike⟩ := h.kept hold
      obtain rfl := hc.lookup_eq hold hx
      exact ⟨y, hd.lookup hy, halike.mono hc.toExtends hd.toExtends⟩
    | none =>
      obtain ⟨r, hr, -, rfl, -⟩ := hc.lookup_new hold hx
      obtain ⟨x', y, hx', hy, halike⟩ := hrs r hr
      rw [hx] at hx'
      cases hx'
      exact ⟨y, hy, halike⟩
  · have hold := hc.lookup_none_before hnone
    cases hold' : d.lookup id with
    | some y' =>
      obtain ⟨q, hq, k, hid, hk, hv⟩ := h.extra hold hold'
      obtain rfl := hd.lookup_eq hold' hy
      exact ⟨q, hq, k, hid, hk, hd.valueAt? hv⟩
    | none =>
      obtain ⟨r, hr, -, rfl, -⟩ := hd.lookup_new hold' hy
      obtain ⟨x, -, hx, -⟩ := hrs r hr
      rw [hx] at hnone
      cases hnone

/-! ## The operations, in step -/

/-- A lookup fails only for a reference that is not bound and has no inline constant. -/
theorem valueOf_refused {r : Reference} {e : Fault} (h : valueOf cat r c = .error e c') :
    c.lookup r.id = none ∧ r.inlineConstant cat = .error e := by
  unfold valueOf at h
  split at h
  · cases h
  · rename_i hnone
    split at h
    · rename_i e' he
      cases h
      exact ⟨hnone, he⟩
    · cases h

theorem valueOf_of_inline {r : Reference} {k : Constant} (hk : r.inlineConstant cat = .ok k) :
    ∃ x c', valueOf cat r c = .ok x c' := by
  unfold valueOf
  cases c.lookup r.id with
  | some x => exact ⟨x, c, rfl⟩
  | none => exact ⟨_, _, by rw [hk]⟩

/-- What a reference that was not bound is bound to now is its inline constant. -/
theorem Consults.holds_new {r : Reference} (hcon : Consults cat [r] c c') (hnone : c.lookup r.id = none)
    (hx : c'.lookup r.id = some x) : ∃ k, r.inlineConstant cat = .ok k ∧ c'.Holds x k := by
  obtain ⟨q, hq, k, -, hk, hv⟩ := hcon.lookup_new hnone hx
  rw [List.mem_singleton.1 hq] at hk
  exact ⟨k, hk, hv⟩

/-- A binding of an operand that only the second table has is to the constant of the operand itself. -/
theorem Shadows.extra_operand (h : Shadows cat qs c d) {r : Reference} (hr : ∀ q ∈ qs, q.id = r.id → q = r)
    (hnone : c.lookup r.id = none) (hy : d.lookup r.id = some y) : ∃ k, r.inlineConstant cat = .ok k ∧ d.Holds y k := by
  obtain ⟨q, hq, k, hid, hk, hv⟩ := h.extra hnone hy
  rw [hr q hq hid] at hk
  exact ⟨k, hk, hv⟩

/-- An operand that both tables were consulted for comes to the same in both. -/
theorem Shadows.alike_operand (h : Shadows cat qs c d) {r : Reference} (hr : ∀ q ∈ qs, q.id = r.id → q = r)
    (hcon : Consults cat [r] c c') (hcon' : Consults cat [r] d d') (hx : c'.lookup r.id = some x)
    (hy : d'.lookup r.id = some y) : Alike c' d' x y := by
  cases hold : c.lookup r.id with
  | some x' =>
    obtain ⟨y', hy', halike⟩ := h.kept hold
    obtain rfl := hcon.lookup_eq hold hx
    obtain rfl := hcon'.lookup_eq hy' hy
    exact halike.mono hcon.toExtends hcon'.toExtends
  | none =>
    obtain ⟨k, hk, hv⟩ := hcon.holds_new hold hx
    have hsecond : ∃ k, r.inlineConstant cat = .ok k ∧ d'.Holds y k := by
      cases hold' : d.lookup r.id with
      | none => exact hcon'.holds_new hold' hy
      | some y' =>
        obtain ⟨k', hk', hv'⟩ := h.extra_operand hr hold hold'
        obtain rfl := hcon'.lookup_eq hold' hy
        exact ⟨k', hk', hcon'.valueAt? hv'⟩
    obtain ⟨k', hk', hv'⟩ := hsecond
    rw [hk] at hk'
    cases hk'
    exact .constant k hv hv'

/-- **The handles of an operand come to the same**, also if it was asked for before, as the same reference. -/
theorem valueOf_lockstep (h : Shadows cat qs c d) {r : Reference} (hr : ∀ q ∈ qs, q.id = r.id → q = r) :
    InStep (fun x y c' d' => Onward cat qs c d c' d' ∧ Alike c' d' x y) (valueOf cat r c) (valueOf cat r d) := by
  cases hvalue : valueOf cat r c with
  | error e c' =>
    obtain ⟨hnone, herror⟩ := valueOf_refused hvalue
    have hnone' : d.lookup r.id = none := by
      cases hy : d.lookup r.id with
      | none => rfl
      | some y =>
        obtain ⟨k, hk, -⟩ := h.extra_operand hr hnone hy
        rw [herror] at hk
        cases hk
    rw [valueOf, hnone', herror]
    exact .failed e c' d
  | ok x c' =>
    obtain ⟨hcon, hx⟩ := valueOf_ok h.wf hvalue
    have hsucceeds : ∃ y d', valueOf cat r d = .ok y d' := by
      cases hold : c.lookup r.id with
      | some x' =>
        obtain ⟨y, hy, -⟩ := h.kept hold
        exact ⟨y, d, by rw [valueOf, hy]⟩
      | none =>
        obtain ⟨k, hk, -⟩ := hcon.holds_new hold hx
        exact valueOf_of_inline hk
    obtain ⟨y, d', hvalue'⟩ := hsucceeds
    obtain ⟨hcon', hy⟩ := valueOf_ok h.wf' hvalue'
    have halike := h.alike_operand hr hcon hcon' hx hy
    rw [hvalue']
    refine .done ⟨h.consults hcon hcon' (List.forall_mem_singleton.2 ⟨x, y, hx, hy, halike⟩), halike⟩

/-- **The terms of handles that come to the same are equal.** -/
theorem termOf_lockstep (h : Shadows cat qs c d) (hxy : Alike c d x y) :
    InStep (fun t t' c' d' => Onward cat qs c d c' d' ∧ t = t') (termOf x c) (termOf y d) := by
  cases hxy with
  | constant k hx hy =>
    obtain ⟨c', ht, hcon⟩ := termOf_constant cat h.wf hx
    obtain ⟨d', ht', hcon'⟩ := termOf_constant cat h.wf' hy
    rw [ht, ht']
    exact .done ⟨h.consults hcon hcon' (List.forall_mem_nil _), rfl⟩
  | named name ty t hx hy ht ht' =>
    rw [termOf_made ht, termOf_made ht']
    exact .done ⟨.refl h, rfl⟩

theorem tyOf_lockstep (h : Shadows cat qs c d) (hxy : Alike c d x y) :
    InStep (fun ty ty' c' d' => Onward cat qs c d c' d' ∧ ty = ty') (tyOf x c) (tyOf y d) := by
  obtain ⟨v, hx, hy⟩ := hxy.value
  rw [tyOf, tyOf, hx, hy]
  exact .done ⟨.refl h, rfl⟩

/-- Binding a result in both tables. -/
theorem Shadows.withResult (h : Shadows cat qs c d) {id : RefId} (v : Value) (hx : c.lookup id = none)
    (hy : d.lookup id = none) : Onward cat qs c d (c.withResult id v) (d.withResult id v) := by
  have hext := h.wf.extends_withResult v hx
  have hext' := h.wf'.extends_withResult v hy
  obtain ⟨hlook, hval⟩ := h.wf.lookup_withResult v hx
  obtain ⟨hlook', hval'⟩ := h.wf'.lookup_withResult v hy
  have halike : Alike (c.withResult id v) (d.withResult id v) (handleAt c.size) (handleAt d.size) := by
    cases v with
    | constant k => exact .constant k hval hval'
    | named name ty =>
      refine .named name ty (termFor c.names (.named name ty)).1 hval hval' (h.wf.termAt?_withResult _ hx) ?_
      rw [h.wf'.termAt?_withResult _ hy, h.names]
  refine ⟨hext, hext', h.wf.withResult v hx, h.wf'.withResult v hy, ?_, fun {i x} hi => ?_, fun {i y} hnone hi => ?_⟩
  · show (termFor d.names v).2 = (termFor c.names v).2
    rw [h.names]
  · cases hold : c.lookup i with
    | some x' =>
      obtain ⟨y, hy', halike'⟩ := h.kept hold
      obtain rfl := hext.lookup_eq hold hi
      exact ⟨y, hext'.lookup hy', halike'.mono hext hext'⟩
    | none =>
      obtain rfl := eq_of_lookup_withResult hold hi
      rw [hlook] at hi
      cases hi
      exact ⟨_, hlook', halike⟩
  · have hold := hext.lookup_none_before hnone
    cases hold' : d.lookup i with
    | none =>
      rw [eq_of_lookup_withResult hold' hi, hlook] at hnone
      cases hnone
    | some y' =>
      obtain ⟨q, hq, k, hqid, hk, hv⟩ := h.extra hold hold'
      obtain rfl := hext'.lookup_eq hold' hi
      exact ⟨q, hq, k, hqid, hk, hext'.valueAt? hv⟩

/-- **A result gets the same term**, if it was not asked for before. -/
theorem register_lockstep (h : Shadows cat qs c d) {id : RefId} (v : Value) (hid : ∀ q ∈ qs, q.id ≠ id) :
    InStep (fun p p' c' d' => Onward cat qs c d c' d' ∧ p.2 = p'.2) (register id v c) (register id v d) := by
  cases hx : c.lookup id with
  | some x =>
    obtain ⟨y, hy, -⟩ := h.kept hx
    rw [register, register, hx, hy]
    exact .failed _ c d
  | none =>
    have hy : d.lookup id = none := by
      cases hy : d.lookup id with
      | none => rfl
      | some y =>
        obtain ⟨q, hq, -, heq, -⟩ := h.extra hx hy
        exact absurd heq (hid q hq)
    rw [register_new h.wf v hx, register_new h.wf' v hy, h.names]
    exact .done ⟨h.withResult v hx hy, rfl⟩

end Cache

namespace Recording

open Cache (Alike Shadows Onward)

variable {cat : Catalog} {qs : List Reference} {c d : Cache}

/-! ## The parts of a translation, in step -/

theorem answer_lockstep {α : Type} (h : Shadows cat qs c d) (x : Except Fault α) :
    InStep (fun a b c' d' => Onward cat qs c d c' d' ∧ a = b) (answer x c) (answer x d) := by
  cases x with
  | ok a => exact .done ⟨.refl h, rfl⟩
  | error e => exact .failed e c d

theorem optional_lockstep (h : Shadows cat qs c d) {source : Option Reference}
    (hs : ∀ r ∈ source.toList, ∀ q ∈ qs, q.id = r.id → q = r) :
    InStep (fun o o' c' d' => Onward cat qs c d c' d' ∧ Option.Rel (Alike c' d') o o')
      (optional cat source c) (optional cat source d) := by
  cases source with
  | none => exact .done ⟨.refl h, .none⟩
  | some r =>
    refine (Cache.valueOf_lockstep h (hs r List.mem_cons_self)).bind fun x y c' d' hxy => ?_
    exact .done ⟨hxy.1, .some hxy.2⟩

theorem operands_lockstep : ∀ {rs : List Reference} {c d : Cache}, Shadows cat qs c d →
    (∀ r ∈ rs, ∀ q ∈ qs, q.id = r.id → q = r) →
    InStep (fun xs ys c' d' => Onward cat qs c d c' d' ∧ List.Forall₂ (Alike c' d') xs ys)
      (operands cat rs c) (operands cat rs d)
  | [], _, _, h, _ => .done ⟨.refl h, .nil⟩
  | r :: rs, c, d, h, hrs => by
    obtain ⟨hr, hrest⟩ := List.forall_mem_cons.1 hrs
    refine (Cache.valueOf_lockstep h hr).bind fun x y c₁ d₁ ⟨hon, hxy⟩ => ?_
    refine (operands_lockstep hon.shadows hrest).bind fun xs ys c₂ d₂ ⟨hon', hxys⟩ => ?_
    exact .done ⟨hon.trans hon', .cons (hon'.alike hxy) hxys⟩

theorem terms_lockstep : ∀ {xs ys : List Handle} {c d : Cache}, Shadows cat qs c d → List.Forall₂ (Alike c d) xs ys →
    InStep (fun ts ts' c' d' => Onward cat qs c d c' d' ∧ ts = ts') (terms xs c) (terms ys d)
  | [], [], _, _, h, .nil => .done ⟨.refl h, rfl⟩
  | x :: xs, y :: ys, c, d, h, .cons hxy hxys => by
    refine (Cache.termOf_lockstep h hxy).bind fun t t' c₁ d₁ ⟨hon, ht⟩ => ?_
    refine (terms_lockstep hon.shadows (hxys.imp fun _ _ => hon.alike)).bind fun ts ts' c₂ d₂ ⟨hon', hts⟩ => ?_
    exact .done ⟨hon.trans hon', by rw [ht, hts]⟩

theorem fieldOwner_lockstep (h : Shadows cat qs c d) (field : Field) {o o' : Option Handle}
    (ho : Option.Rel (Alike c d) o o') (missing : Fault.Invariant) :
    InStep (fun o o' c' d' => Onward cat qs c d c' d' ∧ Option.Rel (Alike c' d') o o')
      (fieldOwner field o missing c) (fieldOwner field o' missing d) := by
  unfold fieldOwner
  cases field.isStatic with
  | true => exact .done ⟨.refl h, .none⟩
  | false =>
    cases ho with
    | none => exact .failed _ c d
    | some hxy => exact .done ⟨.refl h, .some hxy⟩

theorem callReceiver_lockstep (h : Shadows cat qs c d) (kind : CallKind) (method : Method) {o o' : Option Handle}
    (ho : Option.Rel (Alike c d) o o') :
    InStep (fun o o' c' d' => Onward cat qs c d c' d' ∧ Option.Rel (Alike c' d') o o')
      (callReceiver kind method o c) (callReceiver kind method o' d) := by
  unfold callReceiver
  cases kind.needsReceiver with
  | false => exact .done ⟨.refl h, .none⟩
  | true =>
    cases ho with
    | none => exact .failed _ c d
    | some hxy => exact .done ⟨.refl h, .some hxy⟩

theorem optionalTerm_lockstep (h : Shadows cat qs c d) {o o' : Option Handle} (ho : Option.Rel (Alike c d) o o') :
    InStep (fun t t' c' d' => Onward cat qs c d c' d' ∧ t = t') (optionalTerm o c) (optionalTerm o' d) := by
  cases ho with
  | none => exact .done ⟨.refl h, rfl⟩
  | some hxy =>
    refine (Cache.termOf_lockstep h hxy).bind fun t t' c' d' ⟨hon, ht⟩ => ?_
    exact .done ⟨hon, congrArg some ht⟩

theorem place_lockstep (h : Shadows cat qs c d) (field : Field) {o o' : Option Handle}
    (ho : Option.Rel (Alike c d) o o') :
    InStep (fun t t' c' d' => Onward cat qs c d c' d' ∧ t = t') (place field o c) (place field o' d) := by
  cases ho with
  | none => exact .done ⟨.refl h, rfl⟩
  | some hxy =>
    refine (Cache.termOf_lockstep h hxy).bind fun t t' c' d' ⟨hon, ht⟩ => ?_
    exact .done ⟨hon, congrArg (Term.field · field.ty field.name) ht⟩

theorem callResult_lockstep (h : Shadows cat qs c d) {result : Reference} (method : Method) (isVoid : Bool)
    (hresult : ∀ q ∈ qs, q.id ≠ result.id) :
    InStep (fun t t' c' d' => Onward cat qs c d c' d' ∧ t = t')
      (callResult result method isVoid c) (callResult result method isVoid d) := by
  unfold callResult
  cases isVoid with
  | true => exact .done ⟨.refl h, rfl⟩
  | false =>
    refine (Cache.register_lockstep h _ hresult).bind fun p p' c' d' ⟨hon, ht⟩ => ?_
    exact .done ⟨hon, congrArg some ht⟩

/-! ## The actions, one by one -/

/-- Two recordings with the same predicate, over tables of which one shadows the other. -/
def SamePredicate (cat : Catalog) (qs : List Reference) (rec rec' : Recording) (c d : Cache) : Prop :=
  rec.clause?.map (·.predicate) = rec'.clause?.map (·.predicate) ∧ Shadows cat qs c d

theorem ofFieldRead_lockstep (h : Shadows cat qs c d) {result : Reference} {source : Option Reference} (ref : FieldRef)
    (hs : ∀ r ∈ source.toList, ∀ q ∈ qs, q.id = r.id → q = r) (hresult : ∀ q ∈ qs, q.id ≠ result.id) :
    InStep (SamePredicate cat qs) (ofFieldRead cat result source ref c) (ofFieldRead cat result source ref d) := by
  refine (answer_lockstep h _).bind fun field _ c₁ d₁ ⟨hon₁, hfield⟩ => ?_
  subst hfield
  refine (optional_lockstep hon₁.shadows hs).bind fun o o' c₂ d₂ ⟨hon₂, ho⟩ => ?_
  refine (fieldOwner_lockstep hon₂.shadows field ho _).bind fun o o' c₃ d₃ ⟨hon₃, ho⟩ => ?_
  refine (Cache.register_lockstep hon₃.shadows _ hresult).bind fun p p' c₄ d₄ ⟨hon₄, hp⟩ => ?_
  refine (place_lockstep hon₄.shadows field (hon₄.alike_option ho)).bind fun t t' c₅ d₅ ⟨hon₅, ht⟩ => ?_
  subst ht
  exact .done ⟨by rw [hp]; rfl, hon₅.shadows⟩

theorem ofFieldWrite_lockstep (h : Shadows cat qs c d) {source : Option Reference} (ref : FieldRef) {x y : Handle}
    (t : Term) (hs : ∀ r ∈ source.toList, ∀ q ∈ qs, q.id = r.id → q = r) :
    InStep (SamePredicate cat qs) (ofFieldWrite cat source ref x t c) (ofFieldWrite cat source ref y t d) := by
  refine (answer_lockstep h _).bind fun field _ c₁ d₁ ⟨hon₁, hfield⟩ => ?_
  subst hfield
  refine (optional_lockstep hon₁.shadows hs).bind fun o o' c₂ d₂ ⟨hon₂, ho⟩ => ?_
  refine (fieldOwner_lockstep hon₂.shadows field ho _).bind fun o o' c₃ d₃ ⟨hon₃, ho⟩ => ?_
  refine (place_lockstep hon₃.shadows field ho).bind fun place place' c₄ d₄ ⟨hon₄, hplace⟩ => ?_
  subst hplace
  exact .done ⟨rfl, hon₄.shadows⟩

theorem ofAssign_lockstep (h : Shadows cat qs c d) {target value : Reference}
    (hops : ∀ r ∈ (Action.assign target value).operands, ∀ q ∈ qs, q.id = r.id → q = r) :
    InStep (SamePredicate cat qs) (ofAssign cat target value c) (ofAssign cat target value d) := by
  have hvalue : value ∈ (Action.assign target value).operands := by cases target <;> exact List.mem_cons_self
  refine (Cache.valueOf_lockstep h (hops value hvalue)).bind fun x y c₁ d₁ ⟨hon₁, hxy⟩ => ?_
  refine (Cache.termOf_lockstep hon₁.shadows hxy).bind fun t t' c₂ d₂ ⟨hon₂, ht⟩ => ?_
  subst ht
  cases target with
  | staticField id ty ref => exact ofFieldWrite_lockstep hon₂.shadows ref t (List.forall_mem_nil _)
  | instanceField id ty source ref =>
    exact ofFieldWrite_lockstep hon₂.shadows ref t fun r hr => hops r (List.mem_cons_of_mem value hr)
  | _ => exact .failed _ c₂ d₂

theorem bindThenTerms_lockstep (h : Shadows cat qs c d) {id : RefId} (v : Value) {l l' r r' : Handle}
    {yield yield' : Term → Term → Term → Recording} (hid : ∀ q ∈ qs, q.id ≠ id) (hl : Alike c d l l')
    (hr : Alike c d r r') (hyield : ∀ t lt rt,
      (yield t lt rt).clause?.map (·.predicate) = (yield' t lt rt).clause?.map (·.predicate)) :
    InStep (SamePredicate cat qs) (bindThenTerms id v l r yield c) (bindThenTerms id v l' r' yield' d) := by
  refine (Cache.register_lockstep h v hid).bind fun p p' c₁ d₁ ⟨hon₁, hp⟩ => ?_
  refine (Cache.termOf_lockstep hon₁.shadows (hon₁.alike hl)).bind fun lt lt' c₂ d₂ ⟨hon₂, hlt⟩ => ?_
  refine (Cache.termOf_lockstep hon₂.shadows (hon₂.alike (hon₁.alike hr))).bind fun rt rt' c₃ d₃ ⟨hon₃, hrt⟩ => ?_
  subst hlt
  subst hrt
  exact .done ⟨by rw [hp]; exact hyield _ lt rt, hon₃.shadows⟩

theorem ofCompute_lockstep (h : Shadows cat qs c d) {result lhs rhs : Reference} (op : Operator)
    (hops : ∀ r ∈ [lhs, rhs], ∀ q ∈ qs, q.id = r.id → q = r) (hresult : ∀ q ∈ qs, q.id ≠ result.id) :
    InStep (SamePredicate cat qs) (ofCompute cat result lhs op rhs c) (ofCompute cat result lhs op rhs d) := by
  obtain ⟨hlhs, hrhs⟩ := List.forall_mem_cons.1 hops
  rw [List.forall_mem_singleton] at hrhs
  cases ho : op.opcode with
  | arith o =>
    rw [ofCompute_arith ho]
    refine (Cache.valueOf_lockstep h hlhs).bind fun l l' c₁ d₁ ⟨hon₁, hl⟩ => ?_
    refine (Cache.valueOf_lockstep hon₁.shadows hrhs).bind fun r r' c₂ d₂ ⟨hon₂, hr⟩ => ?_
    refine (Cache.tyOf_lockstep hon₂.shadows (hon₂.alike hl)).bind fun ty ty' c₃ d₃ ⟨hon₃, hty⟩ => ?_
    subst hty
    exact bindThenTerms_lockstep hon₃.shadows _ hresult (hon₃.alike (hon₂.alike hl)) (hon₃.alike hr) fun _ _ _ => rfl
  | rel o =>
    rw [ofCompute_rel ho]
    refine (Cache.valueOf_lockstep h hlhs).bind fun l l' c₁ d₁ ⟨hon₁, hl⟩ => ?_
    refine (Cache.valueOf_lockstep hon₁.shadows hrhs).bind fun r r' c₂ d₂ ⟨hon₂, hr⟩ => ?_
    exact bindThenTerms_lockstep hon₂.shadows _ hresult (hon₂.alike hl) hr fun _ _ _ => rfl

theorem ofLiteral_lockstep (h : Shadows cat qs c d) {result : Reference} (value : Literal)
    (hresult : ∀ q ∈ qs, q.id ≠ result.id) :
    InStep (SamePredicate cat qs) (ofLiteral cat result value c) (ofLiteral cat result value d) := by
  refine (answer_lockstep h _).bind fun k _ c₁ d₁ ⟨hon₁, hk⟩ => ?_
  subst hk
  refine (Cache.register_lockstep hon₁.shadows _ hresult).bind fun _ _ c₂ d₂ ⟨hon₂, _⟩ => ?_
  exact .done ⟨rfl, hon₂.shadows⟩

theorem ofCall_lockstep (h : Shadows cat qs c d) {result : Reference} {given : Option Reference} (ref : MethodRef)
    {args : List Reference} (hops : ∀ r ∈ given.toList ++ args, ∀ q ∈ qs, q.id = r.id → q = r)
    (hresult : ∀ q ∈ qs, q.id ≠ result.id) :
    InStep (SamePredicate cat qs) (ofCall cat result given ref args c) (ofCall cat result given ref args d) := by
  obtain ⟨hgiven, hargs⟩ := List.forall_mem_append.1 hops
  refine (answer_lockstep h _).bind fun method _ c₁ d₁ ⟨hon₁, hmethod⟩ => ?_
  subst hmethod
  refine (optional_lockstep hon₁.shadows hgiven).bind fun o o' c₂ d₂ ⟨hon₂, ho⟩ => ?_
  refine (operands_lockstep hon₂.shadows hargs).bind fun xs ys c₃ d₃ ⟨hon₃, hxys⟩ => ?_
  refine (answer_lockstep hon₃.shadows _).bind fun form _ c₄ d₄ ⟨hon₄, hform⟩ => ?_
  subst hform
  refine (callReceiver_lockstep hon₄.shadows form.kind method ((hon₃.trans hon₄).alike_option ho)).bind
    fun o o' c₅ d₅ ⟨hon₅, ho⟩ => ?_
  refine (callResult_lockstep hon₅.shadows method form.isVoid hresult).bind fun t t' c₆ d₆ ⟨hon₆, ht⟩ => ?_
  refine (optionalTerm_lockstep hon₆.shadows (hon₆.alike_option ho)).bind fun rt rt' c₇ d₇ ⟨hon₇, hrt⟩ => ?_
  have hxys₇ : List.Forall₂ (Alike c₇ d₇) xs ys :=
    hxys.imp fun _ _ => (((hon₄.trans hon₅).trans hon₆).trans hon₇).alike
  refine (terms_lockstep hon₇.shadows hxys₇).bind fun ts ts' c₈ d₈ ⟨hon₈, hts⟩ => ?_
  subst ht
  subst hrt
  subst hts
  exact .done ⟨rfl, hon₈.shadows⟩

end Recording

/-- **An action is recorded over two tables in lockstep**, if what was asked for agrees with its operands and is not its
result. -/
theorem Action.recording_lockstep {cat : Catalog} {qs : List Reference} {c d : Cache} (h : Cache.Shadows cat qs c d)
    (a : Action) (hops : ∀ r ∈ a.operands, ∀ q ∈ qs, q.id = r.id → q = r) (hresult : ∀ q ∈ qs, q.id ≠ a.result.id) :
    InStep (Recording.SamePredicate cat qs) (a.recording cat c) (a.recording cat d) := by
  cases a with
  | fieldRead result source ref => exact Recording.ofFieldRead_lockstep h ref hops hresult
  | assign target value => exact Recording.ofAssign_lockstep h hops
  | compute result lhs op rhs => exact Recording.ofCompute_lockstep h op hops hresult
  | literal result value => exact Recording.ofLiteral_lockstep h value hresult
  | call result receiver ref args => exact Recording.ofCall_lockstep h ref hops hresult
  | construct result ref args => exact .failed _ c d
  | newArray result length => exact .failed _ c d
  | mock result target => exact .failed _ c d

end Retrace
