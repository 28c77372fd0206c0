import Retrace.Proofs.ConstantOperands
import Retrace.Proofs.Literals
import Retrace.Proofs.Rebuild
/-!
# Replay — a drafted test, recorded again

A test that was drafted for constants can be recorded, and says what it was drafted for.  Literals and stores to static
fields come first, part by part, and then the call.

Ids keep the parts of the test apart: whatever a part binds has an id that was free before it (`Echoes`).  So a result is
never bound already, and a reference goes on standing for its constant while later parts are recorded.
-/
namespace Retrace

open Cache (Extends)

/-! ## Recording one action after the other -/

/-- **Actions that can all be recorded**, one after the other, with the predicates of their clauses. -/
inductive Records (cat : Catalog) : List Action → Cache → List Predicate → Cache → Prop
  | nil (c : Cache) : Records cat [] c [] c
  | cons {a : Action} {actions : List Action} {rec : Recording} {predicates : List Predicate} {c c₁ c₂ : Cache}
      (hrec : a.recording cat c = .ok rec c₁) (hrest : Records cat actions c₁ predicates c₂) :
      Records cat (a :: actions) c (rec.clause?.toList.map (·.predicate) ++ predicates) c₂

namespace Records

variable {cat : Catalog} {a : Action} {rec : Recording} {c c₁ c₂ : Cache}

theorem single (h : a.recording cat c = .ok rec c₁) :
    Records cat [a] c (rec.clause?.toList.map (·.predicate)) c₁ := by
  have := Records.cons h (.nil c₁)
  rwa [List.append_nil] at this

theorem append {as bs : List Action} {ps qs : List Predicate} (h : Records cat as c ps c₁)
    (h' : Records cat bs c₁ qs c₂) : Records cat (as ++ bs) c (ps ++ qs) c₂ := by
  induction h with
  | nil c => exact h'
  | cons hrec _ ih =>
    rw [List.append_assoc]
    exact .cons hrec (ih h')

end Records

namespace Recorder

/-- A turn whose body asks nothing adds the clause of its action, if that can be recorded. -/
theorem turn_quiet {r : Recorder} (hr : r.Ready) {t : Turn} (hbody : t.body = []) {rec : Recording} {c : Cache}
    (hrec : t.action.recording r.catalog r.cache = .ok rec c) :
    ∃ answers r', turn t r = .ok answers r' ∧ r'.catalog = r.catalog ∧ r'.cache = c ∧ r'.Ready ∧
      r'.trace = r.trace ++ rec.clause?.toList := by
  have hbefore := before_ready hr t.action
  rw [hrec] at hbefore
  simp only at hbefore
  generalize hr₁ : ({ r with
    cache := c, trace := r.trace ++ rec.early, position := r.position + 1, phase := .recording,
    journal := r.journal ++ .recording r.position t.action :: rec.early.map .committed } : Recorder) = r₁ at hbefore
  obtain ⟨journal, hafter⟩ := after_recording (r := r₁) (by rw [← hr₁]) ⟨r.position, rec.pending?⟩ t.thrown
  have hturn : turn t r = (after ⟨r.position, rec.pending?⟩ t.thrown >>= fun _ => pure []) r₁ := by
    rw [turn, recordAction, hbody, bind_of_ok _ hbefore]
    rfl
  rw [bind_of_ok _ hafter] at hturn
  refine ⟨[], _, hturn, by rw [← hr₁], by rw [← hr₁], .inr rfl, ?_⟩
  rw [← rec.early_append_late, ← List.append_assoc, ← hr₁]
  rfl

/-- **Turns on actions that can be recorded are all accepted**, if their bodies ask nothing, however they end. -/
theorem turns_quiet : ∀ (ts : List Turn) {r : Recorder} {predicates : List Predicate} {c : Cache}, r.Ready →
    (∀ t ∈ ts, t.body = []) → Records r.catalog (ts.map Turn.action) r.cache predicates c →
    r.accepted ts = ts ∧ (r.turns ts).trace.map (·.predicate) = r.trace.map (·.predicate) ++ predicates
  | [], r, _, _, _, _, .nil _ => ⟨rfl, (List.append_nil _).symm⟩
  | t :: ts, r, _, _, hr, hquiet, .cons hrec hrest => by
    rw [List.forall_mem_cons] at hquiet
    obtain ⟨answers, r', hturn, hcat, rfl, hr', htrace'⟩ := turn_quiet hr hquiet.1 hrec
    rw [← hcat] at hrest
    obtain ⟨haccepted, htrace⟩ := turns_quiet ts hr' hquiet.2 hrest
    rw [accepted, turns_cons, hturn]
    refine ⟨congrArg (t :: ·) haccepted, htrace.trans ?_⟩
    rw [htrace', List.map_append, List.append_assoc]

end Recorder

/-! ## What the parts of a test echo -/

/-- Only ids that a test has taken are bound. -/
def Cache.Below (c : Cache) (t : Test) : Prop := ∀ id x, c.lookup id = some x → id.val.toNat < t.nextRef.toNat

/-- An id that a test has taken since it was `t`. -/
def RefId.Taken (t t' : Test) (id : RefId) : Prop :=
  t.nextRef.toNat ≤ id.val.toNat ∧ id.val.toNat < t'.nextRef.toNat

/-- **A part of a test, recorded.**  All its actions can be recorded, with these predicates, and what they bind has an id
that the part has taken. -/
structure Echoes (cat : Catalog) (t t' : Test) (c c' : Cache) (predicates : List Predicate) : Prop
    extends Extends c c' where
  wf : c'.Wf
  run : ∃ actions, t'.actions = t.actions ++ actions ∧ Records cat actions c predicates c'
  ids : t.nextRef.toNat ≤ t'.nextRef.toNat
  new : ∀ {id x}, c.lookup id = none → c'.lookup id = some x → id.Taken t t'

namespace Echoes

variable {cat : Catalog} {t t₁ t₂ : Test} {c c₁ c₂ : Cache} {ps qs : List Predicate}

theorem refl (hc : c.Wf) (h : t₁.actions = t.actions) (hids : t.nextRef.toNat ≤ t₁.nextRef.toNat) :
    Echoes cat t t₁ c c [] :=
  ⟨.refl c, hc, ⟨[], by rw [h, List.append_nil], .nil c⟩, hids, fun hnone hx => by rw [hx] at hnone; cases hnone⟩

theorem trans (h : Echoes cat t t₁ c c₁ ps) (h' : Echoes cat t₁ t₂ c₁ c₂ qs) : Echoes cat t t₂ c c₂ (ps ++ qs) := by
  obtain ⟨as, has, hrecords⟩ := h.run
  obtain ⟨bs, hbs, hrecords'⟩ := h'.run
  have hids := h.ids
  have hids' := h'.ids
  refine ⟨h.toExtends.trans h'.toExtends, h'.wf, ⟨as ++ bs, ?_, hrecords.append hrecords'⟩, by omega, ?_⟩
  · rw [hbs, has, List.append_assoc]
  · intro id x hnone hx
    cases hmid : c₁.lookup id with
    | none =>
      obtain ⟨hle, hlt⟩ := h'.new hmid hx
      exact ⟨by omega, hlt⟩
    | some y =>
      obtain ⟨hle, hlt⟩ := h.new hnone hmid
      exact ⟨hle, by omega⟩

theorem below (h : Echoes cat t t₁ c c₁ ps) (hc : c.Below t) : c₁.Below t₁ := by
  intro id x hx
  cases hold : c.lookup id with
  | none => exact (h.new hold hx).2
  | some y => exact Nat.lt_of_lt_of_le (hc id y hold) h.ids

/-- What a reference stood for before the part, it stands for after it. -/
theorem stands (h : Echoes cat t t₁ c c₁ ps) {r : Reference} {k : Constant}
    (hr : r.id.val.toNat < t.nextRef.toNat) (hstands : c.Stands cat r k) : c₁.Stands cat r k := by
  rcases hstands with ⟨x, hx, hv⟩ | ⟨hnone, hk⟩
  · exact .inl ⟨x, h.lookup hx, h.valueAt? hv⟩
  · cases hx : c₁.lookup r.id with
    | none => exact .inr ⟨hx, hk⟩
    | some x =>
      obtain ⟨hle, -⟩ := h.new hnone hx
      omega

theorem stand_all (h : Echoes cat t t₁ c c₁ ps) {rs : List Reference} {ks : List Constant}
    (hrs : ∀ r ∈ rs, r.id.val.toNat < t.nextRef.toNat) (hstand : List.Forall₂ (c.Stands cat) rs ks) :
    List.Forall₂ (c₁.Stands cat) rs ks :=
  ((List.forall₂_and_left _ _).2 ⟨hrs, hstand⟩).imp fun _ _ ⟨hr, hstands⟩ => h.stands hr hstands

end Echoes

/-- **A value that was solved as a constant**: null, or a constant; a method constant is what its reference leads to. -/
inductive Shape.IsConstant (cat : Catalog) : Shape → Constant → Prop
  | null (ty : Ty) : IsConstant cat (.null ty) .null
  | constant (k : Constant) (hk : ∀ m, k = .method m → cat.resolveMethod m.ref = .ok m) :
      IsConstant cat (.constant k) k

/-- **A static field that was solved as a constant**; its reference leads to a field that is static. -/
inductive Shape.StoresConstant (cat : Catalog) : Shape → Field × Constant → Prop
  | staticField {ref : FieldRef} {s : Shape} {field : Field} {k : Constant} (href : ref.isStatic = true)
      (hfield : cat.resolveField ref = .ok field) (hstatic : field.isStatic = true) (hs : s.IsConstant cat k) :
      StoresConstant cat (.staticField ref s) (field, k)

namespace Plan

open Draft (define_ok fresh_ok)

variable {cat : Catalog} {d d' : Draft} {r : Reference} {c : Cache} {k : Constant}

theorem lookup_nextRef (hbelow : c.Below d.test) : c.lookup ⟨d.test.nextRef⟩ = none := by
  cases hx : c.lookup ⟨d.test.nextRef⟩ with
  | none => rfl
  | some x => exact absurd (hbelow _ x hx) (Nat.lt_irrefl _)

theorem null_echoes {ty : Ty} (h : (Plan.null ty).materialize d = .ok r d') (hc : c.Wf) (hbelow : c.Below d.test) :
    ∃ c', Echoes cat d.test d'.test c c' [] ∧ c'.Stands cat r .null ∧ r.id.Taken d.test d'.test := by
  rw [materialize] at h
  obtain ⟨rfl, hacts, hids⟩ := fresh_ok h
  refine ⟨c, .refl hc hacts (by omega), .inr ⟨lookup_nextRef hbelow, rfl⟩, Nat.le_refl _, ?_⟩
  show d.test.nextRef.toNat < d'.test.nextRef.toNat
  omega

theorem literal_echoes {ty : Ty} {l : Literal} (hk : l.toConstant ty cat = .ok k)
    (h : (Plan.literal ty l).materialize d = .ok r d') (hc : c.Wf) (hbelow : c.Below d.test) :
    ∃ c', Echoes cat d.test d'.test c c' [] ∧ c'.Stands cat r k ∧ r.id.Taken d.test d'.test := by
  rw [materialize] at h
  obtain ⟨r₁, d₁, hfresh, h⟩ := bind_ok h
  obtain ⟨⟨⟩, d₂, hpush, h⟩ := bind_ok h
  cases h
  obtain ⟨rfl, hacts, hids⟩ := define_ok (fun _ => rfl) hfresh rfl hpush
  have hnew := lookup_nextRef hbelow
  have htaken : RefId.Taken d.test d'.test ⟨d.test.nextRef⟩ := ⟨Nat.le_refl _, hids ▸ Nat.lt_succ_self _⟩
  have hrec : (Action.literal (.var ⟨d.test.nextRef⟩ ty) l).recording cat c = _ := Action.recording_literal hc hk hnew
  refine ⟨c.withResult ⟨d.test.nextRef⟩ (.constant k), ⟨hc.extends_withResult _ hnew, hc.withResult _ hnew,
    ⟨_, hacts, .single hrec⟩, by omega, fun hnone hx => ?_⟩, .inl ⟨_, hc.lookup_withResult _ hnew⟩, htaken⟩
  rw [Cache.eq_of_lookup_withResult hnone hx]
  exact htaken

/-- **Carrying out the plan of a constant** is recorded without a clause, and the reference stands for the constant. -/
theorem constant_echoes {s : Shape} {plan : Plan} (hs : s.IsConstant cat k) (hplan : ofShape s = .ok plan)
    (h : plan.materialize d = .ok r d') (hc : c.Wf) (hbelow : c.Below d.test) :
    ∃ c', Echoes cat d.test d'.test c c' [] ∧ c'.Stands cat r k ∧ r.id.Taken d.test d'.test := by
  cases hs with
  | null ty =>
    rw [ofShape] at hplan
    cases hplan
    exact null_echoes h hc hbelow
  | constant _ hk =>
    cases k with
    | null =>
      rw [ofShape] at hplan
      cases hplan
      exact null_echoes h hc hbelow
    | scalar | method =>
      obtain ⟨l, hl, rfl⟩ := map_ok hplan
      exact literal_echoes (Literal.toConstant_toLiteral hl (Ty.isKindOf_self _) hk) h hc hbelow

/-- **Carrying out the plan of a static field** is recorded as one store. -/
theorem static_echoes {s : Shape} {plan : Plan} {p : Field × Constant} (hs : s.StoresConstant cat p)
    (hplan : ofShape s = .ok plan) (h : plan.materialize d = .ok r d') (hc : c.Wf) (hbelow : c.Below d.test) :
    ∃ c', Echoes cat d.test d'.test c c' [.staticStore p.1 p.2] ∧ r.id.Taken d.test d'.test := by
  obtain ⟨href, hfield, hstatic, hvalue⟩ := hs
  rw [ofShape, if_pos href] at hplan
  obtain ⟨plan', hplan', rfl⟩ := map_ok hplan
  rw [materialize] at h
  obtain ⟨built, d₁, hbuild, h⟩ := bind_ok h
  obtain ⟨r₁, d₂, hfresh, h⟩ := bind_ok h
  obtain ⟨⟨⟩, d₃, hpush, h⟩ := bind_ok h
  cases h
  obtain ⟨rfl, hacts, hids⟩ := define_ok (fun _ => rfl) hfresh rfl hpush
  obtain ⟨c₁, hecho, hstands, htaken⟩ := constant_echoes hvalue hplan' hbuild hc hbelow
  obtain ⟨cl, c₂, hrec, hcl, hcon⟩ :=
    Action.recording_store hecho.wf ⟨d₁.test.nextRef⟩ _ hfield hstatic hstands
  obtain ⟨acts, hacts₁, hrecords⟩ := hecho.run
  have hnext := hecho.ids
  have hlonger : ∀ {id : RefId}, id.Taken d.test d₁.test → id.Taken d.test d'.test := fun h => ⟨h.1, by
    have := h.2
    omega⟩
  refine ⟨c₂, ⟨hecho.toExtends.trans hcon.toExtends, hcon.wf, ⟨_, by rw [hacts, hacts₁, List.append_assoc], ?_⟩,
    by omega, fun {id x} hnone hx => ?_⟩, hnext, hids ▸ Nat.lt_succ_self _⟩
  · have := hrecords.append (.single hrec)
    rwa [Recording.clause?, Option.toList_some, List.map_singleton, hcl] at this
  · -- the store may bind its value, which is new as well
    cases hmid : c₁.lookup id with
    | some y => exact hlonger (hecho.new hnone hmid)
    | none =>
      obtain ⟨q, hq, -, hid, -⟩ := hcon.lookup_new hmid hx
      rw [← hid, List.mem_singleton.1 hq]
      exact hlonger htaken

/-- **Carrying out plans one after the other**, from what holds of each: `S` says what the reference of each stands for,
and `out` what is recorded. -/
theorem all_echo {β : Type} {R : Shape → β → Prop} {S : Cache → Reference → β → Prop} {out : β → List Predicate}
    (hone : ∀ {s b plan d d' r c}, R s b → ofShape s = .ok plan → plan.materialize d = .ok r d' → c.Wf →
      c.Below d.test → ∃ c', Echoes cat d.test d'.test c c' (out b) ∧ S c' r b ∧ r.id.Taken d.test d'.test)
    (hkeep : ∀ {t t' c c' ps r b}, Echoes cat t t' c c' ps → r.id.val.toNat < t.nextRef.toNat → S c r b →
      S c' r b) :
    ∀ {ss : List Shape} {bs : List β} {plans : List Plan}, List.Forall₂ R ss bs → ss.mapM ofShape = .ok plans →
      ∀ {d d' : Draft} {rs : List Reference} {c : Cache}, plans.mapM materialize d = .ok rs d' → c.Wf →
        c.Below d.test → ∃ c', Echoes cat d.test d'.test c c' (bs.flatMap out) ∧ List.Forall₂ (S c') rs bs ∧
          (∀ r ∈ rs, r.id.Taken d.test d'.test) ∧ (rs.map Reference.id).Nodup
  | [], _, plans, .nil, hplans, d, d', rs, c, h, hc, _ => by
    cases hplans
    cases h
    exact ⟨c, .refl hc rfl (Nat.le_refl _), .nil, List.forall_mem_nil _, List.nodup_nil⟩
  | s :: ss, b :: bs, plans, .cons hs hss, hplans, d, d', rs, c, h, hc, hbelow => by
    rw [List.mapM_cons] at hplans
    obtain ⟨plan, hplan, hplans⟩ := except_bind_ok hplans
    obtain ⟨plans', hplans', hcons⟩ := except_bind_ok hplans
    cases hcons
    rw [List.mapM_cons] at h
    obtain ⟨r, d₁, hr, h₁⟩ := bind_ok h
    obtain ⟨rs', d₂, hrs, h₂⟩ := bind_ok h₁
    cases h₂
    obtain ⟨c₁, hecho, hstands, htaken⟩ := hone hs hplan hr hc hbelow
    obtain ⟨c₂, hechoes, hstand, htakens, hnodup⟩ :=
      all_echo (R := R) (S := S) hone hkeep hss hplans' hrs hecho.wf (hecho.below hbelow)
    have hids := hecho.ids
    have hids' := hechoes.ids
    refine ⟨c₂, hecho.trans hechoes, .cons (hkeep hechoes htaken.2 hstands) hstand, ?_, ?_⟩
    · rw [List.forall_mem_cons]
      refine ⟨⟨htaken.1, Nat.lt_of_lt_of_le htaken.2 hids'⟩, fun q hq => ?_⟩
      exact ⟨Nat.le_trans hids (htakens q hq).1, (htakens q hq).2⟩
    · refine List.nodup_cons.2 ⟨fun hmem => ?_, hnodup⟩
      obtain ⟨q, hq, hid⟩ := List.mem_map.1 hmem
      have hlt := htaken.2
      have hle := (htakens q hq).1
      rw [hid] at hle
      omega

theorem constants_echo {ss : List Shape} {ks : List Constant} {plans : List Plan} {rs : List Reference}
    (hss : List.Forall₂ (Shape.IsConstant cat) ss ks) (hplans : ss.mapM ofShape = .ok plans)
    (h : plans.mapM materialize d = .ok rs d') (hc : c.Wf) (hbelow : c.Below d.test) :
    ∃ c', Echoes cat d.test d'.test c c' [] ∧ List.Forall₂ (c'.Stands cat) rs ks ∧
      (∀ r ∈ rs, r.id.Taken d.test d'.test) ∧ (rs.map Reference.id).Nodup := by
  obtain ⟨c', hecho, hrest⟩ := all_echo (S := fun c r k => c.Stands cat r k) constant_echoes
    (fun hecho hr => hecho.stands hr) hss hplans h hc hbelow
  rw [List.flatMap_eq_nil_iff.2 fun _ _ => rfl] at hecho
  exact ⟨c', hecho, hrest⟩

theorem statics_echo {ss : List Shape} {ps : List (Field × Constant)} {plans : List Plan} {rs : List Reference}
    (hss : List.Forall₂ (Shape.StoresConstant cat) ss ps) (hplans : ss.mapM ofShape = .ok plans)
    (h : plans.mapM materialize d = .ok rs d') (hc : c.Wf) (hbelow : c.Below d.test) :
    ∃ c', Echoes cat d.test d'.test c c' (ps.map fun p => .staticStore p.1 p.2) := by
  obtain ⟨c', hecho, -⟩ := all_echo (S := fun _ _ _ => True) (fun hs hplan h hc hbelow => by
    obtain ⟨c', hecho, htaken⟩ := static_echoes hs hplan h hc hbelow
    exact ⟨c', hecho, trivial, htaken⟩) (fun _ _ _ => trivial) hss hplans h hc hbelow
  rw [← List.map_eq_flatMap] at hecho
  exact ⟨c', hecho⟩

end Plan

/-! ## The whole test -/

/-- **Inputs that were solved as constants**: the receiver and the arguments, and what static fields hold. -/
structure Inputs.SolvedAs (cat : Catalog) (inputs : Inputs Shape) (receiver : Option Constant) (args : List Constant)
    (statics : List (Field × Constant)) : Prop where
  receiver : List.Forall₂ (Shape.IsConstant cat) inputs.receiver.toList receiver.toList
  arguments : List.Forall₂ (Shape.IsConstant cat) inputs.arguments args
  statics : List.Forall₂ (Shape.StoresConstant cat) inputs.statics statics

/-- The predicate of a call on constants: on the receiver, or on the class if the method is static, and equal to a result
unless the method is void. -/
def Predicate.IsCallOn (m : Method) (receiver : Option Constant) (args : List Constant) (p : Predicate) : Prop :=
  ∃ result owner, p = .call result (.call owner m (args.map .const)) ∧
    (m.isStatic = true → owner = .staticOf m.owner) ∧
    (m.isStatic = false → ∃ k, receiver = some k ∧ owner = .const k) ∧ (result = none ↔ m.isVoid = true)

/-- **Carrying out the plans of all inputs**, from an empty test and an empty table. -/
theorem Plan.inputs_echo {cat : Catalog} {inputs : Inputs Shape} {receiver : Option Constant} {args : List Constant}
    {statics : List (Field × Constant)} (hsolved : inputs.SolvedAs cat receiver args statics) {plans : Inputs Plan}
    (hplans : inputs.mapM Plan.ofShape = .ok plans) {d d' : Draft} (hd : d.test = {}) {refs : Inputs Reference}
    (h : plans.mapM Plan.materialize d = .ok refs d') :
    ∃ c, Records cat d'.test.actions {} (statics.map fun p => .staticStore p.1 p.2) c ∧ c.Wf ∧ c.Below d'.test ∧
      List.Forall₂ (c.Stands cat) refs.receiver.toList receiver.toList ∧
      List.Forall₂ (c.Stands cat) refs.arguments args ∧
      ((refs.receiver.toList ++ refs.arguments).map Reference.id).Nodup ∧
      ∀ r ∈ refs.receiver.toList ++ refs.arguments, r.id.val.toNat < d'.test.nextRef.toNat := by
  obtain ⟨hreceiver, harguments, hstatics⟩ := Inputs.mapM_except_ok hplans
  obtain ⟨d₁, d₂, hreceiver', harguments', hstatics'⟩ := Inputs.mapM_state_ok h
  have hbelow : ({} : Cache).Below d.test := fun id x hx => by cases hx
  obtain ⟨c₁, hecho₁, hstand₁, htaken₁, hnodup₁⟩ :=
    constants_echo hsolved.receiver hreceiver hreceiver' Cache.wf_empty hbelow
  obtain ⟨c₂, hecho₂, hstand₂, htaken₂, hnodup₂⟩ :=
    constants_echo hsolved.arguments harguments harguments' hecho₁.wf (hecho₁.below hbelow)
  have hbelow₂ := hecho₂.below (hecho₁.below hbelow)
  obtain ⟨c₃, hecho₃⟩ := statics_echo hsolved.statics hstatics hstatics' hecho₂.wf hbelow₂
  have hids₂ := hecho₂.ids
  have hids₃ := hecho₃.ids
  obtain ⟨actions, hactions, hrecords⟩ := ((hecho₁.trans hecho₂).trans hecho₃).run
  rw [hd, List.nil_append] at hactions
  rw [← hactions] at hrecords
  refine ⟨c₃, hrecords, hecho₃.wf, hecho₃.below hbelow₂, ?_, ?_, ?_, ?_⟩
  · have hstand := hecho₂.stand_all (fun r hr => (htaken₁ r hr).2) hstand₁
    exact hecho₃.stand_all (fun r hr => Nat.lt_of_lt_of_le (htaken₁ r hr).2 hids₂) hstand
  · exact hecho₃.stand_all (fun r hr => (htaken₂ r hr).2) hstand₂
  · rw [List.map_append]
    refine List.Nodup.append hnodup₁ hnodup₂ fun id hid hid' => ?_
    obtain ⟨r, hr, rfl⟩ := List.mem_map.1 hid
    obtain ⟨q, hq, heq⟩ := List.mem_map.1 hid'
    have hlt := (htaken₁ r hr).2
    have hle := (htaken₂ q hq).1
    rw [heq] at hle
    omega
  · intro r hr
    rcases List.mem_append.1 hr with hr | hr
    · have := (htaken₁ r hr).2
      omega
    · have := (htaken₂ r hr).2
      omega

theorem Draft.callOn_records {cat : Catalog} {m : Method} (hm : m.isConstructor = false)
    (hresolve : cat.resolveMethod m.ref = .ok m) {inputs : Inputs Shape} {receiver : Option Constant}
    {args : List Constant} {statics : List (Field × Constant)} (hsolved : inputs.SolvedAs cat receiver args statics)
    {plans : Inputs Plan} (hplans : inputs.mapM Plan.ofShape = .ok plans) {d d' : Draft} (hd : d.test = {})
    (h : Draft.callOn m plans d = .ok () d') :
    ∃ p c, p.IsCallOn m receiver args ∧
      Records cat d'.test.actions {} (statics.map (fun s => .staticStore s.1 s.2) ++ [p]) c := by
  obtain ⟨refs, d₁, hrefs, hcall⟩ := bind_ok h
  obtain ⟨c, hrecords, hc, hbelow, hreceiver, hargs, hnodup, hids⟩ := Plan.inputs_echo hsolved hplans hd hrefs
  obtain ⟨result, hid, hacts, hsome⟩ := Draft.call_ok hcall
  rw [Method.calling, if_neg (by rw [hm]; exact Bool.false_ne_true)] at hacts
  have hgiven : (m.receiverOf refs).isSome = !m.isStatic := by
    rw [Bool.eq_iff_iff, hsome, Bool.not_eq_true']
    exact ⟨fun h => h.2, fun h => ⟨hm, h⟩⟩
  -- a static method is called without the receiver, also if there is one
  obtain ⟨on, hstatic, hdynamic, hstand, hsub⟩ : ∃ on : Option Constant, (m.isStatic = true → on = none) ∧
      (m.isStatic = false → on = receiver) ∧ List.Forall₂ (c.Stands cat) (m.receiverOf refs).toList on.toList ∧
      (m.receiverOf refs).toList.Sublist refs.receiver.toList := by
    unfold Method.receiverOf
    rw [hm, Bool.false_or]
    cases m.isStatic with
    | true => exact ⟨none, fun _ => rfl, fun h => (nomatch h), .nil, List.nil_sublist _⟩
    | false => exact ⟨receiver, fun h => (nomatch h), fun _ => rfl, hreceiver, List.Sublist.refl _⟩
  have hoperands := hsub.append (List.Sublist.refl refs.arguments)
  have hdistinct : Distinct ((m.receiverOf refs).toList ++ refs.arguments) :=
    List.inj_on_of_nodup_map (hnodup.sublist (hoperands.map _))
  have hother : ∀ q ∈ (m.receiverOf refs).toList ++ refs.arguments, q.id ≠ result.id := fun q hq heq => by
    have := hids q (hoperands.subset hq)
    rw [heq, hid] at this
    exact Nat.lt_irrefl _ this
  have hnew : c.lookup result.id = none := by
    rw [hid]
    exact Plan.lookup_nextRef hbelow
  obtain ⟨p, c', lhs, hrec, hp, hlhs⟩ :=
    Action.recording_call hc hm hresolve hgiven hdistinct hstand hargs hnew hother
  refine ⟨p.predicate, c', ⟨lhs, _, hp, fun h => ?_, fun h => ?_, hlhs⟩, ?_⟩
  · rw [hstatic h]
    rfl
  · have hlength := hstand.length_eq
    rw [hdynamic h] at hlength ⊢
    rw [h] at hgiven
    obtain ⟨q, hq⟩ := Option.isSome_iff_exists.1 hgiven
    rw [hq] at hlength
    cases receiver with
    | none => cases hlength
    | some k => exact ⟨k, rfl, rfl⟩
  · rw [hacts]
    exact hrecords.append (.single hrec)

theorem Method.buildTest_ok {m : Method} {inputs : Inputs Shape} {t : Test} (h : (m.buildTest inputs).1 = .ok t) :
    ∃ plans d d', inputs.mapM Plan.ofShape = .ok plans ∧ d.test = {} ∧ Draft.callOn m plans d = .ok () d' ∧
      d'.test = t := by
  unfold Method.buildTest at h
  cases hplans : inputs.mapM Plan.ofShape with
  | error e =>
    rw [hplans] at h
    cases h
  | ok plans =>
    rw [hplans] at h
    simp only [EStateM.run] at h
    split at h
    · rename_i d' hrun
      cases h
      exact ⟨plans, _, d', rfl, rfl, hrun, rfl⟩
    · cases h

/-- **A test that was generated from constants records what was solved.**  However its actions end, each of them can be
recorded; the trace has one clause for each static field, which stores the constant solved for it, and then the clause of
the call, on the constants that were solved. -/
theorem Method.buildTest_replays {cat : Catalog} {m : Method} (hm : m.isConstructor = false)
    (hresolve : cat.resolveMethod m.ref = .ok m) {inputs : Inputs Shape} {receiver : Option Constant}
    {args : List Constant} {statics : List (Field × Constant)} (hsolved : inputs.SolvedAs cat receiver args statics)
    {t : Test} (h : (m.buildTest inputs).1 = .ok t) (turns : List Turn) (hturns : turns.map Turn.action = t.actions)
    (hquiet : ∀ turn ∈ turns, turn.body = []) :
    Recorder.accepted { catalog := cat } turns = turns ∧
      ∃ p, p.IsCallOn m receiver args ∧
        (Recorder.run cat (turns.map .turn)).trace.map (·.predicate) =
          statics.map (fun s => .staticStore s.1 s.2) ++ [p] := by
  obtain ⟨plans, d, d', hplans, hd, hcall, rfl⟩ := Method.buildTest_ok h
  obtain ⟨p, c, hp, hrecords⟩ := Draft.callOn_records hm hresolve hsolved hplans hd hcall
  rw [← hturns] at hrecords
  obtain ⟨haccepted, htrace⟩ := Recorder.turns_quiet turns (r := { catalog := cat }) (.inl rfl) hquiet hrecords
  exact ⟨haccepted, p, hp, htrace⟩

/-- A class with the static fields `limit` and `last`, and the method `put`. -/
def cellCatalog : Catalog :=
  .ofDeclarations [⟨⟨"Cell", false⟩, [.field "limit" .int true, .field "last" .root true,
    .method "put" ⟨[.root, .methodLiteral, .double], .int⟩ false]⟩]

def putMethod : Method := ⟨⟨"Cell", false⟩, "put", ⟨[.root, .methodLiteral, .double], .int⟩, false⟩

/-- A string to call `put` on; null, the method itself and a not-a-number as arguments; and two static fields. -/
def putInputs : Inputs Shape where
  receiver := some (.constant (.scalar (.string "cell")))
  arguments := [.null .root, .constant (.method putMethod), .constant (.scalar (.double ⟨0x7ff8000000000001⟩))]
  statics := [.staticField ⟨"Cell", "last", .root, true⟩ (.constant .null),
    .staticField ⟨"Cell", "limit", .int, true⟩ (.constant (.scalar (.int 9)))]

def putArguments : List Constant := [.null, .method putMethod, .scalar (.double ⟨0x7ff8000000000001⟩)]

def putStatics : List (Field × Constant) :=
  [(⟨⟨"Cell", false⟩, "last", .root, true⟩, .null), (⟨⟨"Cell", false⟩, "limit", .int, true⟩, .scalar (.int 9))]

/-- Every action of the test raises. -/
theorem Method.buildTest_replays_put :
    putInputs.SolvedAs cellCatalog (some (.scalar (.string "cell"))) putArguments putStatics ∧
      ∃ t turns p, (putMethod.buildTest putInputs).1 = .ok t ∧
        turns = t.actions.map (fun a => ⟨a, [], some ⟨"Full", "put"⟩⟩) ∧
        Recorder.accepted { catalog := cellCatalog } turns = turns ∧
        p.IsCallOn putMethod (some (.scalar (.string "cell"))) putArguments ∧
        (Recorder.run cellCatalog (turns.map .turn)).trace.map (·.predicate) =
          putStatics.map (fun s => .staticStore s.1 s.2) ++ [p] := by
  have hsolved : putInputs.SolvedAs cellCatalog (some (.scalar (.string "cell"))) putArguments putStatics := by
    refine ⟨.cons (.constant _ nofun) .nil, .cons (.null _) (.cons (.constant _ ?_) (.cons (.constant _ nofun) .nil)),
      .cons (.staticField rfl rfl rfl (.constant _ nofun)) (.cons (.staticField rfl rfl rfl (.constant _ nofun)) .nil)⟩
    rintro m ⟨⟩
    rfl
  have hok : (putMethod.buildTest putInputs).1.isOk = true := by decide +kernel
  refine ⟨hsolved, ?_⟩
  cases h : (putMethod.buildTest putInputs).1 with
  | error e =>
    rw [h] at hok
    cases hok
  | ok t =>
    have hactions : (t.actions.map fun a => (⟨a, [], some ⟨"Full", "put"⟩⟩ : Turn)).map Turn.action = t.actions := by
      rw [List.map_map]
      exact List.map_id _
    obtain ⟨haccepted, p, hp, htrace⟩ :=
      Method.buildTest_replays (by decide) rfl hsolved h _ hactions (by simp)
    exact ⟨t, _, p, rfl, rfl, haccepted, hp, htrace⟩

end Retrace
