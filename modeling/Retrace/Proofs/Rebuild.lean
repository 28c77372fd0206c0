import Retrace.Proofs.Building
import Retrace.Proofs.Traversal
/-!
# Rebuild — a drafted test rebuilds the solved inputs

Carrying out the plan of a solved value appends statements, and running them makes a value that is the one described
(`Plan.materialize_built`).  The induction follows the value: an object is made first and then filled in, field by
field, and a static field is stored after its value was built.  A test does this for receiver, arguments and static
state, and ends in the call (`Test.Rebuilds`).
-/
namespace Retrace

/-! ## Carrying out a plan -/

theorem World.env_bind {w : World} {n : UInt32} {v : Datum} {id : RefId} (h : id.val.toNat < n.toNat) :
    (w.bind ⟨n⟩ v).env id = w.env id := by
  refine Function.update_of_ne (fun he => ?_) _ _
  rw [he] at h
  exact Nat.lt_irrefl _ h

namespace Plan

open Draft (define_ok fresh_ok)

variable {d d' : Draft} {r : Reference}

theorem materialize_null {ty : Ty} {s : Shape} (hs : s.stores = []) (h : (Plan.null ty).materialize d = .ok r d')
    (w : World) (hrep : w.Represents s .null []) : Built s r d.test d'.test w w := by
  rw [materialize] at h
  obtain ⟨rfl, hacts, hids⟩ := fresh_ok h
  refine ⟨?_, ⟨.null, [], rfl, hrep, List.nodup_nil, List.forall_mem_nil _⟩, ?_, trivial⟩
  · exact (Grows.refl (by omega) hacts).mono (List.nil_subset _) (List.forall_mem_nil _)
  · rw [hs]
    exact List.forall_mem_nil _

theorem materialize_literal {ty : Ty} {l : Literal} {s : Shape} (hs : s.stores = [])
    (h : (Plan.literal ty l).materialize d = .ok r d') (w : World)
    (hrep : ∀ w : World, w.Represents s (.literal l) []) : ∃ w', Built s r d.test d'.test w w' := by
  rw [materialize] at h
  obtain ⟨r₁, d₁, hfresh, h⟩ := bind_ok h
  obtain ⟨⟨⟩, d₂, hpush, h⟩ := bind_ok h
  cases h
  obtain ⟨rfl, hacts, hids⟩ := define_ok (fun _ => rfl) hfresh rfl hpush
  refine ⟨w.bind ⟨d.test.nextRef⟩ (.literal l), ?_,
    ⟨.literal l, [], Function.update_self _ _ _, hrep _, List.nodup_nil, List.forall_mem_nil _⟩, ?_, ?_⟩
  · exact ⟨⟨_, hacts, World.run_single rfl⟩, by omega, fun _ => World.env_bind, Nat.le_refl _, fun _ _ _ => rfl,
      fun _ _ => rfl⟩
  · rw [hs]
    exact List.forall_mem_nil _
  · show d.test.nextRef.toNat < d'.test.nextRef.toNat
    omega

/-- **A new object**: it has no field yet, and is filled in after. -/
theorem materialize_object {ty : Ty} {owner : Class} {fields : List (FieldRef × Shape)} {plans : List (FieldRef × Plan)}
    (h : (Plan.object ty (defaultConstructor owner) plans).materialize d = .ok r d') (w : World)
    (hfill : ∀ (w₁ : World) {d₁ d₂ : Draft} {self : Reference} {a : Nat} {o : Instance},
      materializeFields self plans d₁ = .ok () d₂ → self.Settled d₁.test.nextRef.toNat [] →
      w₁.eval self = some (.object a) → w₁.heap[a]? = some o →
      ∃ w₂ o', Fills fields a o o' d₁.test d₂.test w₁ w₂) :
    ∃ w', Built (.object owner fields) r d.test d'.test w w' := by
  rw [materialize] at h
  obtain ⟨r₁, d₁, hfresh, h⟩ := bind_ok h
  obtain ⟨⟨⟩, d₂, hpush, h⟩ := bind_ok h
  obtain ⟨⟨⟩, d₃, hfields, h⟩ := bind_ok h
  cases h
  obtain ⟨rfl, hacts, hids⟩ := define_ok (fun _ => rfl) hfresh rfl hpush
  have hself : (Reference.var ⟨d.test.nextRef⟩ ty).Settled d₂.test.nextRef.toNat [] := by
    show d.test.nextRef.toNat < d₂.test.nextRef.toNat
    omega
  obtain ⟨w', o', hfills⟩ := hfill (w.construct ⟨d.test.nextRef⟩ owner.name) hfields hself (Function.update_self _ _ _)
    List.getElem?_concat_length
  have hlen : (w.construct ⟨d.test.nextRef⟩ owner.name).heap.length = w.heap.length + 1 := List.length_append
  have hmake : Grows [] [] d.test d₂.test w (w.construct ⟨d.test.nextRef⟩ owner.name) :=
    ⟨⟨_, hacts, World.run_single rfl⟩, by omega, fun _ => World.env_bind, by omega,
      fun _ ha _ => List.getElem?_append_left ha, fun _ _ => rfl⟩
  have hsize := hfills.grows.size
  obtain ⟨as, hholds, hnodup, hnew⟩ := hfills.holds
  refine ⟨w', ?_, ⟨.object w.heap.length, w.heap.length :: as, ?_, ?_, ?_, ?_⟩, fun p hp => ?_, ?_⟩
  · rw [Shape.stores]
    refine (hmake.trans hfills.grows).mono (List.Subset.refl _) fun a ha hlt => ?_
    rw [List.mem_singleton.1 ha] at hlt
    exact absurd hlt (Nat.lt_irrefl _)
  · rw [hfills.grows.eval hself (List.disjoint_nil_left _)]
    exact Function.update_self _ _ _
  · rw [World.Represents]
    exact ⟨_, o', as, rfl, rfl, hfills.object, hfills.owner, hholds, hfills.others⟩
  · -- what is in the fields was built after the object itself
    refine List.nodup_cons.2 ⟨fun hmem => ?_, hnodup⟩
    have := (hnew _ hmem).1
    omega
  · intro a ha
    rcases List.mem_cons.1 ha with rfl | ha
    · omega
    · have := hnew a ha
      omega
  · rw [Shape.stores] at hp
    exact (hfills.stored p hp).earlier (by omega)
  · exact hself.mono hfills.grows.ids (List.nil_subset _)

/-- **A static field**: its value is built and then stored, and the field stands for it. -/
theorem materialize_staticField {f : FieldRef} {plan : Plan} {s : Shape}
    (hnodup : ((Shape.staticField f s).stores.map Prod.fst).Nodup)
    (h : (Plan.staticField f plan).materialize d = .ok r d') (w : World)
    (hbuild : ∀ {d₁ : Draft} {built : Reference}, plan.materialize d = .ok built d₁ →
      ∃ w₁, Built s built d.test d₁.test w w₁) : ∃ w', Built (.staticField f s) r d.test d'.test w w' := by
  rw [materialize] at h
  obtain ⟨built, d₁, hmat, h⟩ := bind_ok h
  obtain ⟨r₁, d₂, hfresh, h⟩ := bind_ok h
  obtain ⟨⟨⟩, d₃, hpush, h⟩ := bind_ok h
  cases h
  obtain ⟨w₁, hbuilt⟩ := hbuild hmat
  obtain ⟨v, as, hv, hrep, has, hnew⟩ := hbuilt.value
  obtain ⟨rfl, hacts, hids⟩ := define_ok (fun _ => rfl) hfresh rfl hpush
  have hstores : (Shape.staticField f s).stores = s.stores ++ [(f, s)] := by rw [Shape.stores]
  rw [hstores, List.map_append] at hnodup
  have hdisj : (s.stores.map Prod.fst).Disjoint [f] := List.disjoint_of_nodup_append hnodup
  have hput : Grows [f] [] d₁.test d'.test w₁ (w₁.store f v) := by
    refine ⟨⟨_, hacts, World.run_single ?_⟩, by omega, fun _ _ => rfl, Nat.le_refl _, fun _ _ _ => rfl, fun g hg => ?_⟩
    · simp [World.exec, hv]
    · exact Function.update_of_ne (fun he => hg (List.mem_singleton.2 he)) _ _
  have hrep' := hput.represents hrep (fun a ha => ⟨(hnew a ha).2, List.not_mem_nil⟩) hdisj
  refine ⟨w₁.store f v, ?_, ⟨v, as, Function.update_self _ _ _, ?_, has, hnew⟩, fun p hp => ?_, ?_⟩
  · rw [hstores, List.map_append]
    exact hbuilt.grows.trans hput
  · rw [World.Represents]
    exact ⟨Function.update_self _ _ _, hrep'⟩
  · rw [hstores] at hp
    rcases List.mem_append.1 hp with hp | hp
    · exact (hbuilt.stored p hp).later hput (List.forall_mem_nil _) hp (Shape.stores_trans hp) hdisj
    · rw [List.mem_singleton.1 hp]
      exact ⟨v, as, Function.update_self _ _ _, hrep', hnew⟩
  · rw [hstores, List.map_append]
    exact List.mem_append_right _ (List.mem_singleton_self f)

mutual

/-- **Carrying out the plan of a solved value builds it.** -/
theorem materialize_built : ∀ {s : Shape} {plan : Plan}, ofShape s = .ok plan → (s.stores.map Prod.fst).Nodup →
    ∀ {d d' : Draft} {r : Reference}, plan.materialize d = .ok r d' → ∀ w, ∃ w', Built s r d.test d'.test w w'
  | .null ty, plan, hplan, _, d, d', r, h, w => by
    rw [ofShape] at hplan
    cases hplan
    exact ⟨w, materialize_null (by rw [Shape.stores]) h w (by rw [World.Represents]; exact ⟨rfl, rfl⟩)⟩
  | .constant .null, plan, hplan, _, d, d', r, h, w => by
    rw [ofShape] at hplan
    cases hplan
    exact ⟨w, materialize_null (by rw [Shape.stores]) h w (by rw [World.Represents]; exact ⟨rfl, rfl⟩)⟩
  | .constant (.scalar k), plan, hplan, _, d, d', r, h, w => by
    cases hplan
    exact materialize_literal (by rw [Shape.stores]) h w fun w => by rw [World.Represents]; exact ⟨rfl, rfl⟩
  | .constant (.method m), plan, hplan, _, d, d', r, h, w => by
    cases hplan
    exact materialize_literal (by rw [Shape.stores]) h w fun w => by rw [World.Represents]; exact ⟨rfl, rfl⟩
  | .object owner fields, plan, hplan, hnodup, d, d', r, h, w => by
    rw [ofShape] at hplan
    rw [Shape.stores] at hnodup
    obtain ⟨plans, hplans, rfl⟩ := map_ok hplan
    exact materialize_object h w fun _ => materializeFields_fills hplans hnodup
  | .staticField f value, plan, hplan, hnodup, d, d', r, h, w => by
    rw [ofShape] at hplan
    split at hplan
    · obtain ⟨plan', hplan', rfl⟩ := map_ok hplan
      have hvalue : (value.stores.map Prod.fst).Nodup := by
        rw [Shape.stores, List.map_append] at hnodup
        exact hnodup.of_append_left
      exact materialize_staticField hnodup h w fun hmat => materialize_built hplan' hvalue hmat w
    · cases hplan
  | .array _ _, plan, hplan, _, d, d', r, h, w => by
    rw [ofShape] at hplan
    cases hplan

theorem materializeFields_fills : ∀ {fields : List (FieldRef × Shape)} {plans : List (FieldRef × Plan)},
    ofFields fields = .ok plans → ((Shape.storesOfFields fields).map Prod.fst).Nodup →
    ∀ {d d' : Draft} {self : Reference} {w : World} {a : Nat} {o : Instance},
      materializeFields self plans d = .ok () d' → self.Settled d.test.nextRef.toNat [] →
      w.eval self = some (.object a) → w.heap[a]? = some o →
      ∃ w' o', Fills fields a o o' d.test d'.test w w'
  | [], plans, hplans, _, d, d', self, w, a, o, h, _, _, ho => by
    rw [ofFields] at hplans
    cases hplans
    rw [materializeFields] at h
    cases h
    exact ⟨w, o, .nil ho⟩
  | (f, s) :: rest, plans, hplans, hnodup, d, d', self, w, a, o, h, hself, heval, ho => by
    rw [ofFields] at hplans
    split at hplans
    · cases hplans
    · rename_i plan hplan
      obtain ⟨plans', hplans', rfl⟩ := map_ok hplans
      rw [materializeFields] at h
      obtain ⟨built, d₁, hbuild, h₁⟩ := bind_ok h
      obtain ⟨target, d₂, hfresh, h₂⟩ := bind_ok h₁
      obtain ⟨⟨⟩, d₃, hpush, h₃⟩ := bind_ok h₂
      have hnodup' := hnodup
      rw [storesOfFields_cons] at hnodup'
      obtain ⟨hfst, hsnd, -⟩ := List.nodup_append'.1 hnodup'
      obtain ⟨w₁, hbuilt⟩ := materialize_built hplan hfst hbuild w
      obtain ⟨v, bs, hv, hrep, hbs, hnew⟩ := hbuilt.value
      have ha := (List.getElem?_eq_some_iff.1 ho).1
      have heval₁ : w₁.eval self = some (.object a) := by
        rw [hbuilt.grows.eval hself (List.disjoint_nil_left _), heval]
      have ho₁ : w₁.heap[a]? = some o := by rw [hbuilt.grows.heap a ha List.not_mem_nil, ho]
      obtain ⟨rfl, hacts, hids⟩ := define_ok (Draft.id_fieldTarget self f) hfresh rfl hpush
      obtain ⟨w₂, o₁, hexec, hputs⟩ := exec_fieldTarget f ⟨d₁.test.nextRef⟩ hv heval₁ ho₁
      have hgrows := hputs.grows hexec hacts hids
      have hself₂ := (hself.mono hbuilt.grows.ids (List.Subset.refl _)).mono hgrows.ids (List.Subset.refl _)
      have heval₂ : w₂.eval self = some (.object a) := by
        rw [hgrows.eval (hself.mono hbuilt.grows.ids (List.Subset.refl _)) (List.disjoint_nil_left _), heval₁]
      obtain ⟨w', o', hrest⟩ := materializeFields_fills hplans' hsnd.of_append_right h₃ hself₂ heval₂ hputs.object
      exact ⟨w', o', .cons hnodup ha hbuilt hrep hbs hnew hputs hgrows hrest⟩

end

theorem materializeAll_builds : ∀ {ss : List Shape} {plans : List Plan}, ss.mapM ofShape = .ok plans →
    ((storesOfAll ss).map Prod.fst).Nodup → ∀ {d d' : Draft} {rs : List Reference},
      plans.mapM materialize d = .ok rs d' → ∀ w, ∃ w', Builds ss rs d.test d'.test w w'
  | [], plans, hplans, _, d, d', rs, h, w => by
    cases hplans
    cases h
    exact ⟨w, .nil⟩
  | s :: ss, plans, hplans, hnodup, d, d', rs, h, w => by
    rw [List.mapM_cons] at hplans
    obtain ⟨plan, hplan, hplans⟩ := except_bind_ok hplans
    obtain ⟨plans', hplans', hcons⟩ := except_bind_ok hplans
    cases hcons
    rw [List.mapM_cons] at h
    obtain ⟨r, d₁, hr, h₁⟩ := bind_ok h
    obtain ⟨rs', d₂, hrs, h₂⟩ := bind_ok h₁
    cases h₂
    have hsplit : storesOfAll (s :: ss) = s.stores ++ storesOfAll ss := List.flatMap_cons
    have hparts := hnodup
    rw [hsplit, List.map_append] at hparts
    obtain ⟨w₁, hbuilt⟩ := materialize_built hplan hparts.of_append_left hr w
    obtain ⟨w', hbuilds⟩ := materializeAll_builds hplans' hparts.of_append_right hrs w₁
    exact ⟨w', (Builds.single hbuilt).append hbuilds hnodup⟩

end Plan

/-! ## The whole test -/

namespace Method

/-- What a method is called on: nothing for a constructor or a static method. -/
def receiverOf {α : Type} (m : Method) (inputs : Inputs α) : Option α :=
  if m.isConstructor || m.isStatic then none else inputs.receiver

def calling (m : Method) (result : Reference) (receiver : Option Reference) (args : List Reference) : Action :=
  if m.isConstructor then .construct result m.ref args else .call result receiver m.ref args

end Method

theorem Draft.call_ok {m : Method} {inputs : Inputs Reference} {d d' : Draft} (h : Draft.call m inputs d = .ok () d') :
    ∃ result, result.id = ⟨d.test.nextRef⟩ ∧
      d'.test.actions = d.test.actions ++ [m.calling result (m.receiverOf inputs) inputs.arguments] ∧
      ((m.receiverOf inputs).isSome ↔ m.isConstructor = false ∧ m.isStatic = false) := by
  unfold Draft.call at h
  unfold Method.calling Method.receiverOf
  split at h
  · cases h
  split at h
  · rename_i hc
    obtain ⟨r, d₁, hfresh, hpush⟩ := bind_ok h
    obtain ⟨hresult, hacts, -⟩ := define_ok (fun _ => rfl) hfresh rfl hpush
    exact ⟨r, by rw [hresult]; rfl, by simp [hc, hacts], by simp [hc]⟩
  split at h
  · rename_i hc hs
    obtain ⟨r, d₁, hfresh, hpush⟩ := bind_ok h
    obtain ⟨hresult, hacts, -⟩ := define_ok (fun _ => rfl) hfresh rfl hpush
    exact ⟨r, by rw [hresult]; rfl, by simp [hc, hs, hacts], by simp [hs]⟩
  · rename_i hc hs
    cases hr : inputs.receiver with
    | none =>
      rw [hr] at h
      cases h
    | some receiver =>
      rw [hr] at h
      obtain ⟨r, d₁, hfresh, hpush⟩ := bind_ok h
      obtain ⟨hresult, hacts, -⟩ := define_ok (fun _ => rfl) hfresh rfl hpush
      exact ⟨r, by rw [hresult]; rfl, by simp [hc, hs, hacts], by simp [hc, hs]⟩

/-- **A test that rebuilds solved inputs.**  It ends in the call of the method.  The statements before it can be run;
then receiver and arguments of the call stand for the values described, no two of their objects share an address, and
every static field that the inputs have a value for, at any depth, holds that value. -/
def Test.Rebuilds (t : Test) (m : Method) (inputs : Inputs Shape) : Prop :=
  ∃ body result receiver args w as bs,
    t.actions = body ++ [m.calling result receiver args] ∧ World.run {} body = some w ∧
    (receiver.isSome ↔ m.isConstructor = false ∧ m.isStatic = false) ∧
    w.Passes (m.receiverOf inputs).toList receiver.toList as ∧ w.Passes inputs.arguments args bs ∧ (as ++ bs).Nodup ∧
    ∀ p ∈ storesOfAll inputs.toList, ∃ v cs, w.statics p.1 = some v ∧ w.Represents p.2 v cs

theorem Draft.callOn_rebuilds {m : Method} {inputs : Inputs Shape} {plans : Inputs Plan} {d d' : Draft}
    (hplans : inputs.mapM Plan.ofShape = .ok plans) (hnodup : ((storesOfAll inputs.toList).map Prod.fst).Nodup)
    (hd : d.test = {}) (h : Draft.callOn m plans d = .ok () d') : d'.test.Rebuilds m inputs := by
  obtain ⟨refs, d₃, hrefs, hcall⟩ := bind_ok h
  obtain ⟨hreceiver, harguments, hstatics⟩ := Inputs.mapM_except_ok hplans
  obtain ⟨d₁, d₂, hreceiver', harguments', hstatics'⟩ := Inputs.mapM_state_ok hrefs
  obtain ⟨result, -, hacts, hsome⟩ := Draft.call_ok hcall
  unfold Inputs.toList at hnodup
  have hnodup₂ : ((storesOfAll (inputs.receiver.toList ++ inputs.arguments)).map Prod.fst).Nodup := by
    rw [storesOfAll_append, List.map_append] at hnodup
    exact hnodup.of_append_left
  have hparts := hnodup
  simp only [storesOfAll_append, List.map_append, List.nodup_append'] at hparts
  obtain ⟨⟨hr, ha, hra⟩, hs, hras⟩ := hparts
  obtain ⟨w₁, hbuilt₁⟩ := Plan.materializeAll_builds hreceiver hr hreceiver' {}
  obtain ⟨w₂, hbuilt₂⟩ := Plan.materializeAll_builds harguments ha harguments' w₁
  obtain ⟨w₃, hbuilt₃⟩ := Plan.materializeAll_builds hstatics hs hstatics' w₂
  have hall := (hbuilt₁.append hbuilt₂ hnodup₂).append hbuilt₃ hnodup
  obtain ⟨body, hbody, hrun⟩ := hall.grows.run
  rw [hd, List.nil_append] at hbody
  -- the receiver stays as it is while the arguments are built, and both while the static state is
  obtain ⟨hrs, has⟩ := List.disjoint_append_left.1 hras
  obtain ⟨as, hreceiver₃, hnodup₁, hnew₁⟩ :=
    hbuilt₁.kept (hbuilt₂.grows.trans hbuilt₃.grows) (List.disjoint_append_right.2 ⟨hra, hrs⟩)
  obtain ⟨bs, harguments₃, hbs, hnew₂⟩ := hbuilt₂.kept hbuilt₃.grows has
  have hstored : ∀ p ∈ storesOfAll inputs.toList, ∃ v cs, w₃.statics p.1 = some v ∧ w₃.Represents p.2 v cs := by
    intro p hp
    obtain ⟨v, cs, hv, hrep, -⟩ := hall.stored p hp
    exact ⟨v, cs, hv, hrep⟩
  rw [hbody] at hacts
  by_cases hm : m.isConstructor || m.isStatic
  · have hnone : ∀ {α : Type} (x : Inputs α), m.receiverOf x = none := fun x => if_pos hm
    rw [hnone] at hacts hsome
    refine ⟨body, result, none, refs.arguments, w₃, [], bs, hacts, hrun, hsome, ?_, harguments₃, hbs, hstored⟩
    rw [hnone]
    rfl
  · have heq : ∀ {α : Type} (x : Inputs α), m.receiverOf x = x.receiver := fun x => if_neg hm
    rw [heq] at hacts hsome
    refine ⟨body, result, refs.receiver, refs.arguments, w₃, as, bs, hacts, hrun, hsome, ?_, harguments₃,
      List.Nodup.append hnodup₁ hbs (hnew₁.disjoint hnew₂), hstored⟩
    rw [heq]
    exact hreceiver₃

/-- **A generated test rebuilds the solution**, if no static field is given two values. -/
theorem Method.buildTest_rebuilds {m : Method} {inputs : Inputs Shape} {t : Test} (h : (m.buildTest inputs).1 = .ok t)
    (hnodup : ((storesOfAll inputs.toList).map Prod.fst).Nodup) : t.Rebuilds m inputs := by
  unfold Method.buildTest at h
  cases hplans : inputs.mapM Plan.ofShape with
  | error e =>
    rw [hplans] at h
    cases h
  | ok plans =>
    rw [hplans] at h
    simp only [EStateM.run] at h
    generalize hd₀ : (Draft.mk {} _ : Draft) = d₀ at h
    cases hrun : Draft.callOn m plans d₀ with
    | error e d =>
      rw [hrun] at h
      cases h
    | ok u d =>
      rw [hrun] at h
      cases h
      have htest : d₀.test = {} := by rw [← hd₀]
      exact Draft.callOn_rebuilds hplans hnodup htest hrun

def moveMethod : Method := ⟨⟨"Account", false⟩, "move", ⟨[.object "Bank", .root], .void⟩, false⟩

/-- An account whose balance is listed twice and whose list has a static field in it; the bank that a static field holds;
null; and one more static field, which the call depends on. -/
def moveInputs : Inputs Shape where
  receiver := some (.object ⟨"Account", false⟩
    [(⟨"Account", "balance", .int, false⟩, .constant (.scalar (.int 5))),
     (⟨"Account", "limit", .int, true⟩, .constant (.scalar (.int 9))),
     (⟨"Account", "balance", .int, false⟩, .constant (.scalar (.int 7)))])
  arguments := [.staticField ⟨"Account", "home", .object "Bank", true⟩ (.object ⟨"Bank", false⟩ []), .constant .null]
  statics := [.staticField ⟨"Bank", "open", .bool, true⟩ (.constant (.scalar (.bool true)))]

theorem Method.buildTest_rebuilds_move :
    ((storesOfAll moveInputs.toList).map Prod.fst).Nodup ∧
      ∃ t, (moveMethod.buildTest moveInputs).1 = .ok t ∧ t.Rebuilds moveMethod moveInputs := by
  have hnodup : ((storesOfAll moveInputs.toList).map Prod.fst).Nodup := by decide
  have hok : (moveMethod.buildTest moveInputs).1.isOk = true := by decide +kernel
  cases h : (moveMethod.buildTest moveInputs).1 with
  | ok t => exact ⟨hnodup, t, rfl, buildTest_rebuilds h hnodup⟩
  | error e =>
    rw [h] at hok
    cases hok

end Retrace
