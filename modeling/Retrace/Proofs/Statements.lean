import Retrace.Proofs.Drafts
import Retrace.Proofs.Meaning
/-!
# Statements — what carrying out a plan writes down

Carrying out a plan takes a number of ids that the plan alone settles (`Plan.ids`), and it fails exactly when the test
has fewer left.  That accounting is kept apart from what is written (`Draft.Spends`): a sequence of steps spends what its
parts spend, and runs out as soon as one of them does.

The statements themselves take ids in increasing order, and each speaks of null and of earlier results only (`Writes`).
-/
namespace Retrace

/-! ## Ids spent -/

namespace Draft

variable {α β : Type} {d : Draft} {k l : Nat}

/-- **A step that takes `k` ids**: it succeeds, with `Q`, if the test has that many left, and else runs out of ids. -/
def Spends (d : Draft) (k : Nat) (Q : α → Test → Prop) (x : M α) : Prop :=
  (d.test.nextRef.toNat + k ≤ Test.lastId.toNat →
    ∃ a d', x d = .ok a d' ∧ d'.test.nextRef.toNat = d.test.nextRef.toNat + k ∧ Q a d'.test) ∧
  (Test.lastId.toNat < d.test.nextRef.toNat + k → ∃ d', x d = .error .idsExhausted d')

theorem nextRef_le (t : Test) : t.nextRef.toNat ≤ Test.lastId.toNat :=
  Nat.le_of_lt_succ t.nextRef.toNat_lt

namespace Spends

variable {Q : α → Test → Prop} {R : β → Test → Prop}

theorem of_ok {a : α} {d' : Draft} {x : M α} (hx : x d = .ok a d') (hnext : d'.test.nextRef = d.test.nextRef)
    (hQ : Q a d'.test) : Spends d 0 Q x :=
  ⟨fun _ => ⟨a, d', hx, congrArg UInt32.toNat hnext, hQ⟩, fun hlt => absurd hlt (Nat.not_lt.2 (nextRef_le d.test))⟩

/-- **One step after the other**: what the parts take adds up. -/
theorem bind {x : M α} {f : α → M β} (hx : Spends d k Q x)
    (hf : ∀ a d₁, d₁.test.nextRef.toNat = d.test.nextRef.toNat + k → Q a d₁.test → Spends d₁ l R (f a)) :
    Spends d (k + l) R (x >>= f) := by
  rcases Nat.lt_or_ge Test.lastId.toNat (d.test.nextRef.toNat + k) with hlt | hle
  · obtain ⟨d₁, herror⟩ := hx.2 hlt
    exact ⟨fun hle => by omega, fun _ => ⟨d₁, bind_of_error f herror⟩⟩
  · obtain ⟨a, d₁, hok, hnext, hQ⟩ := hx.1 hle
    have hrest := hf a d₁ hnext hQ
    rw [Spends, hnext, Nat.add_assoc] at hrest
    rwa [Spends, bind_of_ok f hok]

theorem mono {Q' : α → Test → Prop} {x : M α} (h : Spends d k Q x)
    (hQ : ∀ a t, t.nextRef.toNat = d.test.nextRef.toNat + k → Q a t → Q' a t) : Spends d k Q' x := by
  refine ⟨fun hle => ?_, h.2⟩
  obtain ⟨a, d', hok, hnext, hpost⟩ := h.1 hle
  exact ⟨a, d', hok, hnext, hQ a _ hnext hpost⟩

theorem of_map {x : M α} {g : α → β} (h : Spends d k R (g <$> x)) : Spends d k (fun a => R (g a)) x := by
  simp only [Spends, Functor.map, EStateM.map] at h ⊢
  cases hx : x d <;> simpa [hx] using h

theorem ok {x : M α} (h : Spends d k Q x) {a : α} {d' : Draft} (hx : x d = .ok a d') :
    d'.test.nextRef.toNat = d.test.nextRef.toNat + k ∧ Q a d'.test := by
  rcases Nat.lt_or_ge Test.lastId.toNat (d.test.nextRef.toNat + k) with hlt | hle
  · obtain ⟨d₁, herror⟩ := h.2 hlt
    rw [hx] at herror
    cases herror
  · obtain ⟨a', d₁, hok, hnext, hQ⟩ := h.1 hle
    rw [hx] at hok
    cases hok
    exact ⟨hnext, hQ⟩

end Spends

theorem spends_fresh (d : Draft) (make : RefId → Reference) :
    Spends d 1 (fun r t => r = make ⟨d.test.nextRef⟩ ∧ t.actions = d.test.actions) (fresh make) := by
  unfold Spends
  rw [fresh_eq]
  by_cases hlast : d.test.nextRef = Test.lastId
  · rw [if_pos hlast]
    refine ⟨fun hle => ?_, fun _ => ⟨d, rfl⟩⟩
    rw [hlast] at hle
    omega
  · rw [if_neg hlast]
    have hne : d.test.nextRef.toNat ≠ Test.lastId.toNat := fun h => hlast (UInt32.toNat_inj.1 h)
    have hle := nextRef_le d.test
    exact ⟨fun _ => ⟨_, _, rfl, (toNat_succ hlast).1, rfl, rfl⟩, fun hlt => by omega⟩

theorem spends_push {a : Action} (hid : a.result.id.val < d.test.nextRef) :
    Spends d 0 (fun _ t => t.actions = d.test.actions ++ [a]) (push a) := by
  have hpush : push a d = .ok () { d with test := { d.test with actions := d.test.actions ++ [a] } } := by
    rw [push_eq, if_pos hid]
  exact .of_ok hpush rfl rfl

/-- **A statement that defines a new reference**, and then the rest. -/
theorem spends_define {make : RefId → Reference} {act : Reference → Action} {rest : Reference → M β}
    {R : β → Test → Prop} (hmake : ∀ id, (make id).id = id) (hact : ∀ r, (act r).result = r)
    (hrest : ∀ d₁, d₁.test.nextRef.toNat = d.test.nextRef.toNat + 1 →
      d₁.test.actions = d.test.actions ++ [act (make ⟨d.test.nextRef⟩)] → Spends d₁ l R (rest (make ⟨d.test.nextRef⟩))) :
    Spends d (1 + l) R (fresh make >>= fun r => push (act r) >>= fun _ => rest r) := by
  refine (spends_fresh d make).bind fun r d₁ hnext ⟨hr, hacts⟩ => ?_
  subst hr
  have hid : (act (make ⟨d.test.nextRef⟩)).result.id.val < d₁.test.nextRef := by
    rw [hact, hmake, UInt32.lt_iff_toNat_lt, hnext]
    exact Nat.lt_succ_self _
  rw [← Nat.zero_add l]
  refine (spends_push hid).bind fun _ d₂ hnext' hacts' => hrest d₂ ?_ ?_
  · rw [hnext', hnext, Nat.add_zero]
  · rw [hacts', hacts]

end Draft

mutual

/-- The ids that carrying out a plan takes: one for every statement, and one for every null. -/
def Plan.ids : Plan → Nat
  | .null _ => 1
  | .literal _ _ => 1
  | .object _ _ fields => 1 + Plan.idsOfFields fields
  | .staticField _ value => value.ids + 1

def Plan.idsOfFields : List (FieldRef × Plan) → Nat
  | [] => 0
  | (_, value) :: rest => value.ids + (1 + Plan.idsOfFields rest)

end

/-! ## Statements written -/

/-- **Statements written down**, from one test to a later one.  Each takes an id of its own, in increasing order, and
speaks of null, of the references that are `known` and of the results of statements before it only. -/
structure Writes (known : List Reference) (t t' : Test) (as : List Action) : Prop where
  actions : t'.actions = t.actions ++ as
  ids : t.nextRef.toNat ≤ t'.nextRef.toNat
  within : ∀ a ∈ as, t.nextRef.toNat ≤ a.result.id.val.toNat ∧ a.result.id.val.toNat < t'.nextRef.toNat
  increasing : as.Pairwise fun a b => a.result.id.val.toNat < b.result.id.val.toNat
  defined : ∀ pre a post, as = pre ++ a :: post → ∀ q ∈ a.operands, q.IsNull ∨ q ∈ known ∨ ∃ b ∈ pre, b.result = q

namespace Writes

variable {known known' : List Reference} {t t₁ t' : Test} {as bs : List Action}

theorem nil (hids : t.nextRef.toNat ≤ t'.nextRef.toNat) (hacts : t'.actions = t.actions) : Writes known t t' [] where
  actions := by rw [hacts, List.append_nil]
  ids := hids
  within := List.forall_mem_nil _
  increasing := .nil
  defined pre a post h := by cases pre <;> cases h

theorem single {a : Action} (hacts : t'.actions = t.actions ++ [a]) (hid : a.result.id.val = t.nextRef)
    (hnext : t'.nextRef.toNat = t.nextRef.toNat + 1) (hops : ∀ q ∈ a.operands, q.IsNull ∨ q ∈ known) :
    Writes known t t' [a] where
  actions := hacts
  ids := by omega
  within b hb := by
    rw [List.mem_singleton.1 hb, hid]
    omega
  increasing := List.pairwise_singleton _ _
  defined pre b post h q hq := by
    obtain ⟨-, rfl⟩ : pre = [] ∧ a = b := by cases pre <;> simp_all
    exact (hops q hq).imp_right .inl

theorem mono (h : Writes known t t' as) (hsub : known ⊆ known') : Writes known' t t' as where
  actions := h.actions
  ids := h.ids
  within := h.within
  increasing := h.increasing
  defined pre a post hsplit q hq := (h.defined pre a post hsplit q hq).imp_right (Or.imp_left (@hsub q))

/-- **Statements after statements**: what the later ones may speak of was known, or has been defined. -/
theorem append (h : Writes known t t₁ as) (h' : Writes known' t₁ t' bs)
    (hknown : ∀ q ∈ known', q.IsNull ∨ q ∈ known ∨ ∃ b ∈ as, b.result = q) : Writes known t t' (as ++ bs) where
  actions := by rw [h'.actions, h.actions, List.append_assoc]
  ids := Nat.le_trans h.ids h'.ids
  within a ha := by
    have hids := h.ids
    have hids' := h'.ids
    rcases List.mem_append.1 ha with ha | ha
    · have := h.within a ha
      omega
    · have := h'.within a ha
      omega
  increasing := by
    refine List.pairwise_append.2 ⟨h.increasing, h'.increasing, fun a ha b hb => ?_⟩
    exact Nat.lt_of_lt_of_le (h.within a ha).2 (h'.within b hb).1
  defined pre a post hsplit q hq := by
    rcases List.append_eq_append_iff.1 hsplit with ⟨mid, rfl, hbs⟩ | ⟨mid, has, hpost⟩
    · rcases h'.defined mid a post hbs q hq with hnull | hmem | ⟨b, hb, hres⟩
      · exact .inl hnull
      · refine (hknown q hmem).imp_right (Or.imp_right ?_)
        rintro ⟨b, hb, hres⟩
        exact ⟨b, List.mem_append_left mid hb, hres⟩
      · exact .inr (.inr ⟨b, List.mem_append_right as hb, hres⟩)
    · cases mid with
      | nil =>
        rw [List.append_nil] at has
        subst has
        rcases h'.defined [] a post hpost.symm q hq with hnull | hmem | ⟨b, hb, -⟩
        · exact .inl hnull
        · exact hknown q hmem
        · cases hb
      | cons a' mid =>
        obtain ⟨rfl, -⟩ := List.cons.inj hpost
        exact h.defined pre a mid has q hq

end Writes

/-- **A plan, carried out**: as many statements as the plan counts are written down, and `r` stands for the value.  It has
the type of the plan and a new id, and it is null when nothing was written, and else what one of the statements
defines. -/
structure Plan.Written (p : Plan) (r : Reference) (t t' : Test) (as : List Action) : Prop extends Writes [] t t' as where
  length : as.length = p.statements
  ty : r.ty = p.ty
  fresh : t.nextRef.toNat ≤ r.id.val.toNat ∧ r.id.val.toNat < t'.nextRef.toNat
  result : r.IsNull ∧ as = [] ∨ ∃ a ∈ as, a.result = r

/-- **A value written down and then stored.** -/
theorem Plan.Written.store {p : Plan} {built target : Reference} {t t₁ t' : Test} {as : List Action}
    {known : List Reference} (h : p.Written built t t₁ as) (hacts : t'.actions = t₁.actions ++ [.assign target built])
    (hid : target.id.val = t₁.nextRef) (hnext : t'.nextRef.toNat = t₁.nextRef.toNat + 1)
    (hops : ∀ q ∈ (Action.assign target built).operands, q = built ∨ q ∈ known) :
    Writes known t t' (as ++ [.assign target built]) := by
  have hstore : Writes (built :: known) t₁ t' [.assign target built] :=
    .single hacts hid hnext fun q hq => .inr (List.mem_cons.2 (hops q hq))
  refine (h.toWrites.mono (List.nil_subset known)).append hstore fun q hq => ?_
  rcases List.mem_cons.1 hq with rfl | hq
  · exact h.result.imp And.left .inr
  · exact .inr (.inl hq)

/-- What is stored in a field of an object speaks of the value and of the object. -/
theorem Draft.operands_fieldTarget {object built q : Reference} {field : FieldRef} {id : RefId}
    (hq : q ∈ (Action.assign (fieldTarget object field id) built).operands) : q = built ∨ q ∈ [object] := by
  unfold fieldTarget at hq
  split at hq
  · exact .inl (List.mem_singleton.1 hq)
  · simpa [Action.operands] using hq

namespace Plan

open Draft (Spends spends_fresh spends_define)

mutual

theorem materialize_spends : ∀ (p : Plan) (d : Draft),
    Spends d p.ids (fun r t => ∃ as, p.Written r d.test t as) p.materialize
  | .null ty, d => by
    rw [materialize, ids]
    refine (spends_fresh d _).mono fun r t hnext ⟨hr, hacts⟩ => ?_
    subst hr
    have hlt : d.test.nextRef.toNat < t.nextRef.toNat := by omega
    exact ⟨[], .nil (Nat.le_of_lt hlt) hacts, rfl, rfl, ⟨Nat.le_refl _, hlt⟩, .inl ⟨trivial, rfl⟩⟩
  | .literal ty value, d => by
    rw [materialize, ids]
    refine spends_define (l := 0) (fun _ => rfl) (fun _ => rfl) fun d₁ hnext hacts => .of_ok rfl rfl ?_
    have hlt : d.test.nextRef.toNat < d₁.test.nextRef.toNat := by omega
    exact ⟨_, .single hacts rfl hnext (List.forall_mem_nil _), rfl, rfl, ⟨Nat.le_refl _, hlt⟩,
      .inr ⟨_, List.mem_singleton_self _, rfl⟩⟩
  | .object ty constructor fields, d => by
    rw [materialize, ids]
    refine spends_define (fun _ => rfl) (fun _ => rfl) fun d₁ hnext hacts => ?_
    refine (materializeFields_spends _ fields d₁).bind (l := 0) fun _ d₂ hnext' ⟨as, hfields, hlength⟩ => ?_
    refine Spends.of_ok rfl rfl ?_
    have hobject : Writes [] d.test d₁.test _ := .single hacts rfl hnext (List.forall_mem_nil _)
    -- the fields speak of the object, which the first statement defines
    have hwrites := hobject.append hfields fun q hq =>
      .inr (.inr ⟨_, List.mem_singleton_self _, (List.mem_singleton.1 hq).symm⟩)
    have hlt : d.test.nextRef.toNat < d₂.test.nextRef.toNat := by omega
    refine ⟨_, hwrites, ?_, rfl, ⟨Nat.le_refl _, hlt⟩, .inr ⟨_, List.mem_cons_self, rfl⟩⟩
    rw [statements, List.length_append, hlength, List.length_singleton]
  | .staticField field value, d => by
    rw [materialize, ids]
    refine (materialize_spends value d).bind fun built d₁ hnext ⟨as, hbuilt⟩ => ?_
    refine spends_define (l := 0) (fun _ => rfl) (fun _ => rfl) fun d₂ hnext' hacts => .of_ok rfl rfl ?_
    have hwrites : Writes [] d.test d₂.test _ :=
      hbuilt.store hacts rfl hnext' fun q hq => .inl (List.mem_singleton.1 hq)
    refine ⟨_, hwrites, ?_, rfl, ?_, .inr ⟨_, List.mem_append_right as (List.mem_singleton_self _), rfl⟩⟩
    · rw [statements, List.length_append, hbuilt.length, List.length_singleton]
    · exact hwrites.within _ (List.mem_append_right as (List.mem_singleton_self _))

theorem materializeFields_spends (object : Reference) : ∀ (fields : List (FieldRef × Plan)) (d : Draft),
    Spends d (idsOfFields fields)
      (fun _ t => ∃ as, Writes [object] d.test t as ∧ as.length = statementsOfFields fields)
      (materializeFields object fields)
  | [], d => by
    rw [materializeFields, idsOfFields, statementsOfFields]
    exact .of_ok rfl rfl ⟨[], .nil (Nat.le_refl _) rfl, rfl⟩
  | (field, value) :: rest, d => by
    rw [materializeFields, idsOfFields, statementsOfFields]
    refine (materialize_spends value d).bind fun built d₁ hnext ⟨as, hbuilt⟩ => ?_
    refine spends_define (Draft.id_fieldTarget object field) (fun _ => rfl) fun d₂ hnext' hacts => ?_
    refine (materializeFields_spends object rest d₂).mono fun _ t hnext'' ⟨bs, hrest, hlength⟩ => ?_
    have hid : (Draft.fieldTarget object field ⟨d₁.test.nextRef⟩).id.val = d₁.test.nextRef := by
      rw [Draft.id_fieldTarget]
    have hstore := hbuilt.store hacts hid hnext' fun q => Draft.operands_fieldTarget
    refine ⟨_, hstore.append hrest fun q hq => .inr (.inl hq), ?_⟩
    rw [List.length_append, List.length_append, hbuilt.length, List.length_singleton, hlength]

end

/-- **Carrying out a plan writes down what the plan counts.**  If the test has ids enough, it succeeds: the statements go
behind those of the test, as many as the plan counts, with increasing new ids and each one speaking only of null and of
results before it; and the answer stands for the value, with the type of the plan.  If not, the ids run out. -/
theorem materialize_written (p : Plan) (d : Draft) :
    (d.test.nextRef.toNat + p.ids ≤ Test.lastId.toNat →
      ∃ r d' as, p.materialize d = .ok r d' ∧ p.Written r d.test d'.test as) ∧
    (Test.lastId.toNat < d.test.nextRef.toNat + p.ids → ∃ d', p.materialize d = .error .idsExhausted d') := by
  obtain ⟨henough, hexhausted⟩ := materialize_spends p d
  refine ⟨fun hle => ?_, hexhausted⟩
  obtain ⟨r, d', hok, -, as, hwritten⟩ := henough hle
  exact ⟨r, d', as, hok, hwritten⟩

/-- An account without an owner; its entry for the static field `Account.home` holds what `Bank.main` is set to first. -/
def account : Plan :=
  .object (.object "Account") (defaultConstructor ⟨"Account", false⟩)
    [(⟨"Account", "owner", .object "Person", false⟩, .null (.object "Person")),
     (⟨"Account", "home", .object "Bank", true⟩, .staticField ⟨"Bank", "main", .object "Bank", true⟩
       (.object (.object "Bank") (defaultConstructor ⟨"Bank", false⟩) []))]

/-- Six ids are enough for the account, which takes five statements, and five ids are not. -/
theorem materialize_written_account :
    (∃ r d' as, account.materialize { test := { nextRef := 4294967289 } } = .ok r d' ∧ as.length = 5 ∧
      account.Written r { nextRef := 4294967289 } d'.test as) ∧
    ∃ d', account.materialize { test := { nextRef := 4294967290 } } = .error .idsExhausted d' := by
  have hids : account.ids = 6 := rfl
  refine ⟨?_, (materialize_written account _).2 (by rw [hids]; decide)⟩
  obtain ⟨r, d', as, hok, hwritten⟩ :=
    (materialize_written account { test := { nextRef := 4294967289 } }).1 (by rw [hids]; decide)
  exact ⟨r, d', as, hok, hwritten.length, hwritten⟩

end Plan

end Retrace
