import Mathlib.Data.List.Nodup
import Retrace.Proofs.Drafts
import Retrace.Proofs.World
/-!
# Building — statements that build values next to one another

What a stretch of statements leaves alone is said by `Grows`: ids already given out, addresses already in use, and the
static fields that are not among those it stores.  Each value is built at new addresses, so what was built before stays
as it was as long as no static field is stored twice.  That is how the entries of an object (`Fills`) and the inputs of
a call (`Builds`) fit together.
-/
namespace Retrace

open World (Represents Holds Passes)

/-! ## What statements leave alone -/

/-- **A stretch of statements** from a test and a world to later ones.  It may store the static fields `S` and change
the objects at the addresses `X`; all else that was there stays. -/
structure Grows (S : List FieldRef) (X : List Nat) (t t' : Test) (w w' : World) : Prop where
  run : ∃ actions, t'.actions = t.actions ++ actions ∧ w.run actions = some w'
  ids : t.nextRef.toNat ≤ t'.nextRef.toNat
  env : ∀ id : RefId, id.val.toNat < t.nextRef.toNat → w'.env id = w.env id
  size : w.heap.length ≤ w'.heap.length
  heap : ∀ a, a < w.heap.length → a ∉ X → w'.heap[a]? = w.heap[a]?
  statics : ∀ f, f ∉ S → w'.statics f = w.statics f

/-- A reference whose value is settled: nothing later rebinds it, and its static field is among the stored ones. -/
def Reference.Settled (n : Nat) (S : List FieldRef) : Reference → Prop
  | .null _ _ => True
  | .var id _ => id.val.toNat < n
  | .staticField _ _ field => field ∈ S
  | _ => False

namespace Grows

variable {S S' : List FieldRef} {X X' : List Nat} {t t₁ t' : Test} {w w₁ w' : World}

theorem refl (hids : t.nextRef.toNat ≤ t'.nextRef.toNat) (hacts : t'.actions = t.actions) : Grows [] [] t t' w w :=
  ⟨⟨[], by rw [hacts, List.append_nil], rfl⟩, hids, fun _ _ => rfl, Nat.le_refl _, fun _ _ _ => rfl, fun _ _ => rfl⟩

theorem trans (h : Grows S X t t₁ w w₁) (h' : Grows S' X' t₁ t' w₁ w') : Grows (S ++ S') (X ++ X') t t' w w' := by
  obtain ⟨as, has, hrun⟩ := h.run
  obtain ⟨bs, hbs, hrun'⟩ := h'.run
  refine ⟨⟨as ++ bs, ?_, World.run_append hrun hrun'⟩, Nat.le_trans h.ids h'.ids, fun id hid => ?_,
    Nat.le_trans h.size h'.size, fun a ha hX => ?_, fun f hf => ?_⟩
  · rw [hbs, has, List.append_assoc]
  · rw [h'.env id (Nat.lt_of_lt_of_le hid h.ids), h.env id hid]
  · rw [List.mem_append, not_or] at hX
    rw [h'.heap a (Nat.lt_of_lt_of_le ha h.size) hX.2, h.heap a ha hX.1]
  · rw [List.mem_append, not_or] at hf
    rw [h'.statics f hf.2, h.statics f hf.1]

theorem mono (h : Grows S X t t' w w') (hS : S ⊆ S') (hX : ∀ a ∈ X, a < w.heap.length → a ∈ X') :
    Grows S' X' t t' w w' :=
  ⟨h.run, h.ids, h.env, h.size, fun a ha hX' => h.heap a ha fun hmem => hX' (hX a hmem ha),
    fun f hf => h.statics f fun hmem => hf (hS hmem)⟩

theorem eval (h : Grows S X t t' w w') {r : Reference} (hr : r.Settled t.nextRef.toNat S') (hS : S'.Disjoint S) :
    w'.eval r = w.eval r := by
  cases r with
  | null id ty => rfl
  | var id ty => exact h.env id hr
  | staticField id ty field => exact h.statics field (hS hr)
  | _ => exact hr.elim

theorem represents (h : Grows S X t t' w w') {s : Shape} {v : Datum} {as : List Nat} (hrep : w.Represents s v as)
    (has : ∀ a ∈ as, a < w.heap.length ∧ a ∉ X) (hS : (s.stores.map Prod.fst).Disjoint S) : w'.Represents s v as :=
  hrep.frame (fun a ha => h.heap a (has a ha).1 (has a ha).2)
    fun _ hp => h.statics _ (hS (List.mem_map_of_mem hp))

end Grows

/-! ## What is built -/

def World.New (w w' : World) (as : List Nat) : Prop := ∀ a ∈ as, w.heap.length ≤ a ∧ a < w'.heap.length

theorem World.New.disjoint {w w₁ w' : World} {as bs : List Nat} (has : w.New w₁ as) (hbs : w₁.New w' bs) :
    as.Disjoint bs := by
  intro a ha hb
  have h₁ := has a ha
  have h₂ := hbs a hb
  omega

theorem World.New.mono {w₀ w w' w₁ : World} {as : List Nat} (h : w.New w' as) (hl : w₀.heap.length ≤ w.heap.length)
    (hr : w'.heap.length ≤ w₁.heap.length) : w₀.New w₁ as := by
  intro a ha
  have := h a ha
  omega

namespace Shape

mutual

/-- What the value of a stored field stores is stored as well. -/
theorem stores_trans : ∀ {s : Shape} {p : FieldRef × Shape}, p ∈ s.stores → p.2.stores ⊆ s.stores
  | .null _, p, h => by simp [stores] at h
  | .constant _, p, h => by simp [stores] at h
  | .array _ _, p, h => by simp [stores] at h
  | .object _ fields, p, h => by
    rw [stores] at h ⊢
    exact storesOfFields_trans h
  | .staticField field value, p, h => by
    rw [stores] at h ⊢
    rcases List.mem_append.1 h with h | h
    · exact List.Subset.trans (stores_trans h) (List.subset_append_left _ _)
    · rw [List.mem_singleton.1 h]
      exact List.subset_append_left _ _

theorem storesOfFields_trans : ∀ {fields : List (FieldRef × Shape)} {p : FieldRef × Shape}, p ∈ storesOfFields fields →
    p.2.stores ⊆ storesOfFields fields
  | [], p, h => by simp [storesOfFields] at h
  | (field, value) :: rest, p, h => by
    rw [storesOfFields] at h ⊢
    have hvalue : value.stores ⊆ value.stores ++ (if field.isStatic then [(field, value)] else []) ++
        storesOfFields rest := by
      rw [List.append_assoc]
      exact List.subset_append_left _ _
    rcases List.mem_append.1 h with h | h
    · rcases List.mem_append.1 h with h | h
      · exact List.Subset.trans (stores_trans h) hvalue
      · split at h
        · rw [List.mem_singleton.1 h]
          exact hvalue
        · cases h
    · exact List.Subset.trans (storesOfFields_trans h) (List.subset_append_right _ _)

end

end Shape

/-- **A stored field holds the value described**, built at new addresses. -/
def Stored (w w' : World) (p : FieldRef × Shape) : Prop :=
  ∃ v as, w'.statics p.1 = some v ∧ w'.Represents p.2 v as ∧ w.New w' as

/-- A stored field stays as it is when later statements store other fields, and change no object but older ones. -/
theorem Stored.later {S : List FieldRef} {X : List Nat} {t t' : Test} {w₀ w w' : World} {ps : List (FieldRef × Shape)}
    {p : FieldRef × Shape} (h : Stored w₀ w p) (hgrows : Grows S X t t' w w') (hX : ∀ a ∈ X, a < w₀.heap.length)
    (hp : p ∈ ps) (hps : p.2.stores ⊆ ps) (hS : (ps.map Prod.fst).Disjoint S) : Stored w₀ w' p := by
  obtain ⟨v, as, hv, hrep, hnew⟩ := h
  refine ⟨v, as, ?_, hgrows.represents hrep (fun a ha => ⟨(hnew a ha).2, fun hmem => ?_⟩) fun f hf => hS ?_,
    hnew.mono (Nat.le_refl _) hgrows.size⟩
  · rw [hgrows.statics p.1 (hS (List.mem_map_of_mem hp)), hv]
  · exact absurd (hX a hmem) (Nat.not_lt.2 (hnew a ha).1)
  · exact List.map_subset _ hps hf

theorem Stored.earlier {w₀ w w' : World} {p : FieldRef × Shape} (h : Stored w w' p)
    (hl : w₀.heap.length ≤ w.heap.length) : Stored w₀ w' p := by
  obtain ⟨v, as, hv, hrep, hnew⟩ := h
  exact ⟨v, as, hv, hrep, hnew.mono hl (Nat.le_refl _)⟩

/-- **One value, built**: its reference stands for it. -/
structure Built (s : Shape) (r : Reference) (t t' : Test) (w w' : World) : Prop where
  grows : Grows (s.stores.map Prod.fst) [] t t' w w'
  value : ∃ v as, w'.eval r = some v ∧ w'.Represents s v as ∧ as.Nodup ∧ w.New w' as
  stored : ∀ p ∈ s.stores, Stored w w' p
  settled : r.Settled t'.nextRef.toNat (s.stores.map Prod.fst)

def storesOfAll (shapes : List Shape) : List (FieldRef × Shape) := shapes.flatMap Shape.stores

theorem storesOfAll_append (ss ss' : List Shape) : storesOfAll (ss ++ ss') = storesOfAll ss ++ storesOfAll ss' :=
  List.flatMap_append

theorem storesOfAll_singleton (s : Shape) : storesOfAll [s] = s.stores := by
  simp [storesOfAll]

theorem storesOfAll_trans {ss : List Shape} {p : FieldRef × Shape} (hp : p ∈ storesOfAll ss) :
    p.2.stores ⊆ storesOfAll ss := by
  obtain ⟨s, hs, hp⟩ := List.mem_flatMap.1 hp
  intro q hq
  exact List.mem_flatMap.2 ⟨s, hs, Shape.stores_trans hp hq⟩

/-- **Several values, built one after the other**: their references stand for them. -/
structure Builds (ss : List Shape) (rs : List Reference) (t t' : Test) (w w' : World) : Prop where
  grows : Grows ((storesOfAll ss).map Prod.fst) [] t t' w w'
  passes : ∃ as, w'.Passes ss rs as ∧ as.Nodup ∧ w.New w' as
  stored : ∀ p ∈ storesOfAll ss, Stored w w' p
  settled : ∀ r ∈ rs, r.Settled t'.nextRef.toNat ((storesOfAll ss).map Prod.fst)

theorem Reference.Settled.mono {n n' : Nat} {S S' : List FieldRef} {r : Reference} (h : r.Settled n S) (hn : n ≤ n')
    (hS : S ⊆ S') : r.Settled n' S' := by
  cases r with
  | null id ty => trivial
  | var id ty => exact Nat.lt_of_lt_of_le h hn
  | staticField id ty field => exact hS h
  | _ => exact h.elim

theorem World.Passes.append {w : World} {ss' : List Shape} {rs' : List Reference} {bs : List Nat} :
    ∀ {ss : List Shape} {rs : List Reference} {as : List Nat}, w.Passes ss rs as → w.Passes ss' rs' bs →
      w.Passes (ss ++ ss') (rs ++ rs') (as ++ bs)
  | [], [], as, h, h' => by
    rw [Passes] at h
    subst h
    exact h'
  | s :: ss, r :: rs, as, h, h' => by
    obtain ⟨v, cs, ds, rfl, hv, hrep, hrest⟩ := h
    exact ⟨v, cs, ds ++ bs, List.append_assoc cs ds bs, hv, hrep, hrest.append h'⟩

theorem Grows.passes {S S' : List FieldRef} {X : List Nat} {t t' : Test} {w w' : World} (h : Grows S X t t' w w')
    (hS' : S'.Disjoint S) : ∀ {ss : List Shape} {rs : List Reference} {as : List Nat}, w.Passes ss rs as →
      (∀ a ∈ as, a < w.heap.length ∧ a ∉ X) → (∀ r ∈ rs, r.Settled t.nextRef.toNat S') →
      (storesOfAll ss).map Prod.fst ⊆ S' → w'.Passes ss rs as
  | [], [], as, hp, _, _, _ => hp
  | s :: ss, r :: rs, as, hp, has, hrs, hss => by
    obtain ⟨v, bs, cs, rfl, hv, hrep, hrest⟩ := hp
    rw [storesOfAll, List.flatMap_cons, List.map_append, List.append_subset] at hss
    refine ⟨v, bs, cs, rfl, ?_, ?_, ?_⟩
    · rw [h.eval (hrs r List.mem_cons_self) hS', hv]
    · exact h.represents hrep (fun a ha => has a (List.mem_append_left cs ha)) fun f hf => hS' (hss.1 hf)
    · exact h.passes hS' hrest (fun a ha => has a (List.mem_append_right bs ha))
        (fun r hr => hrs r (List.mem_cons_of_mem _ hr)) hss.2

namespace Builds

variable {ss ss' : List Shape} {rs rs' : List Reference} {t t₁ t' : Test} {w w₁ w' : World}

theorem nil : Builds [] [] t t w w :=
  ⟨.refl (Nat.le_refl _) rfl, ⟨[], rfl, List.nodup_nil, List.forall_mem_nil _⟩, List.forall_mem_nil _,
    List.forall_mem_nil _⟩

theorem single {s : Shape} {r : Reference} (h : Built s r t t' w w') : Builds [s] [r] t t' w w' := by
  obtain ⟨v, as, hv, hrep, hnodup, hnew⟩ := h.value
  refine ⟨?_, ⟨as, ⟨v, as, [], (List.append_nil as).symm, hv, hrep, rfl⟩, hnodup, hnew⟩, ?_, ?_⟩
  all_goals rw [storesOfAll_singleton]
  · exact h.grows
  · exact h.stored
  · intro r' hr'
    rw [List.mem_singleton.1 hr']
    exact h.settled

/-- **What was built stays**, as long as later statements store other static fields. -/
theorem kept {S : List FieldRef} (h : Builds ss rs t t₁ w w₁) (hgrows : Grows S [] t₁ t' w₁ w')
    (hdisj : ((storesOfAll ss).map Prod.fst).Disjoint S) : ∃ as, w'.Passes ss rs as ∧ as.Nodup ∧ w.New w₁ as := by
  obtain ⟨as, hpass, hnodup, hnew⟩ := h.passes
  refine ⟨as, ?_, hnodup, hnew⟩
  exact hgrows.passes hdisj hpass (fun a ha => ⟨(hnew a ha).2, List.not_mem_nil⟩) h.settled (List.Subset.refl _)

theorem append (h : Builds ss rs t t₁ w w₁) (h' : Builds ss' rs' t₁ t' w₁ w')
    (hnodup : ((storesOfAll (ss ++ ss')).map Prod.fst).Nodup) : Builds (ss ++ ss') (rs ++ rs') t t' w w' := by
  rw [storesOfAll_append, List.map_append] at hnodup
  have hdisj := List.disjoint_of_nodup_append hnodup
  obtain ⟨as, hpass, hnd, hnew⟩ := h.kept h'.grows hdisj
  obtain ⟨bs, hpass', hnd', hnew'⟩ := h'.passes
  refine ⟨?_, ⟨as ++ bs, ?_, ?_, ?_⟩, fun p hp => ?_, fun r hr => ?_⟩
  · rw [storesOfAll_append, List.map_append]
    exact h.grows.trans h'.grows
  · exact hpass.append hpass'
  · exact List.Nodup.append hnd hnd' (hnew.disjoint hnew')
  · intro a ha
    rcases List.mem_append.1 ha with ha | ha
    · exact hnew.mono (Nat.le_refl _) h'.grows.size a ha
    · exact hnew'.mono h.grows.size (Nat.le_refl _) a ha
  · rw [storesOfAll_append] at hp
    rcases List.mem_append.1 hp with hp | hp
    · exact (h.stored p hp).later h'.grows (List.forall_mem_nil _) hp (storesOfAll_trans hp) hdisj
    · exact (h'.stored p hp).earlier h.grows.size
  · rw [storesOfAll_append, List.map_append]
    rcases List.mem_append.1 hr with hr | hr
    · exact (h.settled r hr).mono h'.grows.ids (List.subset_append_left _ _)
    · exact (h'.settled r hr).mono (Nat.le_refl _) (List.subset_append_right _ _)

end Builds

/-! ## The fields of an object -/

/-- The static field that an entry of an object stores, if it is one. -/
def storedBy (f : FieldRef) : List FieldRef := if f.isStatic then [f] else []

theorem storesOfFields_cons (f : FieldRef) (s : Shape) (rest : List (FieldRef × Shape)) :
    (Shape.storesOfFields ((f, s) :: rest)).map Prod.fst =
      s.stores.map Prod.fst ++ (storedBy f ++ (Shape.storesOfFields rest).map Prod.fst) := by
  rw [Shape.storesOfFields, storedBy]
  split <;> simp

/-- **One assignment to a field** of the object at `a`, which was `o` and is `o'` afterwards. -/
structure Puts (f : FieldRef) (v : Datum) (a : Nat) (o o' : Instance) (w w' : World) : Prop where
  env : w'.env = w.env
  size : w'.heap.length = w.heap.length
  object : w'.heap[a]? = some o'
  elsewhere : ∀ b, b ≠ a → w'.heap[b]? = w.heap[b]?
  statics : ∀ g, g ∉ storedBy f → w'.statics g = w.statics g
  owner : o'.owner = o.owner
  contents : w'.contents o' f = some v
  others : ∀ g, g.isStatic ∨ g ≠ f → o'.fields g = o.fields g

theorem exec_fieldTarget {w : World} {object built : Reference} {v : Datum} {a : Nat} {o : Instance} (f : FieldRef)
    (id : RefId) (hv : w.eval built = some v) (hobject : w.eval object = some (.object a)) (ho : w.heap[a]? = some o) :
    ∃ w' o', w.exec (.assign (Draft.fieldTarget object f id) built) = some w' ∧ Puts f v a o o' w w' := by
  unfold Draft.fieldTarget
  split
  · rename_i hs
    refine ⟨w.store f v, o, by simp [World.exec, hv], rfl, rfl, ho, fun _ _ => rfl, fun g hg => ?_, rfl, ?_, fun _ _ => rfl⟩
    · refine Function.update_of_ne (fun h => hg ?_) _ _
      rw [storedBy, if_pos hs, h]
      exact List.mem_singleton_self f
    · rw [World.contents, if_pos hs]
      exact Function.update_self f _ _
  · rename_i hs
    obtain ⟨ha, -⟩ := List.getElem?_eq_some_iff.1 ho
    refine ⟨{ w with heap := w.heap.set a { o with fields := Function.update o.fields f (some v) } },
      { o with fields := Function.update o.fields f (some v) }, by simp [World.exec, hv, hobject, ho],
      rfl, List.length_set, ?_, fun b hb => ?_, fun _ _ => rfl, rfl, ?_, fun g hg => ?_⟩
    · rw [List.getElem?_set_self ha]
    · rw [List.getElem?_set_ne (Ne.symm hb)]
    · rw [World.contents, if_neg hs]
      exact Function.update_self f _ _
    · refine Function.update_of_ne (fun h => ?_) _ _
      subst h
      rcases hg with hg | hg
      · exact hs hg
      · exact hg rfl

theorem Puts.grows {f : FieldRef} {v : Datum} {a : Nat} {o o' : Instance} {w w' : World} {t t' : Test} {action : Action}
    (h : Puts f v a o o' w w') (hexec : w.exec action = some w') (hacts : t'.actions = t.actions ++ [action])
    (hids : t'.nextRef.toNat = t.nextRef.toNat + 1) : Grows (storedBy f) [a] t t' w w' := by
  refine ⟨⟨[action], hacts, World.run_single hexec⟩, by omega, fun id _ => by rw [h.env], Nat.le_of_eq h.size.symm,
    fun b _ hb => ?_, h.statics⟩
  exact h.elsewhere b fun he => hb (List.mem_singleton.2 he)

/-- **Entries of an object, filled in**: the object at `a` was `o` before and is `o'` afterwards. -/
structure Fills (fields : List (FieldRef × Shape)) (a : Nat) (o o' : Instance) (t t' : Test) (w w' : World) : Prop where
  grows : Grows ((Shape.storesOfFields fields).map Prod.fst) [a] t t' w w'
  object : w'.heap[a]? = some o'
  owner : o'.owner = o.owner
  others : ∀ f, f.isStatic ∨ f ∉ fields.map Prod.fst → o'.fields f = o.fields f
  holds : ∃ as, w'.Holds o' fields as ∧ as.Nodup ∧ w.New w' as
  stored : ∀ p ∈ Shape.storesOfFields fields, Stored w w' p

namespace Fills

variable {a : Nat} {o o₁ o' : Instance} {t t₁ t₂ t' : Test} {w w₁ w₂ w' : World}

theorem nil (ho : w.heap[a]? = some o) : Fills [] a o o t t w w := by
  refine ⟨(Grows.refl (Nat.le_refl _) rfl).mono (List.nil_subset _) (List.forall_mem_nil _), ho, rfl, fun _ _ => rfl,
    ⟨[], ?_, List.nodup_nil, List.forall_mem_nil _⟩, fun p hp => ?_⟩
  · rw [World.Holds]
  · rw [Shape.storesOfFields] at hp
    cases hp

/-- What was put into a field is still there when the rest is filled in, unless a later entry is for the same field. -/
theorem contents {f : FieldRef} {v : Datum} {rest : List (FieldRef × Shape)} (hrest : Fills rest a o₁ o' t₂ t' w₂ w')
    (hputs : Puts f v a o o₁ w₁ w₂) (hdisj : (storedBy f).Disjoint ((Shape.storesOfFields rest).map Prod.fst))
    (hlast : f.isStatic ∨ f ∉ rest.map Prod.fst) : w'.contents o' f = some v := by
  have hcontents := hputs.contents
  unfold World.contents at hcontents ⊢
  by_cases hs : f.isStatic
  · rw [if_pos hs] at hcontents ⊢
    rw [hrest.grows.statics f, hcontents]
    refine hdisj ?_
    rw [storedBy, if_pos hs]
    exact List.mem_singleton_self f
  · rw [if_neg hs] at hcontents ⊢
    rw [hrest.others f (.inr (hlast.resolve_left hs)), hcontents]

/-- **One more entry in front**: its value is built, then stored, then the rest is filled in. -/
theorem cons {f : FieldRef} {s : Shape} {rest : List (FieldRef × Shape)} {r : Reference} {v : Datum} {bs : List Nat}
    (hnodup : ((Shape.storesOfFields ((f, s) :: rest)).map Prod.fst).Nodup) (ha : a < w.heap.length)
    (hbuilt : Built s r t t₁ w w₁) (hrep : w₁.Represents s v bs) (hbs : bs.Nodup) (hnew : w.New w₁ bs)
    (hputs : Puts f v a o o₁ w₁ w₂) (hgrows : Grows (storedBy f) [a] t₁ t₂ w₁ w₂)
    (hrest : Fills rest a o₁ o' t₂ t' w₂ w') : Fills ((f, s) :: rest) a o o' t t' w w' := by
  rw [storesOfFields_cons] at hnodup
  obtain ⟨-, hnodup', hdisj⟩ := List.nodup_append'.1 hnodup
  have hlater : Grows (storedBy f ++ (Shape.storesOfFields rest).map Prod.fst) [a] t₁ t' w₁ w' :=
    (hgrows.trans hrest.grows).mono (List.Subset.refl _) fun b hb _ => by simpa using hb
  have hsize : w.heap.length ≤ w₂.heap.length := Nat.le_trans hbuilt.grows.size hgrows.size
  -- the value was built at new addresses, so the object that is filled in is not among them
  have hrep' : w'.Represents s v bs := by
    refine hlater.represents hrep (fun b hb => ⟨(hnew b hb).2, fun hmem => ?_⟩) hdisj
    rw [List.mem_singleton.1 hmem] at hb
    exact absurd (hnew a hb).1 (Nat.not_le.2 ha)
  have hcontents := hrest.contents hputs (List.disjoint_of_nodup_append hnodup')
  refine ⟨?_, hrest.object, hrest.owner.trans hputs.owner, fun g hg => ?_, ?_, fun p hp => ?_⟩
  · rw [storesOfFields_cons]
    exact hbuilt.grows.trans hlater
  · rw [List.map_cons, List.mem_cons, not_or] at hg
    rw [hrest.others g (hg.imp_right And.right), hputs.others g (hg.imp_right And.left)]
  · obtain ⟨cs, hholds, hcs, hnew'⟩ := hrest.holds
    by_cases hover : f.isStatic = false ∧ f ∈ rest.map Prod.fst
    · refine ⟨cs, ?_, hcs, hnew'.mono hsize (Nat.le_refl _)⟩
      rw [World.Holds]
      exact ⟨[], cs, rfl, hholds, by rw [if_pos hover]⟩
    · refine ⟨bs ++ cs, ?_, ?_, ?_⟩
      · rw [World.Holds]
        refine ⟨bs, cs, rfl, hholds, ?_⟩
        rw [if_neg hover]
        refine ⟨v, hcontents ?_, hrep'⟩
        rwa [not_and_or, Bool.not_eq_false] at hover
      · refine List.Nodup.append hbs hcs (hnew.disjoint (hnew'.mono ?_ (Nat.le_refl _)))
        exact hgrows.size
      · intro b hb
        rcases List.mem_append.1 hb with hb | hb
        · exact hnew.mono (Nat.le_refl _) hlater.size b hb
        · exact hnew'.mono hsize (Nat.le_refl _) b hb
  · rw [Shape.storesOfFields] at hp
    rcases List.mem_append.1 hp with hp | hp
    · rcases List.mem_append.1 hp with hp | hp
      · exact (hbuilt.stored p hp).later hlater (fun b hb => by rwa [List.mem_singleton.1 hb]) hp
          (Shape.stores_trans hp) hdisj
      · split at hp
        · rename_i hs
          rw [List.mem_singleton.1 hp]
          have hv := hcontents (.inl hs)
          rw [World.contents, if_pos hs] at hv
          exact ⟨v, bs, hv, hrep', hnew.mono (Nat.le_refl _) hlater.size⟩
        · cases hp
    · exact (hrest.stored p hp).earlier hsize

end Fills

end Retrace
