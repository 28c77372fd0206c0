import Retrace.Recorder.Basic
/-!
# Site order — call sites are kept in order

A recorder keeps its call sites in the order of their positions, and those at one position in the order of their
methods (`CallSite.Before`).  Noting a site keeps the others in order, wherever it belongs (`Sites.Ordered.insert`): in
whatever order calls return, no site is noted twice.

Methods are compared by owner, name, signature and kind, and signatures by their types, so this comes down to the order
of types.  An array comes after all that is none, so types are compared by how deep they nest arrays, then by what they
are arrays of (`Ty.order_eq`).
-/
namespace Retrace

/-! ## Types and methods -/

/-- A comparison that is another one is as lawful. -/
theorem transOrd_of_compare_eq {α : Type} [Ord α] {cmp : α → α → Ordering} [Std.TransCmp cmp]
    (h : ∀ a b : α, compare a b = cmp a b) : Std.TransOrd α := by
  have heq : (compare : α → α → Ordering) = cmp := by
    funext a b
    exact h a b
  show Std.TransCmp compare
  rw [heq]
  infer_instance

namespace Ty

def depth : Ty → Nat
  | .array element => element.depth + 1
  | _ => 0

def baseRank : Ty → Nat
  | .array element => element.baseRank
  | t => t.rank

def baseName : Ty → String
  | .array element => element.baseName
  | .object name => name
  | _ => ""

/-- **The order of types is lexicographic**: by depth, then by the kind of type at the bottom, then by its name. -/
theorem order_eq (a b : Ty) :
    order a b = compareLex (compareOn depth) (compareLex (compareOn baseRank) (compareOn baseName)) a b := by
  induction a generalizing b with
  | array a ih =>
    cases b with
    | array b =>
      have hdepth : compare (a.depth + 1) (b.depth + 1) = compare a.depth b.depth := by
        simp [Nat.compare_eq_ite_lt]
      rw [order, ih b]
      simp only [compareLex, compareOn, depth, baseRank, baseName, hdepth]
    | _ => rfl
  | object a => cases b <;> rfl
  | _ => cases b <;> rfl

instance : Std.TransOrd Ty := transOrd_of_compare_eq order_eq

end Ty

theorem Class.compare_eq (a b : Class) :
    compare a b = compareLex (compareOn Class.name) (compareOn Class.isInterface) a b := by
  show Ordering.then _ (Ordering.then _ .eq) = _
  rw [Ordering.then_eq]
  rfl

instance : Std.TransOrd Class := transOrd_of_compare_eq Class.compare_eq

theorem Signature.compare_eq (a b : Signature) :
    compare a b = compareLex (compareOn Signature.params) (compareOn Signature.ret) a b := by
  show Ordering.then _ (Ordering.then _ .eq) = _
  rw [Ordering.then_eq]
  rfl

instance : Std.TransOrd Signature := transOrd_of_compare_eq Signature.compare_eq

theorem Method.compare_eq (a b : Method) :
    compare a b = compareLex (compareOn Method.owner) (compareLex (compareOn Method.name)
      (compareLex (compareOn Method.sig) (compareOn Method.isStatic))) a b := by
  show Ordering.then _ (Ordering.then _ (Ordering.then _ (Ordering.then _ .eq))) = _
  rw [Ordering.then_eq]
  rfl

instance : Std.TransOrd Method := transOrd_of_compare_eq Method.compare_eq

/-! ## Call sites -/

namespace CallSite

theorem compare_eq (a b : CallSite) :
    compare a b = compareLex (compareOn CallSite.position) (compareOn CallSite.method) a b := by
  show Ordering.then _ (Ordering.then _ .eq) = _
  rw [Ordering.then_eq]
  rfl

instance : Std.TransOrd CallSite := transOrd_of_compare_eq compare_eq

/-- **One call site comes before another**: by position, and at one position by method. -/
def Before (s s' : CallSite) : Prop :=
  s.position < s'.position ∨ s.position = s'.position ∧ compare s.method s'.method = .lt

theorem before_iff {s s' : CallSite} : s.Before s' ↔ compare s s' = .lt := by
  rw [compare_eq, compareLex, Ordering.then_eq_lt]
  show _ ↔ compare s.position s'.position = .lt ∨ compare s.position s'.position = .eq ∧ _
  rw [Nat.compare_eq_lt, Nat.compare_eq_eq]
  rfl

end CallSite

namespace Sites

/-- Sites in order, each noted once. -/
def Ordered (sites : Sites) : Prop := sites.Pairwise fun e e' => e.1.Before e'.1

theorem mem_insert {site : CallSite} {length : Nat} {e : CallSite × Nat} : ∀ {sites : Sites},
    e ∈ insert site length sites → e = (site, length) ∨ e ∈ sites
  | [], h => .inl (List.mem_singleton.1 h)
  | (s, n) :: rest, h => by
    unfold insert at h
    split at h
    · exact List.mem_cons.1 h
    · rcases List.mem_cons.1 h with h | h
      · exact .inl h
      · exact .inr (List.mem_cons_of_mem _ h)
    · rcases List.mem_cons.1 h with h | h
      · exact .inr (h ▸ List.mem_cons_self)
      · rcases mem_insert h with h | h
        · exact .inl h
        · exact .inr (List.mem_cons_of_mem _ h)

/-- **Noting a site keeps the sites in order.** -/
theorem Ordered.insert (site : CallSite) (length : Nat) : ∀ {sites : Sites}, sites.Ordered →
    (Sites.insert site length sites).Ordered
  | [], _ => List.pairwise_singleton _ _
  | (s, n) :: rest, h => by
    obtain ⟨hfirst, hrest⟩ := List.pairwise_cons.1 h
    unfold Sites.insert
    split
    · rename_i hlt
      refine List.pairwise_cons.2 ⟨List.forall_mem_cons.2 ⟨CallSite.before_iff.2 hlt, fun e he => ?_⟩, h⟩
      exact CallSite.before_iff.2 (Std.TransCmp.lt_trans hlt (CallSite.before_iff.1 (hfirst e he)))
    · rename_i heq
      refine List.pairwise_cons.2 ⟨fun e he => CallSite.before_iff.2 ?_, hrest⟩
      rw [Std.TransCmp.congr_left heq]
      exact CallSite.before_iff.1 (hfirst e he)
    · rename_i hgt
      refine List.pairwise_cons.2 ⟨fun e he => ?_, Ordered.insert site length hrest⟩
      rcases mem_insert he with rfl | he
      · exact CallSite.before_iff.2 (Std.OrientedCmp.gt_iff_lt.1 hgt)
      · exact hfirst e he

end Sites
end Retrace
