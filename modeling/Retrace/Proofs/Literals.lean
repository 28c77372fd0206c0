import Retrace.Cache
import Retrace.Plan
import Retrace.Proofs.Registration
import Retrace.Proofs.Sequence
/-!
# Literals — the constant of a literal, and the literal of a constant

Two tables lead from literals to constants and back.  One asks what type is declared: primitives admit their boxes, and
strings, class literals and methods only their own class, which comes to the same rule (`Literal.toConstant_scalar`,
`Literal.toConstant_method`).  The literal of a constant stands for it wherever the type is of the constant's kind, if a
method constant is what its own reference leads to (`Literal.toConstant_toLiteral`).

The way back rests, for methods, on the log of the catalog: what it finds under a reference has that reference.
-/
namespace Retrace

namespace Catalog

end Catalog

namespace Constant

/-- A constant that a catalog bears out: a method is what its own reference leads to. -/
def Resolved (cat : Catalog) (k : Constant) : Prop := ∀ m, k = .method m → cat.resolveMethod m.ref = .ok m

end Constant

namespace Literal

variable {cat : Catalog} {l : Literal} {declared : Ty} {k : Constant}

/-! ## What is declared -/

theorem toConstant_scalar (s : Scalar) : (Literal.scalar s).toConstant declared cat =
    if declared.isKindOf s.ty then .ok (.scalar s)
    else .error (.unsupportedLiteral (Literal.scalar s).render declared.render) := by
  have hfits : s.fits declared = declared.isKindOf s.ty := by
    cases s with
    | string value => exact (Ty.isKindOf_object declared Ty.stringClass).symm
    | classOf ty => exact (Ty.isKindOf_object declared Ty.literalClass).symm
    | _ => rfl
  rw [← hfits]
  rfl

theorem toConstant_method (ref : MethodRef) : (Literal.method ref).toConstant declared cat =
    if declared.isKindOf .methodLiteral then (cat.resolveMethod ref).map .method
    else .error (.unsupportedLiteral (Literal.method ref).render declared.render) := by
  rw [Ty.methodLiteral, Ty.isKindOf_object]
  rfl

/-- **A literal becomes a constant of the declared kind.** -/
theorem isKindOf_of_toConstant (h : l.toConstant declared cat = .ok k) : declared.isKindOf k.ty = true := by
  cases l with
  | scalar s =>
    rw [toConstant_scalar] at h
    split at h
    · rename_i hkind
      cases h
      exact hkind
    · cases h
  | method ref =>
    rw [toConstant_method] at h
    split at h
    · rename_i hkind
      obtain ⟨m, -, rfl⟩ := map_ok h
      exact hkind
    · cases h
  | other description => cases h

/-! ## There and back -/

/-- **The literal of a constant stands for it.** -/
theorem toConstant_toLiteral (hl : k.toLiteral = .ok l) (hkind : declared.isKindOf k.ty = true)
    (hresolved : k.Resolved cat) : l.toConstant declared cat = .ok k := by
  cases k with
  | null => cases hl
  | scalar s =>
    cases hl
    rw [Constant.ty] at hkind
    rw [toConstant_scalar, if_pos hkind]
  | method m =>
    cases hl
    rw [Constant.ty] at hkind
    rw [toConstant_method, if_pos hkind, hresolved m rfl]
    rfl

end Literal
end Retrace
