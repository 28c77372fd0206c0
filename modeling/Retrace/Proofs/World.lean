import Mathlib.Logic.Function.Basic
import Retrace.Action
import Retrace.Shape
/-!
# World — what the statements of a test do, and which values they rebuild

The statements that rebuild solved values are literals, constructions without arguments and assignments to fields.
`World.run` carries them out over an environment, a heap of objects with their fields, and the static fields.
`World.Represents` says that a value of the heap is the one a solver described, and at which addresses its objects are.
What is elsewhere does not matter to it (`World.Represents.frame`).
-/
namespace Retrace

inductive Datum where
  | null
  | literal (value : Literal)
  | object (address : Nat)
  deriving DecidableEq

/-- An object on the heap, with the fields that have been set. -/
structure Instance where
  owner : String
  fields : FieldRef → Option Datum := fun _ => none

/-- What the statements of a test act on; addresses are places in the heap. -/
structure World where
  env : RefId → Option Datum := fun _ => none
  heap : List Instance := []
  statics : FieldRef → Option Datum := fun _ => none

namespace World

/-- The value of a reference: null, the value bound to a variable, or the present contents of a field. -/
def eval (w : World) : Reference → Option Datum
  | .var id _ => w.env id
  | .null _ _ => some .null
  | .constant _ _ value => some (.literal value)
  | .staticField _ _ field => w.statics field
  | .instanceField _ _ source field =>
    match w.eval source with
    | some (.object a) => w.heap[a]?.bind (·.fields field)
    | _ => none
  | .array _ _ | .element _ _ _ _ => none

def bind (w : World) (id : RefId) (v : Datum) : World := { w with env := Function.update w.env id (some v) }

def construct (w : World) (id : RefId) (owner : String) : World :=
  { w.bind id (.object w.heap.length) with heap := w.heap ++ [{ owner }] }

def store (w : World) (field : FieldRef) (v : Datum) : World :=
  { w with statics := Function.update w.statics field (some v) }

/-- Carries out a statement that rebuilds a value; there is no other. -/
def exec (w : World) : Action → Option World
  | .literal result value => some (w.bind result.id (.literal value))
  | .construct result constructor [] => some (w.construct result.id constructor.owner)
  | .assign (.staticField _ _ field) value => (w.eval value).map (w.store field)
  | .assign (.instanceField _ _ source field) value => do
    let v ← w.eval value
    let .object a ← w.eval source | none
    let o ← w.heap[a]?
    return { w with heap := w.heap.set a { o with fields := Function.update o.fields field (some v) } }
  | _ => none

def run (w : World) (actions : List Action) : Option World := actions.foldlM exec w

theorem run_single {w w' : World} {action : Action} (h : w.exec action = some w') : w.run [action] = some w' := by
  simp [run, h]

theorem run_append {w w₁ w₂ : World} {as bs : List Action} (h₁ : w.run as = some w₁) (h₂ : w₁.run bs = some w₂) :
    w.run (as ++ bs) = some w₂ := by
  rw [run, List.foldlM_append]
  change (w.run as >>= fun w => w.run bs) = some w₂
  rw [h₁]
  exact h₂

end World

/-! ## Solved values in a world -/

def Constant.datum : Constant → Datum
  | .null => .null
  | .scalar s => .literal (.scalar s)
  | .method m => .literal (.method m.ref)

namespace Shape

mutual

/-- The static fields that a solved value has a value for, at any depth.  Arrays cannot be rebuilt. -/
def stores : Shape → List (FieldRef × Shape)
  | .null _ | .constant _ | .array _ _ => []
  | .object _ fields => storesOfFields fields
  | .staticField field value => value.stores ++ [(field, value)]

def storesOfFields : List (FieldRef × Shape) → List (FieldRef × Shape)
  | [] => []
  | (field, value) :: rest =>
    value.stores ++ (if field.isStatic then [(field, value)] else []) ++ storesOfFields rest

end

end Shape

namespace World

/-- What a field of an object holds; its static fields are not in the object. -/
def contents (w : World) (o : Instance) (field : FieldRef) : Option Datum :=
  if field.isStatic then w.statics field else o.fields field

mutual

/-- **A value is the one described**, with its objects at the given addresses: an object of the class that has the
listed fields and no others, and for a static field the value that it holds. -/
def Represents (w : World) : Shape → Datum → List Nat → Prop
  | .null _, v, as => v = .null ∧ as = []
  | .constant k, v, as => v = k.datum ∧ as = []
  | .object owner fields, v, as => ∃ a o bs, v = .object a ∧ as = a :: bs ∧ w.heap[a]? = some o ∧
      o.owner = owner.name ∧ w.Holds o fields bs ∧ ∀ f, f.isStatic ∨ f ∉ fields.map Prod.fst → o.fields f = none
  | .staticField field value, v, as => w.statics field = some v ∧ w.Represents value v as
  | .array _ _, _, _ => False

/-- The listed fields hold the listed values; of two entries for one field of an object, the later one counts. -/
def Holds (w : World) (o : Instance) : List (FieldRef × Shape) → List Nat → Prop
  | [], as => as = []
  | (field, value) :: rest, as => ∃ bs cs, as = bs ++ cs ∧ w.Holds o rest cs ∧
      if field.isStatic = false ∧ field ∈ rest.map Prod.fst then bs = []
      else ∃ v, w.contents o field = some v ∧ w.Represents value v bs

end

/-- **References stand for the values described**, one for one, with the objects of all of them at the given
addresses. -/
def Passes (w : World) : List Shape → List Reference → List Nat → Prop
  | [], [], as => as = []
  | s :: ss, r :: rs, as => ∃ v bs cs, as = bs ++ cs ∧ w.eval r = some v ∧ w.Represents s v bs ∧ w.Passes ss rs cs
  | _, _, _ => False

variable {w w' : World}

mutual

/-- **What is elsewhere does not matter**: neither other addresses nor other static fields. -/
theorem Represents.frame : ∀ {shape : Shape} {v : Datum} {as : List Nat}, w.Represents shape v as →
    (∀ a ∈ as, w'.heap[a]? = w.heap[a]?) → (∀ p ∈ shape.stores, w'.statics p.1 = w.statics p.1) →
    w'.Represents shape v as
  | .null _, v, as, h, _, _ => by simpa only [Represents] using h
  | .constant _, v, as, h, _, _ => by simpa only [Represents] using h
  | .object owner fields, v, as, h, hheap, hstatics => by
    simp only [Represents] at h ⊢
    obtain ⟨a, o, bs, rfl, rfl, ho, howner, hfields, hrest⟩ := h
    refine ⟨a, o, bs, rfl, rfl, ?_, howner, ?_, hrest⟩
    · rw [hheap a List.mem_cons_self, ho]
    · refine hfields.frame (fun b hb => hheap b (List.mem_cons_of_mem a hb)) fun p hp => hstatics p ?_
      rwa [Shape.stores]
  | .staticField field value, v, as, h, hheap, hstatics => by
    simp only [Represents, Shape.stores] at h hstatics ⊢
    refine ⟨?_, h.2.frame hheap fun p hp => hstatics p (List.mem_append_left _ hp)⟩
    rw [hstatics (field, value) (List.mem_append_right _ (List.mem_singleton_self _))]
    exact h.1
  | .array _ _, v, as, h, _, _ => by simp only [Represents] at h

theorem Holds.frame {o : Instance} : ∀ {fields : List (FieldRef × Shape)} {as : List Nat}, w.Holds o fields as →
    (∀ a ∈ as, w'.heap[a]? = w.heap[a]?) → (∀ p ∈ Shape.storesOfFields fields, w'.statics p.1 = w.statics p.1) →
    w'.Holds o fields as
  | [], as, h, _, _ => by simpa only [Holds] using h
  | (field, value) :: rest, as, h, hheap, hstatics => by
    simp only [Holds, Shape.storesOfFields, List.mem_append] at h hstatics ⊢
    obtain ⟨bs, cs, rfl, hrest, hentry⟩ := h
    refine ⟨bs, cs, rfl, ?_, ?_⟩
    · exact hrest.frame (fun a ha => hheap a (List.mem_append_right bs ha)) fun p hp => hstatics p (.inr hp)
    · split
      · rename_i hover
        rwa [if_pos hover] at hentry
      · rename_i hover
        rw [if_neg hover] at hentry
        obtain ⟨v, hv, hrep⟩ := hentry
        refine ⟨v, ?_, hrep.frame (fun a ha => hheap a (List.mem_append_left cs ha)) fun p hp => hstatics p (.inl (.inl hp))⟩
        unfold contents at hv ⊢
        split
        · rename_i hs
          rw [if_pos hs] at hv
          rw [hstatics (field, value) (.inl (.inr (by simp [hs]))), hv]
        · rename_i hs
          rwa [if_neg hs] at hv

end

end World

end Retrace
