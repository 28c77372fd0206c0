import Retrace.Catalog
/-!
# The value table

For one execution, references are bound to simulated values, and values to symbolic terms.  Values stand in the order in
which they came up, and a handle is a place among them; a second column holds the terms, and a map leads from references
to handles.  Both bindings are made once and kept: a constant is bound when it is first used as an operand, the result of
an action when the action is recorded; the term of a value is made when it is first asked for.  A named value gets a fresh
name for its term.

The operations are state transformers that may fail; the state after a failure is part of the answer.
-/
namespace Retrace

/-! ## Constants -/

/-- Whether a scalar may stand where a type is declared.  Strings and class literals have no box. -/
def Scalar.fits (declared : Ty) : Scalar → Bool
  | .string _ => declared.isClassNamed Ty.stringClass
  | .classOf _ => declared.isClassNamed Ty.literalClass
  | s => declared.isKindOf s.ty

/-- The constant that a literal stands for where a value of type `declared` is expected. -/
def Literal.toConstant (l : Literal) (declared : Ty) (c : Catalog) : Except Fault Constant :=
  let refused := .error (.unsupportedLiteral l.render declared.render)
  match l with
  | .scalar s => if s.fits declared then .ok (.scalar s) else refused
  | .method ref => if declared.isClassNamed Ty.methodClass then (c.resolveMethod ref).map .method else refused
  | .other _ => refused

/-- The value of a reference that no action defines: null, or an inline constant. -/
def Reference.inlineConstant (r : Reference) (c : Catalog) : Except Fault Constant :=
  match r with
  | .null _ _ => .ok .null
  | .constant _ ty literal => literal.toConstant ty c
  | .var id _ => .error (.invariant (.undefined id))
  | .array _ _ | .element _ _ _ _ => .error (.unsupported (.arrayOperand r))
  | .staticField _ _ _ | .instanceField _ _ _ _ => .error (.unsupported (.fieldOperand r))

/-! ## The table -/

structure Cache where
  values : List Value := []
  /-- The terms, side by side with the values. -/
  terms : List (Option Term) := []
  byRef : Keyed RefId Handle := {}
  names : NameSupply := {}
  deriving DecidableEq

namespace Cache

def size (c : Cache) : Nat := c.values.length

/-- The handle of a place, which is cut off from `2 ^ 32` on. -/
def handleAt (n : Nat) : Handle := ⟨UInt32.ofNat n⟩

def lookup (c : Cache) (id : RefId) : Option Handle := c.byRef.get? id

def valueAt? (c : Cache) (h : Handle) : Option Value := c.values[h.index.toNat]?

def alloc (c : Cache) (v : Value) : Handle × Cache :=
  (handleAt c.size, { c with values := c.values ++ [v], terms := c.terms ++ [none] })

def bind (c : Cache) (id : RefId) (h : Handle) : Cache := { c with byRef := c.byRef.insert id h }

/-- The term of a value: constants stand for themselves, and a named value takes a fresh name. -/
def termFor (names : NameSupply) : Value → Term × NameSupply
  | .constant k => (.const k, names)
  | .named name ty =>
    let (fresh, names') := names.next name
    (.var ty fresh, names')

def newTerm (h : Handle) : EStateM Fault Cache Term := fun c =>
  match c.valueAt? h with
  | none => .error (.invariant (.unallocated h)) c
  | some v =>
    let (term, names) := termFor c.names v
    .ok term { c with terms := c.terms.set h.index.toNat (some term), names }

/-- Handle of a reference's value; a constant is bound on first use. -/
def valueOf (cat : Catalog) (r : Reference) : EStateM Fault Cache Handle := fun c =>
  match c.lookup r.id with
  | some h => .ok h c
  | none =>
    match r.inlineConstant cat with
    | .error e => .error e c
    | .ok k =>
      let (h, c) := c.alloc (.constant k)
      .ok h (c.bind r.id h)

/-- Binds the value an action produced to its result, and makes its term. -/
def register (id : RefId) (v : Value) : EStateM Fault Cache (Handle × Term) := fun c =>
  match c.lookup id with
  | some _ => .error (.invariant (.alreadyBound id)) c
  | none =>
    let (h, c) := c.alloc v
    match newTerm h (c.bind id h) with
    | .error e c => .error e c
    | .ok term c => .ok (h, term) c

/-- The term of a value, made on first use. -/
def termOf (h : Handle) : EStateM Fault Cache Term := fun c =>
  match c.terms[h.index.toNat]? with
  | none => .error (.invariant (.unallocated h)) c
  | some (some term) => .ok term c
  | some none => newTerm h c

def tyOf (h : Handle) : EStateM Fault Cache Ty := fun c =>
  match c.valueAt? h with
  | none => .error (.invariant (.unallocated h)) c
  | some v => .ok v.ty c

def clear (_ : Cache) : Cache where
  values := []
  terms := []
  byRef := {}
  names := {}

end Cache

end Retrace
