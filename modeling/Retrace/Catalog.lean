import Retrace.Fault
import Retrace.Keyed
/-!
# The catalog of classes

A catalog knows the classes of the tested program and their members.  A class is kept under its name, and each member
with a copy of the class.  Classes are declared one after the other, each followed by its members; declaring a class
again forgets the earlier declaration.  A member is found by its name and its type, and of several equal ones the first
declared is meant.
-/
namespace Retrace

inductive Member where
  | method (name : String) (sig : Signature) (isStatic : Bool)
  | field (name : String) (ty : Ty) (isStatic : Bool)
  deriving DecidableEq

/-- A constructor returns nothing and is not static. -/
def Member.constructor (params : List Ty) : Member := .method Method.constructorName ⟨params, .void⟩ false

/-- A class together with its members, in the order of their declaration. -/
structure Declaration where
  owner : Class
  members : List Member := []
  deriving DecidableEq

structure Catalog.Entry where
  owner : Class
  methods : List Method := []
  fields : List Field := []
  deriving DecidableEq

def Catalog.Entry.add (e : Catalog.Entry) : Member → Catalog.Entry
  | .method name sig isStatic => { e with methods := e.methods ++ [⟨e.owner, name, sig, isStatic⟩] }
  | .field name ty isStatic => { e with fields := e.fields ++ [⟨e.owner, name, ty, isStatic⟩] }

structure Catalog where
  classes : Keyed String Catalog.Entry := {}
  deriving DecidableEq

namespace Catalog

def addClass (c : Catalog) (owner : Class) : Catalog := ⟨c.classes.insert owner.name { owner }⟩

/-- Adds a member to the class of a name; a name that is not there yet becomes that of a class. -/
def addMember (name : String) (c : Catalog) (m : Member) : Catalog :=
  let entry := (c.classes.get? name).getD { owner := { name } }
  ⟨c.classes.insert name (entry.add m)⟩

/-- Adds a class, and then its members one after the other. -/
def declare (c : Catalog) (d : Declaration) : Catalog := d.members.foldl (addMember d.owner.name) (c.addClass d.owner)

def ofDeclarations (ds : List Declaration) : Catalog := ds.foldl declare {}

def size (c : Catalog) : Nat := c.classes.size

def entry (c : Catalog) (name : String) : Except Fault Entry :=
  match c.classes.get? name with
  | some e => .ok e
  | none => .error (.unknown .owner name)

def classNamed (c : Catalog) (name : String) : Except Fault Class := (c.entry name).map (·.owner)

def method (c : Catalog) (owner name : String) (sig : Signature) : Except Fault Method :=
  match c.entry owner with
  | .error e => .error e
  | .ok e =>
    match e.methods.find? (fun m => m.name == name && m.sig == sig) with
    | some m => .ok m
    | none => .error (.unknown .method (owner ++ "::" ++ name ++ sig.render))

def field (c : Catalog) (owner name : String) (ty : Ty) : Except Fault Field :=
  match c.entry owner with
  | .error e => .error e
  | .ok e =>
    match e.fields.find? (fun f => f.name == name && f.ty == ty) with
    | some f => .ok f
    | none => .error (.unknown .field (owner ++ "." ++ name ++ ": " ++ ty.render))

def resolveMethod (c : Catalog) (m : MethodRef) : Except Fault Method := c.method m.owner m.name m.sig

/-- The field a test names; whether the test takes it for static does not matter. -/
def resolveField (c : Catalog) (f : FieldRef) : Except Fault Field := c.field f.owner f.name f.ty

end Catalog

end Retrace
