import Retrace.Keyed
import Retrace.Yaml.Scan
/-!
# Documents

From tokens to the entries of a document's mapping.  A text holds one document; directives, a start marker and end
markers may stand around it.  Keys and values are leaves: scalars, or aliases of scalars that came before.
-/
namespace Retrace
namespace Yaml

structure Leaf where
  style : Style := .plain
  tag : Option (List Char) := none
  text : List Char := []
  deriving DecidableEq

/-- A leaf, or the slot of the anchor that stands for one. -/
inductive Node where
  | leaf (leaf : Leaf)
  | aliasOf (slot : Nat)
  deriving DecidableEq

/-- What the names of anchors stand for.  A name has a slot, numbered by how many names there were when it was last
given out; a slot holds what was last put there, which is nothing for a mapping. -/
structure Anchors where
  slots : Keyed (List Char) Nat := {}
  held : List (Nat × Option Leaf) := []

namespace Anchors

def size (a : Anchors) : Nat := a.slots.size

def bind (a : Anchors) (name : Option (List Char)) (held : Option Leaf) : Anchors :=
  match name with
  | none => a
  | some name => { slots := a.slots.insert name a.size, held := (a.size, held) :: a.held }

def slot? (a : Anchors) (name : List Char) : Option Nat := a.slots.get? name

def leaf? (a : Anchors) : Node → Option Leaf
  | .leaf l => some l
  | .aliasOf slot => (a.held.lookup slot).join

end Anchors

abbrev Handles := List (List Char × List Char)

def Handles.standard : Handles := [(['!'], ['!']), (['!', '!'], "tag:yaml.org,2002:".toList)]

def Handles.tag? (hs : Handles) (handle suffix : List Char) : Option (List Char) :=
  if handle.isEmpty then some suffix else (hs.lookup handle).map (· ++ suffix)

structure Properties where
  anchor : Option (List Char) := none
  tag : Option (List Char) := none

namespace Properties

/-- Reads an anchor and a tag, in either order, of which any may be missing. -/
def read? (hs : Handles) : List Token → Option (Properties × List Token)
  | .anchor name :: .tag handle suffix :: rest => (hs.tag? handle suffix).map fun tag => (⟨some name, some tag⟩, rest)
  | .tag handle suffix :: .anchor name :: rest => (hs.tag? handle suffix).map fun tag => (⟨some name, some tag⟩, rest)
  | .anchor name :: rest => some (⟨some name, none⟩, rest)
  | .tag handle suffix :: rest => (hs.tag? handle suffix).map fun tag => (⟨none, some tag⟩, rest)
  | rest => some ({}, rest)

def isEmpty (p : Properties) : Bool := p.anchor.isNone && p.tag.isNone

end Properties

/-- Reads a key or a value.  Without a scalar it is empty, and then has an anchor or a tag. -/
def node? (hs : Handles) (a : Anchors) (ts : List Token) : Option (Node × Anchors × List Token) :=
  match ts with
  | .aliasOf name :: rest => (a.slot? name).map fun slot => (.aliasOf slot, a, rest)
  | _ =>
    (Properties.read? hs ts).bind fun (p, rest) =>
      match rest with
      | .scalar style text :: rest =>
        let leaf : Leaf := { style, tag := p.tag, text }
        some (.leaf leaf, a.bind p.anchor leaf, rest)
      | _ =>
        let leaf : Leaf := { tag := p.tag }
        if p.isEmpty then none else some (.leaf leaf, a.bind p.anchor leaf, rest)

/-- Reads a key or a value, which is empty before any of the given tokens. -/
def nodeBefore? (ends : List Token) (hs : Handles) (a : Anchors) (ts : List Token) :
    Option (Node × Anchors × List Token) :=
  if ts.head?.any ends.contains then some (.leaf {}, a, ts) else node? hs a ts

def valueBefore? (ends : List Token) (hs : Handles) (a : Anchors) (ts : List Token) :
    Option (Node × Anchors × List Token) :=
  match ts with
  | .value :: rest => nodeBefore? ends hs a rest
  | _ => some (.leaf {}, a, ts)

abbrev Entries := List (Node × Node)

def blockEntries? (hs : Handles) : (limit : Nat) → Anchors → List Token → Option (Entries × Anchors × List Token)
  | 0, _, _ => none
  | limit + 1, a, ts =>
    let ends : List Token := [.key, .value, .blockClose]
    match ts with
    | .blockClose :: rest => some ([], a, rest)
    | .key :: rest =>
      (nodeBefore? ends hs a rest).bind fun (k, a, rest) =>
        (valueBefore? ends hs a rest).bind fun (v, a, rest) =>
          (blockEntries? hs limit a rest).map fun (es, r) => ((k, v) :: es, r)
    | _ => none

/-- Reads the entries between braces and the closing brace, from an entry or the end on.  A key may stand alone, and a
comma may follow the last entry. -/
def braceEntries? (hs : Handles) : (limit : Nat) → Anchors → List Token → Option (Entries × Anchors × List Token)
  | 0, _, _ => none
  | limit + 1, a, ts =>
    let ends : List Token := [.comma, .braceClose]
    let more (k v : Node) (a : Anchors) (rest : List Token) : Option (Entries × Anchors × List Token) :=
      match rest with
      | .braceClose :: rest => some ([(k, v)], a, rest)
      | .comma :: rest => (braceEntries? hs limit a rest).map fun (es, r) => ((k, v) :: es, r)
      | _ => none
    match ts with
    | .braceClose :: rest => some ([], a, rest)
    | .key :: rest =>
      (nodeBefore? (.value :: ends) hs a rest).bind fun (k, a, rest) =>
        (valueBefore? ends hs a rest).bind fun (v, a, rest) => more k v a rest
    | _ => (node? hs a ts).bind fun (k, a, rest) => more k (.leaf {}) a rest

/-- Reads the content of a document: a mapping, or nothing but an anchor or a tag. -/
def content? (hs : Handles) (ts : List Token) : Option (Entries × Anchors × List Token) :=
  (Properties.read? hs ts).bind fun (p, rest) =>
    let a := ({} : Anchors).bind p.anchor none
    match rest with
    | .blockOpen :: rest => blockEntries? hs (rest.length + 1) a rest
    | .braceOpen :: rest => braceEntries? hs (rest.length + 1) a rest
    | .scalar _ _ :: _ => none
    | _ => if p.isEmpty then none else some ([], a, rest)

/-- Reads directives: one version at most, which has to be a known one, and each handle once. -/
def directives? : (seenVersion : Bool) → Handles → List Token → Option (Handles × List Token)
  | seenVersion, hs, .version major minor :: rest =>
    if !seenVersion && major == 1 && (minor == 1 || minor == 2) then directives? true hs rest else none
  | seenVersion, hs, .handle handle text :: rest =>
    if (hs.lookup handle).isSome then none else directives? seenVersion ((handle, text) :: hs) rest
  | _, hs, ts => some (hs, ts)

def endsDocument : Token → Bool
  | .version _ _ | .handle _ _ | .documentStart | .documentEnd => true
  | _ => false

def announced? (hs : Handles) (ts : List Token) : Option (Entries × Anchors × List Token) :=
  if ts.head?.all endsDocument then some ([], {}, ts) else content? hs ts

def document? (ts : List Token) : Option (Entries × Anchors) :=
  let read? : Option (Entries × Anchors × List Token) := match ts with
    | [] => some ([], {}, [])
    | .version _ _ :: _ | .handle _ _ :: _ | .documentStart :: _ =>
      (directives? false [] ts).bind fun (hs, rest) =>
        match rest with
        | .documentStart :: rest => announced? (hs ++ Handles.standard) rest
        | _ => none
    | _ => content? Handles.standard ts
  read?.bind fun (entries, a, rest) => if rest.all (· == .documentEnd) then some (entries, a) else none

def entries? (text : List Char) : Option (List (String × Leaf)) :=
  ((tokens? text).bind document?).bind fun (entries, a) =>
    entries.mapM fun (k, v) => (a.leaf? k).bind fun k => (a.leaf? v).map fun v => (String.ofList k.text, v)

end Yaml
end Retrace
