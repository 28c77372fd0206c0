import Retrace.Decimal
/-!
# Serialized values

Values are serialized as trees of objects, arrays and scalars.  A record is an object with one field for each of its
fields.  A choice is an object with one field, named for the alternative taken, or just that name when the alternative
carries nothing.  A missing optional value is null, and on reading its field may be left out; fields that a record does
not have are skipped.

A floating-point payload is the hexadecimal text of its bits; what is not finite is null, and cannot be read back.
-/
namespace Retrace

inductive Json where
  | null
  | bool (value : Bool)
  | int (value : Int)
  /-- A number that is not an integer; nothing here is serialized as one. -/
  | fraction
  | str (value : String)
  | arr (items : List Json)
  | obj (fields : List (String × Json))

/-- Values with a serialized form. -/
class Coded (α : Type) where
  encode : α → Json
  decode : Json → Option α

export Coded (encode decode)

namespace Json

mutual

def depth : Json → Nat
  | .arr items => depthOfItems items + 1
  | .obj fields => depthOfFields fields + 1
  | .null | .bool _ | .int _ | .fraction | .str _ => 1

def depthOfItems : List Json → Nat
  | [] => 0
  | j :: js => max j.depth (depthOfItems js)

def depthOfFields : List (String × Json) → Nat
  | [] => 0
  | (_, j) :: rest => max j.depth (depthOfFields rest)

end

def tagged (tag : String) (payload : Json) : Json := .obj [(tag, payload)]

/-- The alternative of a choice with a payload, and the payload. -/
def tagged? : Json → Option (String × Json)
  | .obj [field] => some field
  | _ => none

def field? (key : String) : Json → Option Json
  | .obj fields => fields.lookup key
  | _ => none

def items? : Json → Option (List Json)
  | .arr items => some items
  | _ => none

def get {α : Type} [Coded α] (key : String) (j : Json) : Option α := (j.field? key).bind decode

/-- Reads a field by `read`; none when it is missing or null. -/
def optionalBy {α : Type} (read : Json → Option α) (key : String) (j : Json) : Option (Option α) :=
  match j.field? key with
  | none | some .null => some none
  | some value => (read value).map some

def optional {α : Type} [Coded α] (key : String) (j : Json) : Option (Option α) := j.optionalBy decode key

end Json

instance : Coded Json := ⟨id, some⟩

instance : Coded Bool where
  encode := .bool
  decode
    | .bool b => some b
    | _ => none

instance : Coded String where
  encode := .str
  decode
    | .str s => some s
    | _ => none

instance : Coded Char where
  encode c := .str (String.singleton c)
  decode
    | .str s =>
      match s.toList with
      | [c] => some c
      | _ => none
    | _ => none

def Json.intWithin? (low high : Int) : Json → Option Int
  | .int n => if low ≤ n ∧ n ≤ high then some n else none
  | _ => none

instance : Coded Int8 where
  encode n := .int n.toInt
  decode j := (j.intWithin? (-128) 127).map Int8.ofInt

instance : Coded Int16 where
  encode n := .int n.toInt
  decode j := (j.intWithin? (-32768) 32767).map Int16.ofInt

instance : Coded Int32 where
  encode n := .int n.toInt
  decode j := (j.intWithin? (-2147483648) 2147483647).map Int32.ofInt

instance : Coded Int64 where
  encode n := .int n.toInt
  decode j := (j.intWithin? (-9223372036854775808) 9223372036854775807).map Int64.ofInt

instance : Coded UInt8 where
  encode n := .int n.toNat
  decode j := (j.intWithin? 0 255).map fun n => UInt8.ofNat n.toNat

instance : Coded UInt32 where
  encode n := .int n.toNat
  decode j := (j.intWithin? 0 4294967295).map fun n => UInt32.ofNat n.toNat

instance : Coded UInt64 where
  encode n := .int n.toNat
  decode j := (j.intWithin? 0 18446744073709551615).map fun n => UInt64.ofNat n.toNat

/-- Counts and positions fit 64 bits. -/
instance : Coded Nat where
  encode n := .int n
  decode j := (j.intWithin? 0 18446744073709551615).map Int.toNat

instance {α : Type} [Coded α] : Coded (List α) where
  encode xs := .arr (xs.map encode)
  decode j := j.items?.bind fun items => items.mapM decode

instance {α : Type} [Coded α] : Coded (Option α) where
  encode
    | some a => encode a
    | none => .null
  decode
    | .null => some none
    | j => (decode j).map some

def Json.hex? (width : Nat) : Json → Option Nat
  | .str s => if s.toList.length = width then Digits.read? 16 s.toList else none
  | _ => none

instance : Coded Binary32 where
  encode x := if x.isFinite then .str (String.ofList (Digits.padded 16 8 x.bits.toNat)) else .null
  decode j := (j.hex? 8).map fun n => ⟨UInt32.ofNat n⟩

instance : Coded Binary64 where
  encode x := if x.isFinite then .str (String.ofList (Digits.padded 16 16 x.bits.toNat)) else .null
  decode j := (j.hex? 16).map fun n => ⟨UInt64.ofNat n⟩

end Retrace
