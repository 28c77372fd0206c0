import Retrace.Settings.Basic
import Retrace.Yaml.Document
/-!
# Settings as YAML

Settings are one flat mapping, in block style (a key and a value a line) or in flow style (between braces).  A missing
key has its default, and an empty document has all defaults; an unknown or repeated key, and a value that is no
unsigned number, make the document malformed.
-/
namespace Retrace
namespace Yaml

/-- A plain unsigned number: an optional plus sign, then decimal digits without a leading zero, or a base mark and
digits of that base. -/
def unsigned? (cs : List Char) : Option Nat :=
  let body := match cs with
    | '+' :: rest => rest
    | _ => cs
  match body with
  | '0' :: 'x' :: rest => Digits.read? 16 rest
  | '0' :: 'o' :: rest => Digits.read? 8 rest
  | '0' :: 'b' :: rest => Digits.read? 2 rest
  | '0' :: _ :: _ => none
  | _ => Digits.read? 10 body

def isNull (cs : List Char) : Bool := [['~'], "null".toList, "Null".toList, "NULL".toList].contains cs

namespace Leaf

def intTag : List Char := "tag:yaml.org,2002:int".toList

def nullTag : List Char := "tag:yaml.org,2002:null".toList

/-- The number below a bound that a leaf spells: a plain one, or a literal block that is tagged as a number. -/
def below? (bound : Nat) (l : Leaf) : Option Nat :=
  if l.style == .plain || (l.style == .literal && l.tag == some intTag) then (unsigned? l.text).filter (· < bound)
  else none

/-- A plain leaf without a tag is missing when it is empty or spells a missing value. -/
def isMissing (l : Leaf) : Bool := l.style == .plain && l.tag.isNone && (l.text.isEmpty || isNull l.text)

/-- The number below a bound that a leaf spells, or none for a missing value; what is tagged as missing has to spell
it. -/
def optionalBelow? (bound : Nat) (l : Leaf) : Option (Option Nat) :=
  if l.isMissing then some none
  else if l.style == .plain && l.tag == some nullTag then if isNull l.text then some none else none
  else (l.below? bound).map some

end Leaf

def adjust? (s : Settings) (e : String × Leaf) : Option Settings :=
  match e.1 with
  | "smt_timeout_secs" => (e.2.below? UInt64.size).map fun n => { s with timeoutSecs := UInt64.ofNat n }
  | "timeout_multiplier" => (e.2.below? UInt32.size).map fun n => { s with timeoutMultiplier := UInt32.ofNat n }
  | "max_candidates" =>
    (e.2.optionalBelow? UInt64.size).map fun n => { s with maxCandidates := n.map UInt64.ofNat }
  | _ => none

def settings? (text : List Char) : Option Settings :=
  (entries? text).bind fun entries =>
    if (entries.map (·.1)).Nodup then entries.foldlM adjust? {} else none

end Yaml

namespace Settings

def ofYaml (text : String) : Except Fault.Misconfigured Settings :=
  match Yaml.settings? text.toList with
  | none => .error .malformed
  | some s => s.validate.map fun _ => s

/-- Reads and checks a file; no bytes stand for a file that does not exist. -/
def ofFile (bytes : Option ByteArray) : Except Fault.Misconfigured Settings :=
  match bytes with
  | none => .error (.unreadable "no such file")
  | some bytes =>
    match String.fromUTF8? bytes with
    | none => .error (.unreadable "not valid UTF-8")
    | some text => ofYaml text

/-- Writes a document; a missing bound is left out. -/
def toYaml (s : Settings) : String :=
  "smt_timeout_secs: " ++ toString s.timeoutSecs.toNat ++ "\n" ++
  "timeout_multiplier: " ++ toString s.timeoutMultiplier.toNat ++ "\n" ++
  match s.maxCandidates with
  | some n => "max_candidates: " ++ toString n.toNat ++ "\n"
  | none => ""

end Settings

end Retrace
