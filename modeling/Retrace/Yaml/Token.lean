import Retrace.Yaml.Scalar
/-!
# Tokens

The tokens of a document that holds one flat mapping, and how names, tags and directives are read.  A mapping has an
opening and a closing token in either style; in block style they stand where its indentation begins and ends.
-/
namespace Retrace
namespace Yaml

inductive Token where
  | version (major minor : Nat)
  /-- Declares what a tag handle stands for. -/
  | handle (handle text : List Char)
  | documentStart
  | documentEnd
  | blockOpen
  | blockClose
  | braceOpen
  | braceClose
  | comma
  | key
  | value
  | anchor (name : List Char)
  | aliasOf (name : List Char)
  | tag (handle suffix : List Char)
  | scalar (style : Style) (text : List Char)
  deriving DecidableEq

/-! ## Anchors and aliases -/

def anchorName? (gs : List Glyph) : Option (List Char × List Glyph) :=
  let (name, rest) := spanName gs
  if !name.isEmpty && (endsWord rest || nextIn ['?', ':', ',', ']', '\x7d', '%', '@', '\x60'] rest) then
    some (name, rest)
  else none

/-! ## Tags -/

/-- Characters of a tag; commas and square brackets only between angle brackets. -/
def isTagChar (verbatim : Bool) (c : Char) : Bool :=
  isNameChar c || ";/?:@&=+$.%!~*'()".toList.contains c || (verbatim && [',', '[', ']'].contains c)

def octet? (a b : Glyph) : Option Nat := Digits.read? 16 [a.char, b.char]

def octetsAfter? (octet : Nat) : Option Nat :=
  if octet < 0x80 then some 0
  else if 0xC0 ≤ octet && octet < 0xE0 then some 1
  else if 0xE0 ≤ octet && octet < 0xF0 then some 2
  else if 0xF0 ≤ octet && octet < 0xF8 then some 3
  else none

/-- The characters of a tag and what follows them.  An escape is a percent sign with an octet; a character of several
octets, of which `missing` are still to come, is read as a replacement character, since no known tag has one. -/
def tagText (verbatim : Bool) (missing : Nat) : List Glyph → Option (List Char × List Glyph)
  | [] => if missing = 0 then some ([], []) else none
  | g :: rest =>
    if g.char == '%' then
      match rest with
      | a :: b :: more =>
        (octet? a b).bind fun octet =>
          if missing = 0 then
            (octetsAfter? octet).bind fun n =>
              (tagText verbatim n more).map (put .empty (if n = 0 then Char.ofNat octet else '\ufffd'))
          else if 0x80 ≤ octet && octet < 0xC0 then tagText verbatim (missing - 1) more
          else none
      | _ => none
    else if missing ≠ 0 then none
    else if isTagChar verbatim g.char then (tagText verbatim 0 rest).map (put .empty g.char)
    else some ([], g :: rest)

/-- What counts of a tag: its characters before the first null character. -/
def untilNull (cs : List Char) : List Char := cs.takeWhile (· != '\x00')

def tagText? (verbatim : Bool) (gs : List Glyph) : Option (List Char × List Glyph) :=
  (tagText verbatim 0 gs).bind fun (text, rest) => if text.isEmpty then none else some (untilNull text, rest)

/-- A tag from behind its exclamation mark: between angle brackets, with a handle, or with the handle of a single mark.
The mark alone is a tag of its own. -/
def tag? (gs : List Glyph) : Option (Token × List Glyph) :=
  if nextIn ['<'] gs then
    (tagText? true gs.tail).bind fun (text, rest) => if nextIn ['>'] rest then some (.tag [] text, rest.tail) else none
  else
    let (name, rest) := spanName gs
    if nextIn ['!'] rest then
      (tagText? false rest.tail).map fun (text, rest) => (.tag ('!' :: name ++ ['!']) text, rest)
    else
      (tagText false 0 rest).map fun (text, rest) =>
        let suffix := untilNull (name ++ text)
        if suffix.isEmpty then (.tag [] ['!'], rest) else (.tag ['!'] suffix, rest)

/-! ## Directives -/

def versionNumber? (gs : List Glyph) : Option (Nat × List Glyph) :=
  let digits := gs.takeWhile fun g => (Digits.digit? 10 g.char).isSome
  if digits.length ≤ 9 then (Digits.read? 10 (textOf digits)).map fun n => (n, gs.drop digits.length) else none

def versionDirective? (gs : List Glyph) : Option (Token × List Glyph) :=
  (versionNumber? (skipBlanks gs)).bind fun (major, rest) =>
    if nextIn ['.'] rest then (versionNumber? rest.tail).map fun (minor, rest) => (.version major minor, rest) else none

/-- A handle is a single exclamation mark, or stands between two of them. -/
def tagHandle? (gs : List Glyph) : Option (List Char × List Glyph) :=
  if nextIn ['!'] gs then
    let (name, rest) := spanName gs.tail
    if nextIn ['!'] rest then some ('!' :: name ++ ['!'], rest.tail)
    else if name.isEmpty then some (['!'], rest)
    else none
  else none

def handleDirective? (gs : List Glyph) : Option (Token × List Glyph) :=
  (tagHandle? (skipBlanks gs)).bind fun (handle, rest) =>
    if rest.head?.any (·.isBlank) then
      (tagText? true (skipBlanks rest)).bind fun (text, rest) =>
        if endsWord rest then some (.handle handle text, rest) else none
    else none

/-- A directive from behind its percent sign, together with the rest of its line. -/
def directive? (gs : List Glyph) : Option (Token × List Glyph) :=
  let (name, rest) := spanName gs
  if endsWord rest then
    let read? := match String.ofList name with
      | "YAML" => versionDirective? rest
      | "TAG" => handleDirective? rest
      | _ => none
    read?.bind fun (token, rest) => (restOfLine? rest).map fun rest => (token, rest)
  else none

end Yaml
end Retrace
