import Retrace.Yaml.Token
/-!
# Scanning

From glyphs to tokens.  A key needs no mark of its own in front: the scanner keeps in mind where a key may have begun,
and puts the key token there when it comes to a colon.  Such a key ends on its line and within 1024 characters.

Lists, mappings inside the mapping and mappings as keys are not for settings, and refused here.
-/
namespace Retrace
namespace Yaml

structure KeyStart where
  index : Nat
  line : Nat
  column : Nat
  /-- Nothing but a key may stand here. -/
  required : Bool
  deriving DecidableEq

def keyReach : Nat := 1024

structure Scan where
  inBraces : Bool := false
  /-- Column of the keys of an open block mapping. -/
  indent : Option Nat := none
  /-- A key may begin at the next token. -/
  keyAllowed : Bool := true
  keyStart : Option KeyStart := none
  /-- Tokens before the last place where a key may have begun, and those since; both have the last one first. -/
  older : List Token := []
  recent : List Token := []

namespace Scan

def tokens (s : Scan) : List Token := (s.recent ++ s.older).reverse

def push (s : Scan) (t : Token) : Scan := { s with recent := t :: s.recent }

def contentIndent (s : Scan) : Nat := s.indent.elim 0 (· + 1)

/-- Passes over blanks, comments, breaks and byte order marks.  A break allows a key, outside braces; where a key is
allowed outside braces, a tab is no blank. -/
def skip (inBraces : Bool) (keyAllowed inComment : Bool) : List Glyph → Bool × List Glyph
  | [] => (keyAllowed, [])
  | g :: rest =>
    if g.isBreak then skip inBraces (keyAllowed || !inBraces) false rest
    else if inComment then skip inBraces keyAllowed true rest
    else if g.char == ' ' || (g.char == '\t' && (inBraces || !keyAllowed)) then skip inBraces keyAllowed false rest
    else if g.char == '#' then skip inBraces keyAllowed true rest
    else if g.isOrderMark then skip inBraces keyAllowed false rest
    else (keyAllowed, g :: rest)

/-- Gives up the key that may have begun; it must not be required. -/
def dropKey? (s : Scan) : Option Scan :=
  if s.keyStart.any (·.required) then none else some { s with keyStart := none }

def dropStale? (s : Scan) (g : Glyph) : Option Scan :=
  if s.keyStart.any fun k => k.line < g.line || k.index + keyReach < g.index then s.dropKey? else some s

/-- Closes a block mapping that the given column is left of; no column closes any. -/
def closeBlock (s : Scan) (column : Option Nat) : Scan :=
  if !s.inBraces && s.indent.any fun d => column.all (· < d) then { s.push .blockClose with indent := none } else s

def begin? (s : Scan) (g : Glyph) : Option Scan :=
  if s.keyAllowed then
    s.dropKey?.map fun s => { s with
      keyAllowed := false
      keyStart := some ⟨g.index, g.line, g.column, !s.inBraces && s.indent == some g.column⟩
      older := s.recent ++ s.older
      recent := [] }
  else some s

/-- Opens a block mapping with keys at a column, unless one is open there.  A mapping inside it is refused. -/
def openBlock? (s : Scan) (column : Nat) : Option (List Token × Scan) :=
  if s.inBraces then some ([], s)
  else match s.indent with
    | none => some ([.blockOpen], { s with indent := some column })
    | some d => if d < column then none else some ([], s)

def keyMark? (s : Scan) (g : Glyph) : Option Scan :=
  if s.inBraces || s.keyAllowed then
    (s.openBlock? g.column).bind fun (opening, s) =>
      s.dropKey?.map fun s => { s with keyAllowed := !s.inBraces, recent := .key :: (opening ++ s.recent) }
  else none

/-- A colon ends a key: one that has begun on this line, or one that was announced. -/
def valueMark? (s : Scan) (g : Glyph) : Option Scan :=
  match s.keyStart with
  | some k =>
    (s.openBlock? k.column).map fun (opening, s) => { s with
      keyAllowed := false
      keyStart := none
      older := .key :: (opening ++ s.older)
      recent := .value :: s.recent }
  | none =>
    if s.inBraces || s.keyAllowed then
      (s.openBlock? g.column).map fun (opening, s) =>
        { s with keyAllowed := !s.inBraces, recent := .value :: (opening ++ s.recent) }
    else none

def interrupt? (s : Scan) : Option Scan :=
  (s.closeBlock none).dropKey?.map fun s => { s with keyAllowed := false }

/-- Characters that no plain scalar starts with, except as the rule for a dash, a question mark and a colon says. -/
def isIndicator (c : Char) : Bool := "-?:,[]\x7b\x7d#&*!|>'\"%@\x60".toList.contains c

def startsPlain (s : Scan) (g : Glyph) (rest : List Glyph) : Bool :=
  (!g.isBlank && !isIndicator g.char) ||
    ((g.char == '-' || (!s.inBraces && (g.char == '?' || g.char == ':'))) && !endsWord rest)

/-- Reads a plain scalar; after a break behind it a key is allowed. -/
def plain? (s : Scan) (g : Glyph) (rest : List Glyph) : Option (Scan × List Glyph) :=
  (s.begin? g).bind fun s =>
    (Yaml.plain s.inBraces s.contentIndent true .empty (g :: rest)).map fun p =>
      ({ s.push (.scalar .plain p.text) with keyAllowed := s.keyAllowed || p.broken }, p.rest)

def quoted? (s : Scan) (g : Glyph) (read : Option (List Char × List Glyph)) : Option (Scan × List Glyph) :=
  (s.begin? g).bind fun s => read.map fun (text, rest) => (s.push (.scalar .quoted text), rest)

def block? (s : Scan) (style : Style) (rest : List Glyph) : Option (Scan × List Glyph) :=
  s.dropKey?.bind fun s =>
    (Yaml.block? style s.contentIndent rest).map fun (text, rest) =>
      ({ s.push (.scalar style text) with keyAllowed := true }, rest)

def anchor? (s : Scan) (g : Glyph) (token : List Char → Token) (rest : List Glyph) : Option (Scan × List Glyph) :=
  (s.begin? g).bind fun s => (anchorName? rest).map fun (name, rest) => (s.push (token name), rest)

/-- Reads a tag; between braces a comma may follow it directly. -/
def tag? (s : Scan) (g : Glyph) (rest : List Glyph) : Option (Scan × List Glyph) :=
  (s.begin? g).bind fun s =>
    (Yaml.tag? rest).bind fun (token, rest) =>
      if endsWord rest || (s.inBraces && nextIn [','] rest) then some (s.push token, rest) else none

def next? (s : Scan) (g : Glyph) (rest : List Glyph) : Option (Scan × List Glyph) :=
  let c := g.char
  if g.column == 0 && c == '%' then
    s.interrupt?.bind fun s => (directive? rest).map fun (token, rest) => (s.push token, rest)
  else if isMarker '-' (g :: rest) then s.interrupt?.map fun s => (s.push .documentStart, rest.drop 2)
  else if isMarker '.' (g :: rest) then s.interrupt?.map fun s => (s.push .documentEnd, rest.drop 2)
  else if c == '\x7b' then
    if s.inBraces || s.indent.isSome then none
    else some ({ s.push .braceOpen with inBraces := true, keyAllowed := true, keyStart := none }, rest)
  else if c == '\x7d' then
    if s.inBraces then
      some ({ s.push .braceClose with inBraces := false, keyAllowed := false, keyStart := none }, rest)
    else none
  else if c == ',' then
    if s.inBraces then some ({ s.push .comma with keyAllowed := true, keyStart := none }, rest) else none
  else if c == '?' && (s.inBraces || endsWord rest) then (s.keyMark? g).map fun s => (s, rest)
  else if c == ':' && (s.inBraces || endsWord rest) then (s.valueMark? g).map fun s => (s, rest)
  else if c == '*' then s.anchor? g .aliasOf rest
  else if c == '&' then s.anchor? g .anchor rest
  else if c == '!' then s.tag? g rest
  else if c == '|' && !s.inBraces then s.block? .literal rest
  else if c == '>' && !s.inBraces then s.block? .folded rest
  else if c == '\'' then s.quoted? g (singleQuoted .empty rest)
  else if c == '"' then s.quoted? g (doubleQuoted none .empty rest)
  else if s.startsPlain g rest then s.plain? g rest
  else none

def finish? (s : Scan) : Option (List Token) := (s.closeBlock none).dropKey?.map (·.tokens)

def run : (limit : Nat) → Scan → List Glyph → Option (List Token)
  | 0, _, _ => none
  | limit + 1, s, gs =>
    match skip s.inBraces s.keyAllowed false gs with
    | (keyAllowed, []) => { s with keyAllowed }.finish?
    | (keyAllowed, g :: rest) =>
      ({ s with keyAllowed }.dropStale? g).bind fun s =>
        ((s.closeBlock (some g.column)).next? g rest).bind fun (s, rest) => run limit s rest

end Scan

/-- The tokens of a text.  Every token takes up a character, so that the length of the text bounds their number. -/
def tokens? (text : List Char) : Option (List Token) :=
  if text.all isPrintable then Scan.run (text.length + 1) {} (glyphs text) else none

end Yaml
end Retrace
