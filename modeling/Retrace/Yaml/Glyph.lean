/-!
# Placed characters

A text is read as a list of characters that know their place: the number of characters before them, their line and
their column, all from zero.  A carriage return with a line feed after it is one break, which takes up two places.
-/
namespace Retrace
namespace Yaml

def isPrintable (c : Char) : Bool :=
  let n := c.toNat
  n == 9 || n == 10 || n == 13 || (32 ≤ n && n ≤ 126) || n == 0x85 || (0xA0 ≤ n && n ≤ 0xFFFD) || 0x10000 ≤ n

def isBlank (c : Char) : Bool := c == ' ' || c == '\t'

def isBreak (c : Char) : Bool := c == '\n' || c == '\r' || c == '\x85' || c == '\u2028' || c == '\u2029'

/-- What a break is read as: the two separators stand for themselves, every other break for a line feed. -/
def normalBreak (c : Char) : Char := if c == '\u2028' || c == '\u2029' then c else '\n'

def isNameChar (c : Char) : Bool := c.isAlphanum || c == '_' || c == '-'

structure Glyph where
  char : Char
  index : Nat
  line : Nat
  column : Nat
  deriving DecidableEq

namespace Glyph

def isBlank (g : Glyph) : Bool := Yaml.isBlank g.char

def isBreak (g : Glyph) : Bool := Yaml.isBreak g.char

def isOrderMark (g : Glyph) : Bool := g.column == 0 && g.char == '\ufeff'

end Glyph

def glyphsFrom (index line column : Nat) : List Char → List Glyph
  | [] => []
  | '\r' :: '\n' :: rest => ⟨'\n', index, line, column⟩ :: glyphsFrom (index + 2) (line + 1) 0 rest
  | c :: rest =>
    if isBreak c then ⟨normalBreak c, index, line, column⟩ :: glyphsFrom (index + 1) (line + 1) 0 rest
    else ⟨c, index, line, column⟩ :: glyphsFrom (index + 1) line (column + 1) rest

def glyphs (text : List Char) : List Glyph := glyphsFrom 0 0 0 text

def endsWord : List Glyph → Bool
  | [] => true
  | g :: _ => g.isBlank || g.isBreak

def endsLine : List Glyph → Bool
  | [] => true
  | g :: _ => g.isBreak

def nextIn (cs : List Char) : List Glyph → Bool
  | [] => false
  | g :: _ => cs.contains g.char

/-- A document marker comes next: the mark three times at the start of a line, and nothing joined to it. -/
def isMarker (mark : Char) : List Glyph → Bool
  | a :: b :: c :: rest => a.column == 0 && a.char == mark && b.char == mark && c.char == mark && endsWord rest
  | _ => false

def atMarker (gs : List Glyph) : Bool := isMarker '-' gs || isMarker '.' gs

def textOf (gs : List Glyph) : List Char := gs.map (·.char)

/-- The name that comes next, which may be empty, and what follows it. -/
def spanName (gs : List Glyph) : List Char × List Glyph :=
  (textOf (gs.takeWhile fun g => isNameChar g.char), gs.dropWhile fun g => isNameChar g.char)

def skipBlanks (gs : List Glyph) : List Glyph := gs.dropWhile (·.isBlank)

/-- What follows the line that ends here, behind blanks and a comment; nothing else may stand before its end. -/
def restOfLine? (gs : List Glyph) : Option (List Glyph) :=
  let gs := skipBlanks gs
  let gs := if nextIn ['#'] gs then gs.dropWhile (!·.isBreak) else gs
  if endsLine gs then some gs.tail else none

end Yaml
end Retrace
