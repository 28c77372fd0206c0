import Retrace.Decimal
import Retrace.Yaml.Glyph
/-!
# Scalars

How a scalar is written, and how each way is read: plain, between single or double quotes, and as an indented block.
Line breaks inside a scalar are folded: a single one becomes a space, and of several the first is dropped.  Only a
literal block keeps them all.
-/
namespace Retrace
namespace Yaml

inductive Style where
  | plain
  | quoted
  | literal
  | folded
  deriving DecidableEq

/-- Blanks and breaks between two words of a scalar, the last one first. -/
inductive Gap where
  | within (blanks : List Char)
  /-- A first break, unless it was escaped, and the breaks after it; blanks around breaks do not count. -/
  | across (first later : List Char)
  deriving DecidableEq

namespace Gap

def empty : Gap := .within []

def isAcross : Gap → Bool
  | .within _ => false
  | .across _ _ => true

def blank (c : Char) : Gap → Gap
  | .within blanks => .within (c :: blanks)
  | .across first later => .across first later

def lineBreak (c : Char) : Gap → Gap
  | .within _ => .across [c] []
  | .across first later => .across first (c :: later)

def text : Gap → List Char
  | .within blanks => blanks.reverse
  | .across ['\n'] [] => [' ']
  | .across ['\n'] later => later.reverse
  | .across first later => first ++ later.reverse

end Gap

def put (gap : Gap) (c : Char) (read : List Char × List Glyph) : List Char × List Glyph :=
  (gap.text ++ c :: read.1, read.2)

/-! ## Plain -/

structure Plain where
  text : List Char
  /-- A line break follows the text. -/
  broken : Bool
  rest : List Glyph

/-- The text of a plain scalar whose lines after the first are indented by `indent` at least.  It ends at a colon
before a blank, at a comment, at a marker, at a line that is indented less, and between braces at their punctuation. -/
def plain (inBraces : Bool) (indent : Nat) (inWord : Bool) (gap : Gap) : List Glyph → Option Plain
  | [] => some ⟨[], gap.isAcross, []⟩
  | g :: rest =>
    if g.isBlank then
      if gap.isAcross && g.column < indent && g.char == '\t' then none
      else plain inBraces indent false (gap.blank g.char) rest
    else if g.isBreak then plain inBraces indent false (gap.lineBreak g.char) rest
    else if !inWord && (g.char == '#' || atMarker (g :: rest) || (!inBraces && g.column < indent)) then
      some ⟨[], gap.isAcross, g :: rest⟩
    else if inBraces && g.char == ':' && nextIn [',', '?', '[', ']', '\x7b', '\x7d'] rest then none
    else if (g.char == ':' && endsWord rest) || (inBraces && [',', '[', ']', '\x7b', '\x7d'].contains g.char) then
      some ⟨[], gap.isAcross, g :: rest⟩
    else (plain inBraces indent true .empty rest).map fun p => { p with text := gap.text ++ g.char :: p.text }

/-! ## Quoted -/

/-- The text up to a closing single quote; two of them stand for one. -/
def singleQuoted (gap : Gap) : List Glyph → Option (List Char × List Glyph)
  | [] => none
  | g :: rest =>
    if g.isBlank then singleQuoted (gap.blank g.char) rest
    else if g.isBreak then singleQuoted (gap.lineBreak g.char) rest
    else if atMarker (g :: rest) then none
    else if g.char == '\'' then
      match rest with
      | [] => some (gap.text, [])
      | next :: more =>
        if next.char == '\'' then (singleQuoted .empty more).map (put gap '\'') else some (gap.text, next :: more)
    else (singleQuoted .empty rest).map (put gap g.char)

inductive Escape where
  | char (c : Char)
  /-- A code point in so many hexadecimal digits. -/
  | code (digits : Nat)

def escape? (c : Char) : Option Escape :=
  match c with
  | '0' => some (.char '\x00')
  | 'a' => some (.char '\x07')
  | 'b' => some (.char '\x08')
  | 't' | '\t' => some (.char '\t')
  | 'n' => some (.char '\n')
  | 'v' => some (.char '\x0b')
  | 'f' => some (.char '\x0c')
  | 'r' => some (.char '\r')
  | 'e' => some (.char '\x1b')
  | ' ' => some (.char ' ')
  | '"' => some (.char '"')
  | '/' => some (.char '/')
  | '\\' => some (.char '\\')
  | 'N' => some (.char '\x85')
  | '_' => some (.char '\xa0')
  | 'L' => some (.char '\u2028')
  | 'P' => some (.char '\u2029')
  | 'x' => some (.code 2)
  | 'u' => some (.code 4)
  | 'U' => some (.code 8)
  | _ => none

def charOf? (n : Nat) : Option Char := if n.isValidChar then some (Char.ofNat n) else none

/-- The text up to a closing double quote.  While a code point is being read, `code` holds the number of its digits
that are missing and its value so far. -/
def doubleQuoted (code : Option (Nat × Nat)) (gap : Gap) : List Glyph → Option (List Char × List Glyph)
  | [] => none
  | g :: rest =>
    match code with
    | some (missing, value) =>
      (Digits.digit? 16 g.char).bind fun d =>
        let value := value * 16 + d
        if missing ≤ 1 then (charOf? value).bind fun c => (doubleQuoted none .empty rest).map (put gap c)
        else doubleQuoted (some (missing - 1, value)) gap rest
    | none =>
      if g.isBlank then doubleQuoted none (gap.blank g.char) rest
      else if g.isBreak then doubleQuoted none (gap.lineBreak g.char) rest
      else if atMarker (g :: rest) then none
      else if g.char == '"' then some (gap.text, rest)
      else if g.char == '\\' then
        match rest with
        | [] => none
        | next :: more =>
          if next.isBreak then (doubleQuoted none (.across [] []) more).map fun r => (gap.text ++ r.1, r.2)
          else
            match escape? next.char with
            | some (.char c) => (doubleQuoted none .empty more).map (put gap c)
            | some (.code digits) => doubleQuoted (some (digits, 0)) gap more
            | none => none
      else (doubleQuoted none .empty rest).map (put gap g.char)

/-! ## Blocks -/

inductive Chomp where
  | strip
  | clip
  | keep
  deriving DecidableEq

/-- The signs behind the mark of a block, in either order: how its end is treated, and by how much it is indented. -/
structure BlockHeader where
  chomp : Chomp := .clip
  increment : Option Nat := none

namespace BlockHeader

def chomp? (c : Char) : Option Chomp :=
  if c == '+' then some .keep else if c == '-' then some .strip else none

/-- Takes an indentation of one digit, which is not zero. -/
def withIncrement? (h : BlockHeader) : List Glyph → Option (BlockHeader × List Glyph)
  | [] => some (h, [])
  | g :: rest =>
    match Digits.digit? 10 g.char with
    | none => some (h, g :: rest)
    | some 0 => none
    | some n => some ({ h with increment := some n }, rest)

def withChomp (h : BlockHeader) : List Glyph → BlockHeader × List Glyph
  | [] => (h, [])
  | g :: rest =>
    match chomp? g.char with
    | none => (h, g :: rest)
    | some chomp => ({ h with chomp }, rest)

/-- Reads the signs; a sign for the end may come before or after the indentation, not both. -/
def read? (gs : List Glyph) : Option (BlockHeader × List Glyph) :=
  if nextIn ['+', '-'] gs then
    let (h, rest) := withChomp {} gs
    h.withIncrement? rest
  else (withIncrement? {} gs).map fun (h, rest) => if h.increment.isSome then h.withChomp rest else (h, rest)

end BlockHeader

/-- Passes over the empty lines in front of a block, and gives the deepest column reached, the breaks, and the rest.
Without an indentation given, all spaces are passed over. -/
def emptyLines (indent : Option Nat) (deepest : Nat) : List Glyph → Option (Nat × List Char × List Glyph)
  | [] => some (deepest, [], [])
  | g :: rest =>
    let isIndent := indent.all (g.column < ·)
    if g.char == ' ' && isIndent then emptyLines indent deepest rest
    else if g.char == '\t' && isIndent then none
    else if g.isBreak then
      (emptyLines indent (max deepest g.column) rest).map fun (d, breaks, r) => (d, g.char :: breaks, r)
    else some (max deepest g.column, [], g :: rest)

def blockGap (style : Style) (first later : List Char) (fromBlank toBlank : Bool) : List Char :=
  if style == .folded && first == ['\n'] && !fromBlank && !toBlank then
    if later.isEmpty then [' '] else later
  else first ++ later

def blockEnd (chomp : Chomp) (first later : List Char) : List Char :=
  match chomp with
  | .strip => []
  | .clip => first
  | .keep => first ++ later

/-- The text of a block whose lines start at column `indent`.  Between lines, `first` is the break that ended the last
line, `later` holds those of the empty lines after it; `fromBlank` says that the last line started with a blank. -/
def blockText (style : Style) (chomp : Chomp) (indent : Nat) (inLine : Bool) (first later : List Char)
    (fromBlank : Bool) : List Glyph → Option (List Char × List Glyph)
  | [] => some (blockEnd chomp first later, [])
  | g :: rest =>
    if inLine then
      if g.isBreak then blockText style chomp indent false [g.char] [] fromBlank rest
      else (blockText style chomp indent true [] [] fromBlank rest).map (put .empty g.char)
    else if g.char == ' ' && g.column < indent then blockText style chomp indent false first later fromBlank rest
    else if g.char == '\t' && g.column < indent then none
    else if g.isBreak then blockText style chomp indent false first (later ++ [g.char]) fromBlank rest
    else if g.column == indent then
      (blockText style chomp indent true [] [] g.isBlank rest).map fun r =>
        (blockGap style first later fromBlank g.isBlank ++ g.char :: r.1, r.2)
    else some (blockEnd chomp first later, g :: rest)

/-- Reads a block from behind its mark, under a parent whose content is indented by `parent` at least. -/
def block? (style : Style) (parent : Nat) (gs : List Glyph) : Option (List Char × List Glyph) :=
  (BlockHeader.read? gs).bind fun (header, afterSigns) =>
    (restOfLine? afterSigns).bind fun body =>
      let given := header.increment.map fun n => parent - 1 + n
      (emptyLines given 0 body).bind fun (deepest, breaks, content) =>
        let indent := given.getD (max (max deepest parent) 1)
        blockText style header.chomp indent false [] breaks false content

end Yaml
end Retrace
