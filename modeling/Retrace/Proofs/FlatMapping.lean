import Retrace.Yaml.Document
/-!
# FlatMapping — lines of a key and a value are read as they stand

A document of lines, each with a word, a colon, a blank and a word, is the mapping of the first words to the second ones
(`Yaml.entries?_texts`).  Words have letters, digits and underscores only, none of which means anything to the scanner.

The scanner reads three times on a line: the key, which might be a scalar until the colon is reached; the colon, which
puts the key token in front of it and, on the first line, opens the mapping; and the value, which ends where the next
line starts at the first column.
-/
namespace Retrace
namespace Yaml

/-! ## Words -/

def isWordChar (c : Char) : Bool := c.isAlphanum || c == '_'

/-- A text without any characters that have a meaning of their own. -/
structure IsWord (w : List Char) : Prop where
  ne_nil : w ≠ []
  chars : ∀ c ∈ w, isWordChar c = true

section Characters

variable {c x : Char}

theorem ne_of_isWordChar (hc : isWordChar c = true) (hx : isWordChar x = false) : c ≠ x := by
  rintro rfl
  rw [hc] at hx
  cases hx

theorem isBlank_of_isWordChar (hc : isWordChar c = true) : isBlank c = false := by
  simp (disch := decide) [isBlank, ne_of_isWordChar hc]

theorem isBreak_of_isWordChar (hc : isWordChar c = true) : isBreak c = false := by
  simp (disch := decide) [isBreak, ne_of_isWordChar hc]

theorem isIndicator_of_isWordChar (hc : isWordChar c = true) : Scan.isIndicator c = false := by
  simp (disch := decide) [Scan.isIndicator, ne_of_isWordChar hc]

theorem isPrintable_of_isWordChar (hc : isWordChar c = true) : isPrintable c = true := by
  have hrange : 32 ≤ c.toNat ∧ c.toNat ≤ 126 := by
    change (((decide (c.val ≥ 65 ∧ c.val ≤ 90) || (c.val ≥ 97 && c.val ≤ 122)) || (c.val ≥ 48 && c.val ≤ 57)) ||
      c == '_') = true at hc
    simp only [Bool.or_eq_true, Bool.and_eq_true, decide_eq_true_eq, beq_iff_eq, ge_iff_le, UInt32.le_iff_toNat_le,
      UInt32.reduceToNat] at hc
    rcases hc with ((⟨h, h'⟩ | ⟨h, h'⟩) | ⟨h, h'⟩) | rfl
    · exact ⟨Nat.le_trans (by decide) h, Nat.le_trans h' (by decide)⟩
    · exact ⟨Nat.le_trans (by decide) h, Nat.le_trans h' (by decide)⟩
    · exact ⟨Nat.le_trans (by decide) h, Nat.le_trans h' (by decide)⟩
    · decide
  simp [isPrintable, hrange]

end Characters

/-! ## Places -/

section Places

variable {c : Char} {w : List Char} {i l k : Nat}

theorem glyphsFrom_cons (hc : isBreak c = false) (rest : List Char) :
    glyphsFrom i l k (c :: rest) = ⟨c, i, l, k⟩ :: glyphsFrom (i + 1) l (k + 1) rest := by
  rw [glyphsFrom]
  · simp [hc]
  · rintro rest' rfl
    cases hc

theorem glyphsFrom_lineFeed (rest : List Char) :
    glyphsFrom i l k ('\n' :: rest) = ⟨'\n', i, l, k⟩ :: glyphsFrom (i + 1) (l + 1) 0 rest := rfl

theorem glyphsFrom_append (hw : ∀ c ∈ w, isBreak c = false) (rest : List Char) :
    glyphsFrom i l k (w ++ rest) =
      glyphsFrom i l k w ++ glyphsFrom (i + w.length) l (k + w.length) rest := by
  induction w generalizing i k with
  | nil => rfl
  | cons c w ih =>
    have hc := hw c List.mem_cons_self
    rw [List.cons_append, glyphsFrom_cons hc, glyphsFrom_cons hc, ih fun x hx => hw x (List.mem_cons_of_mem c hx),
      List.cons_append, List.length_cons, Nat.add_right_comm i, Nat.add_right_comm k]
    rfl

theorem textOf_glyphsFrom (hw : ∀ c ∈ w, isBreak c = false) : textOf (glyphsFrom i l k w) = w := by
  induction w generalizing i k with
  | nil => rfl
  | cons c w ih =>
    rw [glyphsFrom_cons (hw c List.mem_cons_self), textOf, List.map_cons]
    exact congrArg (c :: ·) (ih fun x hx => hw x (List.mem_cons_of_mem c hx))

namespace IsWord

theorem not_break (hw : IsWord w) : ∀ c ∈ w, isBreak c = false := fun c hc => isBreak_of_isWordChar (hw.chars c hc)

theorem glyphs (hw : IsWord w) (i l k : Nat) :
    ∃ g gs, glyphsFrom i l k w = g :: gs ∧ (g.index = i ∧ g.line = l ∧ g.column = k) ∧ textOf (g :: gs) = w ∧
      ∀ x ∈ g :: gs, isWordChar x.char = true := by
  have htext := textOf_glyphsFrom hw.not_break (i := i) (l := l) (k := k)
  cases w with
  | nil => exact absurd rfl hw.ne_nil
  | cons c w =>
    rw [glyphsFrom_cons (hw.not_break c List.mem_cons_self)] at htext ⊢
    refine ⟨_, _, rfl, ⟨rfl, rfl, rfl⟩, htext, fun x hx => hw.chars _ ?_⟩
    rw [← htext]
    exact List.mem_map_of_mem hx

theorem printable (hw : IsWord w) : w.all isPrintable = true :=
  List.all_eq_true.2 fun c hc => isPrintable_of_isWordChar (hw.chars c hc)

end IsWord

end Places

/-! ## Scalars -/

section Scalars

variable {g : Glyph} {w rest : List Glyph} {indent i j l k m : Nat}

/-- **A word inside a plain scalar is part of its text.** -/
theorem plain_word (hw : ∀ g ∈ w, isWordChar g.char = true) (rest : List Glyph) :
    plain false indent true .empty (w ++ rest) =
      (plain false indent true .empty rest).map fun p => { p with text := textOf w ++ p.text } := by
  induction w with
  | nil => simp [textOf]
  | cons g w ih =>
    have hg := hw g List.mem_cons_self
    have hcolon : g.char ≠ ':' := ne_of_isWordChar hg (by decide)
    rw [List.cons_append, plain, ih fun x hx => hw x (List.mem_cons_of_mem g hx)]
    simp [Glyph.isBlank, Glyph.isBreak, isBlank_of_isWordChar hg, isBreak_of_isWordChar hg, hcolon, Gap.empty, Gap.text,
      textOf, Function.comp_def]

theorem plain_colon :
    plain false indent true .empty (⟨':', i, l, k⟩ :: ⟨' ', j, l, m⟩ :: rest) =
      some ⟨[], false, ⟨':', i, l, k⟩ :: ⟨' ', j, l, m⟩ :: rest⟩ := rfl

/-- Nothing comes next, or a word at the first column. -/
def StartsLine : List Glyph → Prop
  | [] => True
  | g :: _ => g.column = 0 ∧ isWordChar g.char = true

/-- A plain scalar inside a mapping ends with its line, if the next one is not indented. -/
theorem plain_lineEnd (hrest : StartsLine rest) :
    plain false (indent + 1) true .empty (⟨'\n', i, l, k⟩ :: rest) = some ⟨[], true, rest⟩ := by
  -- the break alone does not end the scalar: a next line that is indented would go on with it
  have hfeed : plain false (indent + 1) true .empty (⟨'\n', i, l, k⟩ :: rest) =
      plain false (indent + 1) false (.across ['\n'] []) rest := rfl
  rw [hfeed]
  cases rest with
  | nil => rfl
  | cons g rest =>
    obtain ⟨hcolumn, hg⟩ := hrest
    simp [plain, Glyph.isBlank, Glyph.isBreak, isBlank_of_isWordChar hg, isBreak_of_isWordChar hg, hcolumn, Gap.isAcross]

end Scalars

/-! ## Tokens -/

theorem isMarker_of_ne {g : Glyph} {rest : List Glyph} {mark : Char} (h : g.char ≠ mark) :
    isMarker mark (g :: rest) = false := by
  unfold isMarker
  split
  · rename_i heq
    cases heq
    simp [h]
  · rfl

namespace Scan

variable {s : Scan} {g : Glyph} {w rest : List Glyph} {older recent : List Token} {indent : Option Nat} {i j l k m : Nat}

theorem skip_word (hg : isWordChar g.char = true) (inBraces keyAllowed : Bool) :
    skip inBraces keyAllowed false (g :: rest) = (keyAllowed, g :: rest) := by
  simp (disch := decide) [skip, Glyph.isBreak, isBreak_of_isWordChar hg, Glyph.isOrderMark, ne_of_isWordChar hg]

theorem next?_word (hg : isWordChar g.char = true) : s.next? g rest = s.plain? g rest := by
  have hmarker : ∀ {mark}, isWordChar mark = false → isMarker mark (g :: rest) = false := fun h =>
    isMarker_of_ne (ne_of_isWordChar hg h)
  have hstarts : s.startsPlain g rest = true := by
    simp [startsPlain, Glyph.isBlank, isBlank_of_isWordChar hg, isIndicator_of_isWordChar hg]
  simp (disch := decide) [next?, ne_of_isWordChar hg, hmarker, hstarts]

theorem next?_colon (hrest : endsWord rest = true) :
    s.next? ⟨':', i, l, k⟩ rest = (s.valueMark? ⟨':', i, l, k⟩).map fun s => (s, rest) := by
  have hmarker : ∀ mark, ':' ≠ mark → isMarker mark (⟨':', i, l, k⟩ :: rest) = false := fun _ h => isMarker_of_ne h
  simp (disch := decide) [next?, hmarker, hrest]

theorem dropStale?_of_reach {key : KeyStart} (hkey : s.keyStart = some key) (hline : g.line ≤ key.line)
    (hreach : g.index ≤ key.index + keyReach) : s.dropStale? g = some s := by
  simp [dropStale?, hkey, Nat.not_lt.2 hline, Nat.not_lt.2 hreach]

theorem closeBlock_of_indent (hindent : s.indent = none ∨ s.indent = some 0) (column : Nat) :
    s.closeBlock (some column) = s := by
  rcases hindent with h | h <;> simp [closeBlock, h]

/-- **Reading one token.** -/
theorem run_succ {s₁ s' : Scan} {gs rest' : List Glyph} {keyAllowed : Bool} (n : Nat)
    (hskip : skip s.inBraces s.keyAllowed false gs = (keyAllowed, g :: rest))
    (hstale : { s with keyAllowed }.dropStale? g = some s₁) (hclose : s₁.closeBlock (some g.column) = s₁)
    (hnext : s₁.next? g rest = some (s', rest')) : run (n + 1) s gs = run n s' rest' := by
  rw [run, hskip]
  simp only [hstale, hclose, hnext, Option.bind_some]

theorem run_key (n : Nat) (hindent : indent = none ∨ indent = some 0)
    (hw : ∀ x ∈ g :: w, isWordChar x.char = true) (hcolumn : g.column = 0) :
    run (n + 1) { indent, older, recent } (g :: w ++ ⟨':', i, l, k⟩ :: ⟨' ', j, l, m⟩ :: rest) =
      run n { indent, keyAllowed := false, keyStart := some ⟨g.index, g.line, 0, indent == some 0⟩,
              older := recent ++ older, recent := [.scalar .plain (textOf (g :: w))] }
        (⟨':', i, l, k⟩ :: ⟨' ', j, l, m⟩ :: rest) := by
  have hg := hw g List.mem_cons_self
  have hplain : ∀ inner, plain false inner true .empty (g :: (w ++ ⟨':', i, l, k⟩ :: ⟨' ', j, l, m⟩ :: rest)) =
      some ⟨textOf (g :: w), false, ⟨':', i, l, k⟩ :: ⟨' ', j, l, m⟩ :: rest⟩ := by
    intro inner
    rw [← List.cons_append, plain_word hw, plain_colon, Option.map_some, List.append_nil]
  refine run_succ n (skip_word hg false true) rfl (closeBlock_of_indent hindent _) ?_
  rw [next?_word hg]
  simp [plain?, begin?, dropKey?, hplain, push, hcolumn]

def opening (indent : Option Nat) : List Token := if indent.isNone then [.blockOpen] else []

theorem run_colon (n : Nat) (hindent : indent = none ∨ indent = some 0) {start : Nat} {required : Bool}
    (hreach : i ≤ start + keyReach) :
    run (n + 1) { indent, keyAllowed := false, keyStart := some ⟨start, l, 0, required⟩, older, recent }
        (⟨':', i, l, k⟩ :: ⟨' ', j, l, m⟩ :: rest) =
      run n { indent := some 0, keyAllowed := false, older := .key :: (opening indent ++ older), recent := .value :: recent }
        (⟨' ', j, l, m⟩ :: rest) := by
  have hskip : skip false false false (⟨':', i, l, k⟩ :: ⟨' ', j, l, m⟩ :: rest) =
      (false, ⟨':', i, l, k⟩ :: ⟨' ', j, l, m⟩ :: rest) := by
    simp [skip, Glyph.isBreak, isBreak, Glyph.isOrderMark]
  refine run_succ n hskip (dropStale?_of_reach rfl (Nat.le_refl l) hreach) (closeBlock_of_indent hindent _) ?_
  rw [next?_colon rfl]
  rcases hindent with rfl | rfl <;> rfl

theorem run_value (n : Nat) (hw : ∀ x ∈ g :: w, isWordChar x.char = true) (hrest : StartsLine rest) :
    run (n + 1) { indent := some 0, keyAllowed := false, older, recent }
        (⟨' ', j, l, m⟩ :: (g :: w ++ ⟨'\n', i, l, k⟩ :: rest)) =
      run n { indent := some 0, older, recent := .scalar .plain (textOf (g :: w)) :: recent } rest := by
  have hg := hw g List.mem_cons_self
  have hskip : skip false false false (⟨' ', j, l, m⟩ :: (g :: w ++ ⟨'\n', i, l, k⟩ :: rest)) =
      (false, g :: (w ++ ⟨'\n', i, l, k⟩ :: rest)) := skip_word hg false false
  have hplain : plain false 1 true .empty (g :: (w ++ ⟨'\n', i, l, k⟩ :: rest)) =
      some ⟨textOf (g :: w), true, rest⟩ := by
    rw [← List.cons_append, plain_word hw, plain_lineEnd hrest, Option.map_some, List.append_nil]
  refine run_succ n hskip rfl (closeBlock_of_indent (.inr rfl) _) ?_
  rw [next?_word hg]
  simp [plain?, begin?, contentIndent, hplain, push]

end Scan

/-! ## Lines -/

/-- **A line of a flat mapping**: a word as the key, short enough to be known for one at its colon, and a word as the
value. -/
structure Line where
  key : List Char
  value : List Char
  isWord_key : IsWord key
  isWord_value : IsWord value
  reach : key.length ≤ keyReach

namespace Line

def text (e : Line) : List Char := e.key ++ ':' :: ' ' :: (e.value ++ ['\n'])

def tokens (e : Line) : List Token := [.key, .scalar .plain e.key, .value, .scalar .plain e.value]

def nodes (e : Line) : Node × Node := (.leaf { text := e.key }, .leaf { text := e.value })

theorem printable (e : Line) : e.text.all isPrintable = true := by
  simp only [text, List.all_append, List.all_cons, e.isWord_key.printable, e.isWord_value.printable]
  rfl

theorem glyphsFrom_text (e : Line) (i l : Nat) (rest : List Char) :
    glyphsFrom i l 0 (e.text ++ rest) =
      glyphsFrom i l 0 e.key ++
        ⟨':', i + e.key.length, l, e.key.length⟩ :: ⟨' ', i + e.key.length + 1, l, e.key.length + 1⟩ ::
          (glyphsFrom (i + e.key.length + 2) l (e.key.length + 2) e.value ++
            ⟨'\n', i + e.key.length + 2 + e.value.length, l, e.key.length + 2 + e.value.length⟩ ::
              glyphsFrom (i + e.text.length) (l + 1) 0 rest) := by
  have hlength : i + e.text.length = i + e.key.length + 2 + e.value.length + 1 := by
    simp only [text, List.length_append, List.length_cons, List.length_nil]
    omega
  rw [hlength, text, List.append_assoc, glyphsFrom_append e.isWord_key.not_break, List.cons_append, glyphsFrom_cons rfl,
    List.cons_append, glyphsFrom_cons rfl, List.append_assoc, glyphsFrom_append e.isWord_value.not_break,
    List.singleton_append, glyphsFrom_lineFeed, Nat.zero_add]

theorem three_mul_length_le (es : List Line) : 3 * es.length ≤ (es.flatMap text).length := by
  induction es with
  | nil => exact Nat.le_refl 0
  | cons e es ih =>
    simp only [List.flatMap_cons, List.length_append, List.length_cons, text]
    omega

theorem startsLine_texts (es : List Line) (i l : Nat) : StartsLine (glyphsFrom i l 0 (es.flatMap text)) := by
  cases es with
  | nil => trivial
  | cons e es =>
    obtain ⟨g, gs, hkey, ⟨-, -, hcolumn⟩, -, hchars⟩ := e.isWord_key.glyphs i l 0
    rw [List.flatMap_cons, glyphsFrom_text, hkey]
    exact ⟨hcolumn, hchars g List.mem_cons_self⟩

end Line

namespace Scan

variable {older recent : List Token} {indent : Option Nat} {i l : Nat}

/-- **Reading one line.** -/
theorem run_line (n : Nat) (e : Line) (hindent : indent = none ∨ indent = some 0) {rest : List Char}
    (hrest : StartsLine (glyphsFrom (i + e.text.length) (l + 1) 0 rest)) :
    run (n + 3) { indent, older, recent } (glyphsFrom i l 0 (e.text ++ rest)) =
      run n { indent := some 0, older := .key :: (opening indent ++ (recent ++ older)),
              recent := [.scalar .plain e.value, .value, .scalar .plain e.key] }
        (glyphsFrom (i + e.text.length) (l + 1) 0 rest) := by
  obtain ⟨g, gs, hkey, ⟨hindex, hon, hcolumn⟩, htext, hchars⟩ := e.isWord_key.glyphs i l 0
  obtain ⟨g', gs', hvalue, -, htext', hchars'⟩ := e.isWord_value.glyphs (i + e.key.length + 2) l (e.key.length + 2)
  have hreach : i + e.key.length ≤ i + keyReach := Nat.add_le_add_left e.reach i
  rw [e.glyphsFrom_text, hkey, hvalue, run_key _ hindent hchars hcolumn, hindex, hon, run_colon _ hindent hreach,
    run_value n hchars' hrest, htext, htext']

/-- **Reading the lines of a mapping that is open**, up to its end. -/
theorem run_lines (n : Nat) : ∀ (es : List Line) {older recent : List Token} {i l : Nat},
    run (n + 3 * es.length + 1) { indent := some 0, older, recent } (glyphsFrom i l 0 (es.flatMap Line.text)) =
      some ((recent ++ older).reverse ++ es.flatMap Line.tokens ++ [.blockClose])
  | [], older, recent, i, l => by
    simp [run, glyphsFrom, skip, finish?, closeBlock, push, dropKey?, tokens]
  | e :: es, older, recent, i, l => by
    have hcount : n + 3 * (e :: es).length + 1 = n + 3 * es.length + 1 + 3 := by
      simp only [List.length_cons]
      omega
    -- a line leaves the mapping open and lets the next key begin, as it found the scanner
    rw [hcount, List.flatMap_cons, run_line _ e (.inr rfl) (Line.startsLine_texts es _ _), run_lines n es]
    simp [Line.tokens, opening]

end Scan

theorem tokens?_texts (e : Line) (es : List Line) :
    tokens? ((e :: es).flatMap Line.text) = some (.blockOpen :: ((e :: es).flatMap Line.tokens ++ [.blockClose])) := by
  have hprintable : ((e :: es).flatMap Line.text).all isPrintable = true := by
    rw [List.all_flatMap, List.all_eq_true]
    exact fun x _ => x.printable
  -- three tokens a line and the end of the text are within the limit, which is the length of the text
  have hlength := Line.three_mul_length_le (e :: es)
  rw [List.length_cons] at hlength
  obtain ⟨n, hn⟩ := Nat.exists_eq_add_of_le hlength
  have hcount : ((e :: es).flatMap Line.text).length + 1 = n + 3 * es.length + 1 + 3 := by omega
  rw [tokens?, if_pos hprintable, hcount, glyphs, List.flatMap_cons,
    Scan.run_line _ e (.inl rfl) (Line.startsLine_texts es _ _), Scan.run_lines n es]
  simp [Line.tokens, Scan.opening]

/-! ## Documents -/

theorem blockEntries?_tokens (hs : Handles) (a : Anchors) (n : Nat) : ∀ es : List Line,
    blockEntries? hs (n + es.length + 1) a (es.flatMap Line.tokens ++ [.blockClose]) = some (es.map Line.nodes, a, [])
  | [] => rfl
  | e :: es => by
    have hentry : blockEntries? hs (n + (e :: es).length + 1) a ((e :: es).flatMap Line.tokens ++ [.blockClose]) =
        (blockEntries? hs (n + es.length + 1) a (es.flatMap Line.tokens ++ [.blockClose])).map
          fun r => (e.nodes :: r.1, r.2) := rfl
    rw [hentry, blockEntries?_tokens hs a n es]
    rfl

theorem document?_tokens (es : List Line) :
    document? (.blockOpen :: (es.flatMap Line.tokens ++ [.blockClose])) = some (es.map Line.nodes, {}) := by
  have hlength : es.length ≤ (es.flatMap Line.tokens ++ [Token.blockClose]).length := by
    simp only [List.length_append, List.length_flatMap, Line.tokens, List.length_cons, List.length_nil, List.map_const',
      List.sum_replicate_nat]
    omega
  obtain ⟨n, hn⟩ := Nat.exists_eq_add_of_le' hlength
  have hcontent : content? Handles.standard (.blockOpen :: (es.flatMap Line.tokens ++ [.blockClose])) =
      some (es.map Line.nodes, {}, []) := by
    have hread := blockEntries?_tokens Handles.standard {} n es
    rw [← hn] at hread
    exact hread
  simp [document?, hcontent]

/-- **A flat mapping is read as it stands**: its lines in order, with plain values. -/
theorem entries?_texts {es : List Line} (hne : es ≠ []) :
    entries? (es.flatMap Line.text) = some (es.map fun e => (String.ofList e.key, { text := e.value })) := by
  obtain ⟨e, rest, rfl⟩ := List.exists_cons_of_ne_nil hne
  rw [entries?, tokens?_texts, Option.bind_some, document?_tokens, Option.bind_some]
  dsimp only
  rw [List.mapM_map]
  exact List.mapM_pure

end Yaml
end Retrace
