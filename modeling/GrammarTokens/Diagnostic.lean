import GrammarTokens.Capacity
import GrammarTokens.LexError
import GrammarTokens.Lines
import GrammarTokens.Overflow

/-!
# Diagnostics

A diagnostic points at a span of a text: it shows the lines around the span, with a row of
carets under it, then advice and help. A span need not come from the text, so lines that do not
exist are moved to the nearest one that does; there is no excerpt if the span ends too far
before its start. A span whose lines are in order always has one
(`isSome_excerpt?_of_line_le`), though it cannot be rendered if its columns are so far out that
memory has no room for the row of carets.
-/

namespace GrammarTokens

/-- What is to be shown about a span of a text. -/
structure Diagnostic where
  source : String
  span : Span
  suggestions : List String := []
  help : Option String := none
deriving DecidableEq, Repr, Inhabited

/-- A row of an excerpt. -/
inductive Row where
  /-- A line of the text, with its number. -/
  | line (number : Nat) (text : List Char)
  /-- Carets under the line above, after so many columns of it. -/
  | carets (indent count : Nat)
deriving DecidableEq, Repr, Inhabited

/-- Rows with the width of their line numbers. -/
structure Excerpt where
  gutter : Nat
  rows : List Row
deriving DecidableEq, Repr, Inhabited

/-- A character repeated. -/
def repeated (c : Char) (count : Nat) : String :=
  "".pushn c count

/-- Whether memory has room for the blanks before the carets and for the carets. -/
def Row.fits (gutter : Nat) : Row → Bool
  | line .. => true
  | carets indent count => gutter + 3 + indent ≤ maxCapacity && count ≤ maxCapacity

/-- Line numbers stand to the right in the gutter, and three columns separate them from the
text. -/
def Row.render (gutter : Nat) : Row → String
  | line number text =>
    let digits := toString number
    repeated ' ' (gutter - digits.length) ++ digits ++ " | " ++ String.ofList text ++ "\n"
  | carets indent count =>
    repeated ' ' (gutter + 3 + indent) ++ repeated '^' count ++ "  <-- Error here\n"

/-- The rows as text, if all of them fit. -/
def Excerpt.render? (e : Excerpt) : Option String :=
  if e.rows.all (Row.fits e.gutter) then some (String.join (e.rows.map (Row.render e.gutter)))
  else none

@[simp] theorem toList_repeated (c : Char) (count : Nat) :
    (repeated c count).toList = List.replicate count c := by
  induction count with
  | zero => rfl
  | succ count ih =>
    simp only [repeated, String.pushn_eq_repeat_push, Nat.repeat] at ih ⊢
    rw [String.toList_push, ih, List.replicate_succ']

/-- Which of the lines of a text are shown, counted from zero: those from `first` up to, and
not including, `stop`, with carets under the line `marked`. -/
structure Window where
  first : Nat
  stop : Nat
  marked : Nat
deriving DecidableEq, Repr, Inhabited

/-- The lines of a span, moved into a text of `count` lines, and `around` more on both sides. -/
def Span.window (s : Span) (around count : Nat) : Window :=
  let top := min (s.start.line - 1) (count - 1)
  let bottom := min (s.stop.line - 1) (count - 1)
  { first := top - around, stop := min (bottom + around + 1) count, marked := top }

/-- The carets under a line. They cover the part of the span on that line, and at least one
column. If the line is not the one that the span starts on, a single one stands behind it. -/
def Span.carets (s : Span) (number : Nat) (text : List Char) : Row :=
  if number ≠ s.start.line then .carets text.length 1
  else if s.start.line = s.stop.line then
    .carets (s.start.column - 1) (max (s.stop.column - s.start.column) 1)
  else .carets (s.start.column - 1) (max (text.length - (s.start.column - 1)) 1)

namespace Diagnostic

/-- A diagnostic on a piece of text that stands at a position. -/
def on (source : String) (p : Position) (text : String) : Diagnostic :=
  { source, span := Span.over p text.toList }

/-- The same with counts of 64 bits, as the position may come from anywhere. There is none if
the program stops. -/
def on? (o : Overflow) (source : String) (p : Position) (text : String) : Option Diagnostic :=
  (Span.over? o p text.toList).map fun span => { source, span }

/-- More advice, after what there is. -/
def withSuggestions (d : Diagnostic) (more : List String) : Diagnostic :=
  { d with suggestions := d.suggestions ++ more }

/-- Help, in place of what there is. -/
def withHelp (d : Diagnostic) (help : String) : Diagnostic :=
  { d with help := some help }

/-- The lines of the span and `around` more on both sides. -/
def excerpt? (d : Diagnostic) (around : Nat) : Option Excerpt :=
  let all := lines d.source.toList
  if all.isEmpty then some ⟨0, []⟩
  else
    let w := d.span.window around all.length
    if w.stop < w.first then none
    else
      let shown := ((all.drop w.first).take (w.stop - w.first)).zipIdx (w.first + 1)
      some ⟨(toString w.stop).length, shown.flatMap fun (text, number) =>
        if number = w.marked + 1 then [.line number text, d.span.carets number text]
        else [.line number text]⟩

/-- The excerpt as text. -/
def snippet? (d : Diagnostic) (around : Nat := 2) : Option String :=
  (d.excerpt? around).bind Excerpt.render?

/-- Advice, one numbered line each. -/
def renderSuggestions (suggestions : List String) : String :=
  if suggestions.isEmpty then ""
  else "\nSuggestions:\n" ++
    String.join ((suggestions.zipIdx 1).map fun (text, number) => s!"  {number}. {text}\n")

/-- Help, if there is any. -/
def renderHelp : Option String → String
  | none => ""
  | some text => s!"\nHelp: {text}\n"

/-- The whole diagnostic under a message. -/
def render? (d : Diagnostic) (message : String) : Option String :=
  d.snippet?.map fun snippet =>
    s!"Error at {d.span.start}: {message}\n\n" ++ snippet ++
      renderSuggestions d.suggestions ++ renderHelp d.help

theorem on?_of_countsFit {o : Overflow} {p : Position} {source text : String}
    (h : p.CountsFit text.toList) : on? o source p text = some (on source p text) := by
  rw [on?, Span.over?_of_countsFit h]
  rfl

theorem isSome_excerpt?_of_line_le (d : Diagnostic) (around : Nat)
    (h : d.span.start.line ≤ d.span.stop.line) : (d.excerpt? around).isSome := by
  unfold excerpt?
  simp only
  split
  · rfl
  · next hne =>
    have hpos : 0 < (lines d.source.toList).length :=
      List.length_pos_iff.2 (by simpa using hne)
    rw [if_neg]
    · rfl
    · simp only [Span.window]
      omega

end Diagnostic

end GrammarTokens
