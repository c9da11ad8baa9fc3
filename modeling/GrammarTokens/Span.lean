import GrammarTokens.Position

/-!
# Spans of a text

A span is the stretch from one position up to, and not including, another one.
-/

namespace GrammarTokens

/-- The stretch of a text from `start` up to `stop`. Nothing demands that the ends are in
order: a span from elsewhere may be inverted, and then has no bytes. -/
structure Span where
  start : Position
  stop : Position
deriving DecidableEq, Repr, Inhabited

/-- The span that characters cover from a position on. -/
def Span.over (p : Position) (cs : List Char) : Span := ⟨p, p.advanceBy cs⟩

namespace Span

/-- The empty span at a position. -/
def single (p : Position) : Span := ⟨p, p⟩

/-- The number of bytes in the span. -/
def length (s : Span) : Nat := s.stop.offset - s.start.offset

/-- A span is empty if it has no bytes. -/
def isEmpty (s : Span) : Bool := s.length == 0

/-- A span on one line is shown as that line with both columns, any other by its two ends. -/
instance : ToString Span where
  toString s :=
    if s.start.line = s.stop.line then s!"{s.start.line}:{s.start.column}-{s.stop.column}"
    else s!"{s.start}-{s.stop}"

end Span

end GrammarTokens
