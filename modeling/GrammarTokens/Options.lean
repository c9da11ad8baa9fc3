/-!
# Options of a lexer
-/

namespace GrammarTokens

/-- Bounds on what a lexer accepts, `none` for no bound, and the size of the buffer that it
reads through. -/
structure Options where
  maxTokenLength : Option Nat := none
  maxTokens : Option Nat := none
  bufferCapacity : Nat := 8192
deriving DecidableEq, Repr, Inhabited

/-- The size of the buffer that a lexer makes for itself: at least 1024 bytes. -/
def Options.bufferSize (o : Options) : Nat := max o.bufferCapacity 1024

/-- The number that stands for no bound where a number has to be given. -/
def Options.unbounded : Nat := UInt64.size - 1

end GrammarTokens
