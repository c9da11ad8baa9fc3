import GrammarTokens.LexError
import GrammarTokens.Token

/-!
# Log of a lexer

One entry for every token, and one for the end of the stream or the error that a lexer stopped
at.
-/

namespace GrammarTokens

/-- An entry of the log. -/
inductive Event where
  /-- A token was returned. -/
  | scanned (kind : Token.Kind) (span : Span)
  /-- The end of the stream was met after so many tokens. -/
  | ended (tokens : Nat)
  /-- An error was met after so many tokens. -/
  | failed (error : LexError) (tokens : Nat)
deriving DecidableEq, Repr, Inhabited

namespace Event

/-- How much an entry of the log matters. -/
inductive Level where
  | trace
  | debug
deriving DecidableEq, Repr, Inhabited

/-- Single tokens are logged at the finest level. -/
def level : Event → Level
  | scanned .. => .trace
  | ended .. | failed .. => .debug

/-- The entry in words. -/
def message : Event → String
  | scanned .. => "scanned token"
  | ended .. => "reached end of stream"
  | failed .. => "scan failed"

end Event

end GrammarTokens
