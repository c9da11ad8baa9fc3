import GrammarTokens.CharClass
import GrammarTokens.LexError
import GrammarTokens.Token

/-!
# Lexemes in progress

A `Scan` remembers the little that decides how one more character, or the end of the text,
continues a lexeme that has begun.
-/

namespace GrammarTokens

/-- A lexeme that has begun but may not be complete. -/
inductive Scan where
  /-- Within an identifier. -/
  | identifier
  /-- Before a symbol. -/
  | symbol
  /-- Before the opening quote of a literal. -/
  | openingQuote (quote : Char)
  /-- Within a literal. -/
  | literal (quote : Char)
  /-- Within a line comment. -/
  | lineComment
  /-- Before the `/` of a block comment. -/
  | openingSlash
  /-- Between the `/` and the `*` that open a block comment. -/
  | openingStar
  /-- Within a block comment, and whether a `*` came last. -/
  | blockComment (afterStar : Bool)
  /-- Before the `{` of an action block. -/
  | openingBrace
  /-- Within an action block: the number of braces open inside it, and the quote that ends the
  quoted substring, within one. -/
  | action (nested : Nat) (quote : Option Char)
deriving DecidableEq, Repr, Inhabited

/-- What one more character does to a lexeme in progress. -/
inductive Step where
  /-- The character belongs to the text. Without a next state the lexeme is complete. -/
  | keep (next : Option Scan)
  /-- The character belongs to the lexeme, but not to its text. -/
  | strip (next : Option Scan)
  /-- The lexeme was complete before the character. -/
  | stop
  /-- The characters so far begin no lexeme. -/
  | reject (cause : LexError.Cause)
deriving DecidableEq, Repr, Inhabited

namespace Scan

/-- The kind of token that the lexeme becomes. -/
def kind : Scan → Token.Kind
  | identifier => .identifier
  | symbol => .symbol
  | openingQuote _ | literal _ => .quotedLiteral
  | lineComment => .lineComment
  | openingSlash | openingStar | blockComment _ => .blockComment
  | openingBrace | action _ _ => .actionBlock

/-- The state of an action block after one more character outside quotes; `none` if the
character closes the block. -/
def actionStep (nested : Nat) (c : Char) : Option Scan :=
  if isQuote c then some (action nested (some c))
  else if c = '{' then some (action (nested + 1) none)
  else if c = '}' then
    match nested with
    | 0 => none
    | outer + 1 => some (action outer none)
  else some (action nested none)

/-- What one more character does to the lexeme. -/
def step : Scan → Char → Step
  | identifier, c => if isIdentifierContinue c then .keep (some identifier) else .stop
  | symbol, _ => .keep none
  | openingQuote quote, _ => .keep (some (literal quote))
  | literal quote, c => .keep (if c = quote then none else some (literal quote))
  | lineComment, c => .keep (if c = '\n' then none else some lineComment)
  | openingSlash, _ => .keep (some openingStar)
  | openingStar, c =>
    if c = '*' then .keep (some (blockComment false)) else .reject (.unexpectedCharacter '/')
  | blockComment afterStar, c =>
    .keep (if afterStar && c == '/' then none else some (blockComment (c == '*')))
  | openingBrace, _ => .strip (some (action 0 none))
  | action nested (some quote), c =>
    .keep (some (action nested (if c = quote then none else some quote)))
  | action nested none, c =>
    match actionStep nested c with
    | some next => .keep (some next)
    | none => .strip none

/-- What is wrong with the lexeme if the text ends here; `none` if it is complete. -/
def atEnd? : Scan → Option LexError.Cause
  | identifier | symbol | lineComment => none
  | openingQuote quote | literal quote => some (.unterminatedLiteral quote)
  | openingSlash | openingStar => some (.unexpectedCharacter '/')
  | blockComment _ => some .unterminatedComment
  | openingBrace => some (.unterminatedAction 0)
  | action nested _ => some (.unterminatedAction (nested + 1))

end Scan

end GrammarTokens
