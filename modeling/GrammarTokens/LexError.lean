import GrammarTokens.Position
import GrammarTokens.ReadFailure

/-!
# Lexical errors

A lexical error is a cause at a position. Its message and the advice on mending it are
functions of the two.
-/

namespace GrammarTokens

namespace LexError

/-- What kept the lexer from returning a token. -/
inductive Cause where
  /-- The text ends before the quote comes again. -/
  | unterminatedLiteral (quote : Char)
  /-- The text ends before `*/`. -/
  | unterminatedComment
  /-- The text ends while `depth` braces are open. -/
  | unterminatedAction (depth : Nat)
  /-- No token begins with the character. -/
  | unexpectedCharacter (character : Char)
  /-- The source could not be read on. -/
  | readFailed (failure : ReadFailure)
  /-- The text of a token has more than `limit` bytes. -/
  | tokenTooLong (limit : Nat)
  /-- There are more than `limit` tokens. -/
  | tooManyTokens (limit : Nat)
deriving DecidableEq, Repr, Inhabited

end LexError

/-- A cause, and the position that it belongs to: the beginning of the token at fault, or the
place from which the source could not be read. -/
structure LexError where
  cause : LexError.Cause
  position : Position
deriving DecidableEq, Repr, Inhabited

namespace LexError

/-- Whether the source is at fault, and not the text. -/
def isReadFailure (e : LexError) : Bool :=
  match e.cause with
  | .readFailed _ => true
  | _ => false

/-- The error in one line. -/
def message (e : LexError) : String :=
  let p := e.position
  match e.cause with
  | .unterminatedLiteral quote => s!"Unterminated {quote}-quoted literal starting at {p}"
  | .unterminatedComment => s!"Unterminated block comment starting at {p}"
  | .unterminatedAction depth =>
    s!"Unterminated action block starting at {p} ({depth} unclosed brace(s))"
  | .unexpectedCharacter character => s!"Unexpected character '{character}' at {p}"
  | .readFailed failure => s!"IO error at {p}: {failure.message}"
  | .tokenTooLong limit => s!"Token starting at {p} exceeds maximum length of {limit} bytes"
  | .tooManyTokens limit => s!"Token limit exceeded at {p}: {limit} tokens"

instance : ToString LexError := ⟨LexError.message⟩

/-- Advice on mending the text, one sentence each. -/
def suggestions (e : LexError) : List String :=
  match e.cause with
  | .unterminatedLiteral quote =>
    [s!"Close the literal with a matching {quote}",
      "Literals cannot contain their own delimiter; " ++
        s!"use the other quote style to embed {quote}"]
  | .unterminatedComment => ["Close the block comment with */"]
  | .unterminatedAction depth =>
    [s!"Add {depth} closing brace(s) to balance the action block"]
  | .unexpectedCharacter character =>
    if character = '/' then ["A lone '/' is not a token; block comments start with /*"]
    else [s!"Quote the character as a literal: '{character}'"]
  | .readFailed failure =>
    if failure.kind = .invalidData then ["Ensure the input is valid UTF-8"] else []
  | .tokenTooLong _ | .tooManyTokens _ => []

/-- A rule of the language that the writer of the text may not know. -/
def help? (e : LexError) : Option String :=
  match e.cause with
  | .unterminatedLiteral _ =>
    some "Quoted literals have no escape sequences and may span lines"
  | .unterminatedAction _ =>
    some "Braces inside quoted substrings do not count towards action block nesting"
  | _ => none

end LexError

end GrammarTokens
