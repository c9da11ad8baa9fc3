import GrammarTokens.Span

/-!
# Tokens

A token is a kind, a text and the span of the source that it was read from. The text is what
stands in the source, except that an action block leaves out its outer braces; `Token.raw`
puts them back.
-/

namespace GrammarTokens

namespace Token

/-- What a token is. -/
inductive Kind where
  /-- A letter or `_`, then letters, digits and `_`. -/
  | identifier
  /-- One of `: | , ; ( )`. -/
  | symbol
  /-- A text between two single or two double quotes, the quotes included. -/
  | quotedLiteral
  /-- From `#` through the end of the line, the newline included. -/
  | lineComment
  /-- From `/*` through the first `*/` after it. -/
  | blockComment
  /-- The text between balanced braces. -/
  | actionBlock
  /-- The mark behind the last token. -/
  | endOfStream
deriving DecidableEq, Repr, Inhabited

/-- The name of a kind in messages. -/
def Kind.description : Kind → String
  | identifier => "identifier"
  | symbol => "symbol"
  | quotedLiteral => "quoted literal"
  | lineComment => "line comment"
  | blockComment => "block comment"
  | actionBlock => "action block"
  | endOfStream => "end of stream"

/-- Comments stay in the stream of tokens; a consumer without use for them drops the trivia. -/
def Kind.isTrivia : Kind → Bool
  | lineComment | blockComment => true
  | _ => false

theorem Kind.isTrivia_iff {kind : Kind} :
    kind.isTrivia ↔ kind = lineComment ∨ kind = blockComment := by
  cases kind <;> simp [isTrivia]

instance : ToString Kind := ⟨Kind.description⟩

end Token

/-- A piece of the source with its meaning. -/
structure Token where
  kind : Token.Kind
  text : String
  span : Span
deriving DecidableEq, Repr, Inhabited

namespace Token

/-- The mark behind the last token. -/
def endOfStream (p : Position) : Token := ⟨.endOfStream, "", Span.single p⟩

/-- Whether the token is the mark behind the last one. -/
def isEndOfStream (t : Token) : Bool := t.kind == .endOfStream

/-- Whether the token is a comment. -/
def isTrivia (t : Token) : Bool := t.kind.isTrivia

/-- The characters that stand in the source for a kind and a text. -/
def Kind.raw (kind : Kind) (text : String) : List Char :=
  match kind with
  | actionBlock => '{' :: text.toList ++ ['}']
  | _ => text.toList

/-- The characters that a token was read from. -/
def raw (t : Token) : List Char := t.kind.raw t.text

/-- A token is shown as its text. -/
instance : ToString Token := ⟨Token.text⟩

@[simp] theorem isEndOfStream_endOfStream (p : Position) :
    (endOfStream p).isEndOfStream = true := rfl

end Token

end GrammarTokens
