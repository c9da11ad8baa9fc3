import GrammarTokens.Json
import GrammarTokens.Token

/-!
# Tokens as JSON

Positions, spans and tokens are written as objects, kinds as their names. Reading accepts more
than is written: arrays for records, and an object with one empty field for a kind.
-/

namespace GrammarTokens

namespace Position

def toJson (p : Position) : Json :=
  .object [("line", .natural p.line), ("column", .natural p.column),
    ("offset", .natural p.offset)]

def ofJson? (j : Json) : Option Position :=
  match j.record? ["line", "column", "offset"] with
  | some [line, column, offset] => do
    return ⟨← line.toNat?, ← column.toNat?, ← offset.toNat?⟩
  | _ => none

end Position

namespace Span

def toJson (s : Span) : Json :=
  .object [("start", s.start.toJson), ("end", s.stop.toJson)]

def ofJson? (j : Json) : Option Span :=
  match j.record? ["start", "end"] with
  | some [start, stop] => do return ⟨← Position.ofJson? start, ← Position.ofJson? stop⟩
  | _ => none

end Span

namespace Token

namespace Kind

/-- The name of a kind in JSON. -/
def name : Kind → String
  | identifier => "Identifier"
  | symbol => "Symbol"
  | quotedLiteral => "QuotedLiteral"
  | lineComment => "LineComment"
  | blockComment => "BlockComment"
  | actionBlock => "ActionBlock"
  | endOfStream => "EndOfStream"

/-- All kinds. -/
def all : List Kind :=
  [identifier, symbol, quotedLiteral, lineComment, blockComment, actionBlock, endOfStream]

/-- The kind of a name. -/
def ofName? (s : String) : Option Kind :=
  all.find? (·.name = s)

theorem ofName?_name (kind : Kind) : ofName? kind.name = some kind := by
  cases kind <;> decide

def toJson (kind : Kind) : Json := .string kind.name

def ofJson? : Json → Option Kind
  | .string s => ofName? s
  | .object [(s, .null)] => ofName? s
  | _ => none

end Kind

def toJson (t : Token) : Json :=
  .object [("kind", t.kind.toJson), ("text", .string t.text), ("span", t.span.toJson)]

def ofJson? (j : Json) : Option Token :=
  match j.record? ["kind", "text", "span"] with
  | some [kind, text, span] => do
    return ⟨← Kind.ofJson? kind, ← text.toString?, ← Span.ofJson? span⟩
  | _ => none

/-- A list of tokens is written as an array. -/
def listToJson (tokens : List Token) : Json := .array (tokens.map toJson)

def listOfJson? : Json → Option (List Token)
  | .array items => items.mapM ofJson?
  | _ => none

end Token

end GrammarTokens
