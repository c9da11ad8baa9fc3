import GrammarTokens.Alphabetic

/-!
# Character classes

The classes of characters that tokens and the space between them are made of.
-/

namespace GrammarTokens

/-- Blanks separate tokens and mean nothing else. -/
def isBlank (c : Char) : Bool :=
  c == ' ' || c == '\t' || c == '\n' || c == '\r'

theorem isBlank_iff {c : Char} :
    isBlank c ↔ c = ' ' ∨ c = '\t' ∨ c = '\n' ∨ c = '\r' := by
  simp [isBlank, or_assoc]

/-- The characters that an identifier begins with. -/
def isIdentifierStart (c : Char) : Bool :=
  c == '_' || isAlphabetic c

theorem isIdentifierStart_iff {c : Char} : isIdentifierStart c ↔ c = '_' ∨ isAlphabetic c := by
  simp [isIdentifierStart]

/-- The characters that go on with an identifier. -/
def isIdentifierContinue (c : Char) : Bool :=
  c == '_' || c.isDigit || isAlphabetic c

theorem isIdentifierContinue_iff {c : Char} :
    isIdentifierContinue c ↔ c = '_' ∨ c.isDigit ∨ isAlphabetic c := by
  simp [isIdentifierContinue, or_assoc]

/-- The characters that are tokens by themselves. -/
def isSymbol (c : Char) : Bool :=
  c == ':' || c == '|' || c == ',' || c == ';' || c == '(' || c == ')'

theorem isSymbol_iff {c : Char} :
    isSymbol c ↔ c = ':' ∨ c = '|' ∨ c = ',' ∨ c = ';' ∨ c = '(' ∨ c = ')' := by
  simp [isSymbol, or_assoc]

/-- The characters that delimit literals. -/
def isQuote (c : Char) : Bool :=
  c == '\'' || c == '"'

theorem isQuote_iff {c : Char} : isQuote c ↔ c = '\'' ∨ c = '"' := by
  simp [isQuote]

theorem isIdentifierContinue_of_isIdentifierStart {c : Char} (h : isIdentifierStart c) :
    isIdentifierContinue c := by
  rw [isIdentifierContinue_iff]
  rcases isIdentifierStart_iff.mp h with h | h
  · exact .inl h
  · exact .inr (.inr h)

theorem not_isIdentifierContinue_of_isBlank {c : Char} (h : isBlank c) :
    isIdentifierContinue c = false := by
  rcases isBlank_iff.mp h with rfl | rfl | rfl | rfl <;> decide

end GrammarTokens
