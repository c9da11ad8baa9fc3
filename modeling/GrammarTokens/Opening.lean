import GrammarTokens.Scan

/-!
# Beginnings of lexemes

The first character that is not blank decides what kind of lexeme begins. It always belongs to
the lexeme that it begins (`exists_step_first`), so a lexeme is never empty in the source.
-/

namespace GrammarTokens

/-- What a character begins, if it is the first one that is not blank. -/
inductive Opening where
  /-- A lexeme, to be scanned from the character itself on. -/
  | lexeme (first : Scan)
  /-- The text is at its end. -/
  | endOfStream
  /-- No token begins with the character. -/
  | unexpected (c : Char)
deriving DecidableEq, Repr, Inhabited

namespace Opening

/-- What the next character begins. A `/` counts as the beginning of a block comment until the
next character shows otherwise. -/
def classify : Option Char → Opening
  | none => endOfStream
  | some c =>
    if isIdentifierStart c then lexeme .identifier
    else if isSymbol c then lexeme .symbol
    else if isQuote c then lexeme (.openingQuote c)
    else if c = '#' then lexeme .lineComment
    else if c = '/' then lexeme .openingSlash
    else if c = '{' then lexeme .openingBrace
    else unexpected c

theorem exists_step_first {c : Char} {first : Scan} (h : classify (some c) = lexeme first) :
    ∃ next, first.step c = .keep next ∨ first.step c = .strip next := by
  by_cases hc : isIdentifierStart c
  · simp only [classify, hc, if_true, lexeme.injEq] at h
    subst h
    exact ⟨some .identifier,
      .inl (by simp [Scan.step, isIdentifierContinue_of_isIdentifierStart hc])⟩
  · simp only [classify, hc, Bool.false_eq_true, if_false] at h
    repeat' split at h
    all_goals cases h
    all_goals simp [Scan.step]

end Opening

end GrammarTokens
