import GrammarTokens.Diagnostic

/-!
# Reports

A report is an error with what is known of its surroundings. Without a text it is the error's
message; over a text it is a diagnostic on the place of the error, for which there always is an
excerpt (`isSome_excerpt?_diagnostic`).
-/

namespace GrammarTokens

/-- The place of the error in a text. An unexpected character is pointed at as a whole, any
other error at its position. -/
def LexError.diagnostic (e : LexError) (source : String) : Diagnostic :=
  let span := match e.cause with
    | .unexpectedCharacter character => Span.over e.position [character]
    | _ => Span.single e.position
  { source, span, suggestions := e.suggestions, help := e.help? }

/-- The same with counts of 64 bits. There is none if the program stops. -/
def LexError.diagnostic? (o : Overflow) (e : LexError) (source : String) : Option Diagnostic :=
  let span? := match e.cause with
    | .unexpectedCharacter character => Span.over? o e.position [character]
    | _ => some (Span.single e.position)
  span?.map fun span => { source, span, suggestions := e.suggestions, help := e.help? }

theorem LexError.diagnostic?_of_countsFit {o : Overflow} {e : LexError} {source : String}
    (h : ∀ c, e.cause = .unexpectedCharacter c → e.position.CountsFit [c]) :
    e.diagnostic? o source = some (e.diagnostic source) := by
  obtain ⟨cause, position⟩ := e
  cases cause with
  | unexpectedCharacter c =>
    have hc : position.CountsFit [c] := h c rfl
    simp only [diagnostic?, diagnostic, Span.over?_of_countsFit hc, Option.map_some]
  | _ => rfl

theorem LexError.isSome_excerpt?_diagnostic (e : LexError) (source : String) (around : Nat) :
    ((e.diagnostic source).excerpt? around).isSome := by
  apply Diagnostic.isSome_excerpt?_of_line_le
  simp only [LexError.diagnostic]
  split
  · simp [Span.over, Position.line_advance]
  · exact Nat.le_refl _

/-- An error, and the place in a text where it is shown. -/
structure Report where
  error : LexError
  context : Option Diagnostic := none
deriving DecidableEq, Repr, Inhabited

/-- The report of an error over a text. -/
def Report.over (e : LexError) (source : String) : Report :=
  ⟨e, some (e.diagnostic source)⟩

/-- The same with counts of 64 bits. There is none if the program stops. -/
def Report.over? (o : Overflow) (e : LexError) (source : String) : Option Report :=
  (e.diagnostic? o source).map fun d => ⟨e, some d⟩

/-- The report as text. -/
def Report.render? (r : Report) : Option String :=
  match r.context with
  | none => some r.error.message
  | some d => d.render? r.error.message

end GrammarTokens
