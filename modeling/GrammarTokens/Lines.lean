/-!
# Lines of a text

A text is cut behind every newline, and a line is a segment without its line break, which is a
newline or a carriage return before a newline. Nothing is lost by the cutting
(`flatten_segments`), and a text that ends in a line break has no empty line behind it.
-/

namespace GrammarTokens

/-- The pieces of a text that end behind a newline, and what is left after the last one. -/
def segments (cs : List Char) : List (List Char) :=
  cs.foldr (fun c later =>
    if c = '\n' then ['\n'] :: later
    else match later with
      | [] => [[c]]
      | segment :: segments => (c :: segment) :: segments) []

/-- A segment without its line break. -/
def chomp (segment : List Char) : List Char :=
  match segment.reverse with
  | '\n' :: '\r' :: cs => cs.reverse
  | '\n' :: cs => cs.reverse
  | _ => segment

/-- The lines of a text, without their line breaks. -/
def lines (cs : List Char) : List (List Char) :=
  (segments cs).map chomp

@[simp] theorem segments_nil : segments [] = [] := rfl

theorem segments_newline (cs : List Char) : segments ('\n' :: cs) = ['\n'] :: segments cs := by
  simp [segments]

theorem segments_cons {c : Char} (hc : c ≠ '\n') (cs : List Char) :
    segments (c :: cs) = match segments cs with
      | [] => [[c]]
      | segment :: later => (c :: segment) :: later := by
  simp only [segments, List.foldr_cons, if_neg hc]

theorem flatten_segments (cs : List Char) : (segments cs).flatten = cs := by
  induction cs with
  | nil => rfl
  | cons c cs ih =>
    by_cases hc : c = '\n'
    · subst hc
      rw [segments_newline, List.flatten_cons, ih]
      rfl
    · rw [segments_cons hc]
      split <;> simp_all

end GrammarTokens
