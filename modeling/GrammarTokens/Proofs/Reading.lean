import GrammarTokens.Scan
import Mathlib.Tactic.Lemma

/-!
# Reading a lexeme from a list of characters

`Scan.read` runs a lexeme in progress over characters that are all at hand. It says which of
them the lexeme takes, which of those belong to its text, and why it stops.
-/

namespace GrammarTokens

namespace Scan

inductive Stop where
  | complete
  | rejected (cause : LexError.Cause)
  | exhausted (state : Scan)
deriving DecidableEq, Repr

/-- What is wrong with a lexeme that stops so, if the text ends where the characters end. -/
def Stop.fault? : Stop → Option LexError.Cause
  | complete => none
  | rejected cause => some cause
  | exhausted state => state.atEnd?

/-- The characters that a lexeme takes, the ones that belong to its text, and those it leaves. -/
structure Reading where
  taken : List Char
  text : List Char
  rest : List Char
  stop : Stop
deriving DecidableEq, Repr

namespace Reading

def keep (c : Char) (r : Reading) : Reading := { r with taken := c :: r.taken, text := c :: r.text }

def strip (c : Char) (r : Reading) : Reading := { r with taken := c :: r.taken }

/-- Keeps a run of characters in front of a reading. -/
def keepAll (cs : List Char) (r : Reading) : Reading :=
  { r with taken := cs ++ r.taken, text := cs ++ r.text }

@[simp] lemma keepAll_nil (r : Reading) : r.keepAll [] = r := rfl

@[simp] lemma keepAll_cons (c : Char) (cs : List Char) (r : Reading) :
    r.keepAll (c :: cs) = (r.keepAll cs).keep c := rfl

end Reading

/-- The text of a lexeme that began at `start` and had `text` before the reading, or its fault. -/
def Reading.answer (r : Reading) (start : Position) (text : String) : Except LexError String :=
  match r.stop.fault? with
  | none => .ok (text ++ String.ofList r.text)
  | some cause => .error ⟨cause, start⟩

lemma Reading.answer_keep (c : Char) (r : Reading) (start : Position) (text : String) :
    (r.keep c).answer start text = r.answer start (text.push c) := by
  have htext : text ++ String.ofList (c :: r.text) = text.push c ++ String.ofList r.text := by
    apply String.toList_injective
    simp
  simp only [answer, keep, htext]

def read : Scan → List Char → Reading
  | state, [] => ⟨[], [], [], .exhausted state⟩
  | state, c :: cs =>
    match state.step c with
    | .stop => ⟨[], [], c :: cs, .complete⟩
    | .reject cause => ⟨[], [], c :: cs, .rejected cause⟩
    | .keep none => ⟨[c], [c], cs, .complete⟩
    | .strip none => ⟨[c], [], cs, .complete⟩
    | .keep (some next) => (read next cs).keep c
    | .strip (some next) => (read next cs).strip c

/-- A reading takes characters from the front and leaves the others as they are. -/
theorem taken_append_rest (state : Scan) (cs : List Char) :
    (state.read cs).taken ++ (state.read cs).rest = cs := by
  induction cs generalizing state with
  | nil => rfl
  | cons c cs ih =>
    rw [read]
    split
    · rfl
    · rfl
    · rfl
    · rfl
    · next next h => simp [Reading.keep, ih next]
    · next next h => simp [Reading.strip, ih next]

lemma rest_of_exhausted {state last : Scan} {cs : List Char}
    (h : (state.read cs).stop = .exhausted last) : (state.read cs).rest = [] := by
  induction cs generalizing state with
  | nil => rfl
  | cons c cs ih =>
    rw [read] at h ⊢
    split at h
    · cases h
    · cases h
    · cases h
    · cases h
    · next next _ => exact ih h
    · next next _ => exact ih h

end Scan

end GrammarTokens
