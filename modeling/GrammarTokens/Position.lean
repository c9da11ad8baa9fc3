/-!
# Positions in a text

A position counts lines, columns and bytes up to a place between two characters. Only a
newline starts a line, so a carriage return is a column like any other. The lemmas say what
passing a run of characters does to each of the three counts. The counts are natural numbers
here; where 64 bits may not be enough for them, see `advance?`.
-/

namespace GrammarTokens

/-- A place in a text: the line and the column count from one, the offset counts the bytes of
UTF-8 before the place. -/
structure Position where
  line : Nat := 1
  column : Nat := 1
  offset : Nat := 0
deriving DecidableEq, Repr, Inhabited

/-- The number of bytes that characters take in UTF-8. -/
def utf8Length : List Char → Nat
  | [] => 0
  | c :: cs => c.utf8Size + utf8Length cs

@[simp] theorem utf8Length_nil : utf8Length [] = 0 := rfl

@[simp] theorem utf8Length_cons (c : Char) (cs : List Char) :
    utf8Length (c :: cs) = c.utf8Size + utf8Length cs := rfl

@[simp] theorem utf8Length_append (cs ds : List Char) :
    utf8Length (cs ++ ds) = utf8Length cs + utf8Length ds := by
  induction cs with
  | nil => simp
  | cons c cs ih => simp [ih, Nat.add_assoc]

namespace Position

/-- The beginning of a text. -/
def start : Position := {}

/-- The position after one more character. -/
def advance (p : Position) (c : Char) : Position :=
  if c = '\n' then ⟨p.line + 1, 1, p.offset + c.utf8Size⟩
  else ⟨p.line, p.column + 1, p.offset + c.utf8Size⟩

/-- The position after a run of characters. -/
def advanceBy (p : Position) (cs : List Char) : Position :=
  cs.foldl advance p

/-- A position is shown as its line and column. -/
instance : ToString Position := ⟨fun p => s!"{p.line}:{p.column}"⟩

@[simp] theorem advanceBy_nil (p : Position) : p.advanceBy [] = p := rfl

@[simp] theorem advanceBy_cons (p : Position) (c : Char) (cs : List Char) :
    p.advanceBy (c :: cs) = (p.advance c).advanceBy cs := rfl

theorem advanceBy_append (p : Position) (cs ds : List Char) :
    p.advanceBy (cs ++ ds) = (p.advanceBy cs).advanceBy ds := by
  simp [advanceBy]

@[simp] theorem offset_advance (p : Position) (c : Char) :
    (p.advance c).offset = p.offset + c.utf8Size := by
  unfold advance; split <;> rfl

theorem offset_advanceBy (p : Position) (cs : List Char) :
    (p.advanceBy cs).offset = p.offset + utf8Length cs := by
  induction cs generalizing p with
  | nil => simp
  | cons c cs ih => simp [ih, Nat.add_assoc]

theorem line_advance (p : Position) (c : Char) :
    (p.advance c).line = p.line + if c = '\n' then 1 else 0 := by
  unfold advance; split <;> rfl

theorem line_advanceBy (p : Position) (cs : List Char) :
    (p.advanceBy cs).line = p.line + cs.count '\n' := by
  induction cs generalizing p with
  | nil => simp
  | cons c cs ih =>
    rw [advanceBy_cons, ih, line_advance, List.count_cons]
    by_cases hc : c = '\n'
    · simp only [hc, if_true, beq_self_eq_true]
      omega
    · simp only [hc, if_false, beq_iff_eq]
      omega

theorem column_advanceBy_of_no_newline (p : Position) (cs : List Char) (h : '\n' ∉ cs) :
    (p.advanceBy cs).column = p.column + cs.length := by
  induction cs generalizing p with
  | nil => simp
  | cons c cs ih =>
    obtain ⟨hc, hcs⟩ : '\n' ≠ c ∧ '\n' ∉ cs := by simpa using h
    rw [advanceBy_cons, ih _ hcs, advance, if_neg (Ne.symm hc)]
    simp only [List.length_cons]; omega

end Position

end GrammarTokens
