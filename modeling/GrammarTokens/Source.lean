import GrammarTokens.Scan

/-!
# Sources of characters

A source hands out the characters of a feed with one character of lookahead and keeps the
position of the next unread one. Scanning a lexeme and skipping blanks are loops on a source.
They end because taking a character makes a source smaller; nothing done to a source makes it
larger.
-/

namespace GrammarTokens

/-- What characters can be drawn from, one at a time. A feed answers with a character, with its
end, or with a failure, and each answer leaves another feed. Drawing a character makes a feed
smaller, so that only finitely many characters come out of it. -/
class CharFeed (ρ : Type) where
  next : ρ → Except ReadFailure (Option Char) × ρ
  size : ρ → Nat
  size_next_le : ∀ feed, size (next feed).2 ≤ size feed
  size_next_lt : ∀ feed c, (next feed).1 = .ok (some c) → size (next feed).2 < size feed

/-- A list of characters is the feed that hands them out in order. -/
instance : CharFeed (List Char) where
  next
    | [] => (.ok none, [])
    | c :: cs => (.ok (some c), cs)
  size := List.length
  size_next_le feed := by cases feed <;> simp
  size_next_lt feed c h := by cases feed <;> simp_all

/-- What a source knows of its next character. -/
inductive Lookahead where
  /-- It has not been drawn yet. -/
  | unread
  /-- It has been drawn, but not taken. -/
  | char (c : Char)
  /-- There is none, now and for ever. -/
  | ended
deriving DecidableEq, Repr, Inhabited

/-- A feed with the position of the next unread character and what is known of it. -/
structure Source (ρ : Type) where
  feed : ρ
  position : Position := .start
  lookahead : Lookahead := .unread
deriving Repr

namespace Source

/-- The source at the beginning of a feed. -/
def ofFeed {ρ : Type} (feed : ρ) : Source ρ := { feed }

variable {ρ : Type} [CharFeed ρ]

/-- A bound on the number of characters that can still be taken. -/
def size (s : Source ρ) : Nat :=
  CharFeed.size s.feed + match s.lookahead with
    | .char _ => 1
    | .unread | .ended => 0

/-- Looks at the next character, which is `none` at the end. A failure is reported at the
position of the character that could not be read. It is not remembered, so that looking again
draws from what the feed has left; the end, once met, stays. -/
def peek (s : Source ρ) : Except LexError (Option Char) × Source ρ :=
  match s.lookahead with
  | .char c => (.ok (some c), s)
  | .ended => (.ok none, s)
  | .unread =>
    match CharFeed.next s.feed with
    | (.ok (some c), feed) => (.ok (some c), { s with feed, lookahead := .char c })
    | (.ok none, feed) => (.ok none, { s with feed, lookahead := .ended })
    | (.error failure, feed) =>
      (.error ⟨.readFailed failure, s.position⟩, { s with feed })

/-- Takes the character that was looked at. -/
def take (s : Source ρ) (c : Char) : Source ρ :=
  { s with position := s.position.advance c, lookahead := .unread }

theorem size_peek_le (s : Source ρ) : s.peek.2.size ≤ s.size := by
  obtain ⟨feed, position, lookahead⟩ := s
  cases lookahead with
  | char c => exact Nat.le_refl _
  | ended => exact Nat.le_refl _
  | unread =>
    have hle := CharFeed.size_next_le feed
    have hlt := CharFeed.size_next_lt feed
    rcases hnext : CharFeed.next feed with ⟨failure | answer, feed'⟩
    · rw [hnext] at hle
      simp only [peek, hnext, size]
      exact hle
    · rw [hnext] at hle hlt
      cases answer with
      | none =>
        simp only [peek, hnext, size]
        exact hle
      | some c =>
        simp only [peek, hnext, size]
        exact hlt c rfl

theorem size_take_lt {s t : Source ρ} {c : Char} (h : s.peek = (.ok (some c), t)) :
    (t.take c).size < s.size := by
  obtain ⟨feed, position, lookahead⟩ := s
  cases lookahead with
  | char d =>
    obtain ⟨rfl, rfl⟩ : d = c ∧ _ = t := by simpa [peek] using h
    simp [take, size]
  | ended => simp [peek] at h
  | unread =>
    have hlt := CharFeed.size_next_lt feed
    simp only [peek] at h
    split at h
    · next hnext =>
      cases h
      rw [hnext] at hlt
      exact hlt c rfl
    · cases h
    · cases h

theorem peek_of_peek {s t : Source ρ} {answer : Option Char} (h : s.peek = (.ok answer, t)) :
    t.peek = (.ok answer, t) := by
  obtain ⟨feed, position, lookahead⟩ := s
  cases lookahead with
  | char d =>
    obtain ⟨rfl, rfl⟩ : some d = answer ∧ _ = t := by simpa [peek] using h
    rfl
  | ended =>
    obtain ⟨rfl, rfl⟩ : none = answer ∧ _ = t := by simpa [peek] using h
    rfl
  | unread =>
    simp only [peek] at h
    split at h
    · cases h
      rfl
    · cases h
      rfl
    · cases h

/-- Takes the next character, if there is one. -/
def advance (s : Source ρ) : Except LexError (Option Char) × Source ρ :=
  match s.peek with
  | (.ok (some c), t) => (.ok (some c), t.take c)
  | answer => answer

/-- Takes blanks, and looks at the first character that is none. -/
def skipBlanks (s : Source ρ) : Except LexError (Option Char) × Source ρ :=
  match _h : s.peek with
  | (.ok (some c), t) => if isBlank c then (t.take c).skipBlanks else (.ok (some c), t)
  | (.ok none, t) => (.ok none, t)
  | (.error e, t) => (.error e, t)
termination_by s.size
decreasing_by exact size_take_lt _h

/-- Goes on with a lexeme that begins at `start` and has `text` so far, up to its end, and
returns the whole text. A text of more than `limit` bytes is refused as soon as the character
that makes it too long has been taken. -/
def scan (s : Source ρ) (limit : Option Nat) (start : Position) (state : Scan) (text : String) :
    Except LexError String × Source ρ :=
  match _h : s.peek with
  | (.error e, t) => (.error e, t)
  | (.ok none, t) =>
    match state.atEnd? with
    | none => (.ok text, t)
    | some cause => (.error ⟨cause, start⟩, t)
  | (.ok (some c), t) =>
    match state.step c with
    | .stop => (.ok text, t)
    | .reject cause => (.error ⟨cause, start⟩, t)
    | .strip none => (.ok text, t.take c)
    | .strip (some next) => (t.take c).scan limit start next text
    | .keep next? =>
      let longer := text.push c
      match limit.filter (· < longer.utf8ByteSize), next? with
      | some bound, _ => (.error ⟨.tokenTooLong bound, start⟩, t.take c)
      | none, none => (.ok longer, t.take c)
      | none, some next => (t.take c).scan limit start next longer
termination_by s.size
decreasing_by all_goals exact size_take_lt _h

/-- Takes characters into `taken` until the end or a failure, which is returned beside them. -/
def drainInto (s : Source ρ) (taken : String) : String × Option LexError × Source ρ :=
  match _h : s.peek with
  | (.ok (some c), t) => (t.take c).drainInto (taken.push c)
  | (.ok none, t) => (taken, none, t)
  | (.error e, t) => (taken, some e, t)
termination_by s.size
decreasing_by exact size_take_lt _h

/-- Takes all characters up to the end or a failure. -/
def drain (s : Source ρ) : String × Option LexError × Source ρ :=
  s.drainInto ""

/-- Looking again at a character that was found changes nothing. -/
theorem peek_of_skipBlanks {s t : Source ρ} {c : Char}
    (h : s.skipBlanks = (.ok (some c), t)) : t.peek = (.ok (some c), t) := by
  fun_induction skipBlanks s with
  | case1 s d u hd hblank ih => exact ih h
  | case2 s d u hd hblank =>
    simp only [Prod.mk.injEq, Except.ok.injEq, Option.some.injEq] at h
    obtain ⟨rfl, rfl⟩ := h
    exact peek_of_peek hd
  | case3 s u hu => simp at h
  | case4 s e u hu => simp at h

theorem size_le_of_peek {s t : Source ρ} {answer : Except LexError (Option Char)}
    (h : s.peek = (answer, t)) : t.size ≤ s.size := by
  simpa [h] using s.size_peek_le

theorem size_skipBlanks_le (s : Source ρ) : s.skipBlanks.2.size ≤ s.size := by
  fun_induction skipBlanks s with
  | case1 s c t h hc ih => exact Nat.le_of_lt (Nat.lt_of_le_of_lt ih (size_take_lt h))
  | case2 s c t h hc => exact size_le_of_peek h
  | case3 s t h => exact size_le_of_peek h
  | case4 s e t h => exact size_le_of_peek h

theorem size_scan_le (s : Source ρ) (limit : Option Nat) (start : Position) (state : Scan)
    (text : String) : (s.scan limit start state text).2.size ≤ s.size := by
  fun_induction scan s limit start state text
  all_goals first
    | exact size_le_of_peek ‹_›
    | exact Nat.le_of_lt (size_take_lt ‹_›)
    | exact Nat.le_of_lt (Nat.lt_of_le_of_lt ‹_› (size_take_lt ‹_›))

/-- A scan that takes the first character makes the source smaller. -/
theorem size_scan_lt {s t : Source ρ} {c : Char} (h : s.peek = (.ok (some c), t))
    {state : Scan} {next : Option Scan}
    (hstep : state.step c = .keep next ∨ state.step c = .strip next)
    (limit : Option Nat) (start : Position) (text : String) :
    (s.scan limit start state text).2.size < s.size := by
  have hlt := size_take_lt h
  have hlater (state : Scan) (text : String) :
      ((t.take c).scan limit start state text).2.size < s.size :=
    Nat.lt_of_le_of_lt (size_scan_le _ _ _ _ _) hlt
  rw [scan]
  split
  · next hpeek =>
    rw [h] at hpeek
    cases hpeek
  · next hpeek =>
    rw [h] at hpeek
    cases hpeek
  · next hpeek =>
    rw [h] at hpeek
    cases hpeek
    rcases hstep with hstep | hstep
    · simp only [hstep]
      split
      · exact hlt
      · exact hlt
      · exact hlater _ _
    · simp only [hstep]
      cases next with
      | none => exact hlt
      | some next => exact hlater next text

end Source

end GrammarTokens
