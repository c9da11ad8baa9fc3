import GrammarTokens.Position
import Mathlib.Data.List.Induction
import Mathlib.Tactic.Lemma

/-!
# Positions behind a text

`Position.after` says what a position behind a text is by counting in the whole text, with no
reference to the characters having been passed one at a time. This file connects it to
`Position.advanceBy`.
-/

namespace GrammarTokens

lemma utf8ByteSize_ofList (cs : List Char) : (String.ofList cs).utf8ByteSize = utf8Length cs := by
  induction cs with
  | nil => rfl
  | cons c cs ih =>
    rw [String.ofList_cons, String.utf8ByteSize_append, String.utf8ByteSize_singleton, ih,
      utf8Length_cons]

lemma utf8Length_toList (text : String) : utf8Length text.toList = text.utf8ByteSize := by
  rw [← utf8ByteSize_ofList, String.ofList_toList]

lemma utf8Length_eq_zero_iff {cs : List Char} : utf8Length cs = 0 ↔ cs = [] := by
  cases cs with
  | nil => simp
  | cons c cs =>
    have hpos := Char.utf8Size_pos c
    rw [utf8Length_cons]
    exact ⟨fun hzero => by omega, nofun⟩

/-- The position behind a text: its newlines, the characters since the last one, its bytes. -/
def Position.after (text : List Char) : Position where
  line := 1 + text.count '\n'
  column := 1 + (text.reverse.takeWhile (· != '\n')).length
  offset := utf8Length text

lemma after_nil : Position.after [] = Position.start := rfl

lemma advance_after (text : List Char) (c : Char) :
    (Position.after text).advance c = Position.after (text ++ [c]) := by
  unfold Position.advance Position.after
  by_cases hc : c = '\n'
  · rw [if_pos hc]
    simp [hc, Nat.add_assoc]
  · rw [if_neg hc]
    simp [hc, Nat.add_assoc]

theorem advanceBy_after (before text : List Char) :
    (Position.after before).advanceBy text = Position.after (before ++ text) := by
  induction text generalizing before with
  | nil => simp
  | cons c text ih =>
    rw [Position.advanceBy_cons, advance_after, ih]
    simp

theorem advanceBy_start (text : List Char) :
    Position.start.advanceBy text = Position.after text := by
  rw [← after_nil, advanceBy_after, List.nil_append]

end GrammarTokens
