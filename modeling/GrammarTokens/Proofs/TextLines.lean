import GrammarTokens.CharClass
import GrammarTokens.Lines
import GrammarTokens.Proofs.Positions
import Mathlib.Data.List.TakeWhile

/-!
# The line of a position

A position counts newlines, and the lines of a text are cut behind newlines and lose their line
breaks. The two agree at every character that is not part of a line break: the line whose number
the position has shows the character in the position's column.
-/

namespace GrammarTokens

/-- A text behind which a line begins. -/
def EndsInBreak (before : List Char) : Prop := ∀ c ∈ before.getLast?, c = '\n'

/-- What may follow a line: nothing more, or a line break. -/
inductive BreaksLine : List Char → Prop where
  | ended : BreaksLine []
  | newline (later : List Char) : BreaksLine ('\n' :: later)
  | returned (later : List Char) : BreaksLine ('\r' :: '\n' :: later)

lemma exists_line_start (front : List Char) :
    ∃ before here, front = before ++ here ∧ EndsInBreak before ∧ '\n' ∉ here := by
  induction front using List.reverseRecOn with
  | nil => exact ⟨[], [], rfl, by simp [EndsInBreak], by simp⟩
  | append_singleton front c ih =>
    by_cases hc : c = '\n'
    · subst hc
      exact ⟨front ++ ['\n'], [], by simp, by simp [EndsInBreak], by simp⟩
    · obtain ⟨before, here, rfl, hbefore, hhere⟩ := ih
      refine ⟨before, here ++ [c], by simp, hbefore, ?_⟩
      simp [hhere, Ne.symm hc]

lemma after_on_line {before here : List Char} (hbefore : EndsInBreak before) (hhere : '\n' ∉ here) :
    Position.after (before ++ here) =
      ⟨1 + before.count '\n', 1 + here.length, utf8Length (before ++ here)⟩ := by
  have hcount : here.count '\n' = 0 := List.count_eq_zero.mpr hhere
  have hrun : here.reverse.takeWhile (· != '\n') = here.reverse := by
    apply List.takeWhile_eq_self_iff.mpr
    intro c hc
    have hne : c ≠ '\n' := fun heq => hhere (heq ▸ List.mem_reverse.mp hc)
    simpa using hne
  have hstop : before.reverse.takeWhile (· != '\n') = [] := by
    cases hreverse : before.reverse with
    | nil => rfl
    | cons c cs =>
      obtain rfl : c = '\n' := by
        apply hbefore
        rw [List.getLast?_eq_head?_reverse, hreverse]
        rfl
      rfl
  rw [Position.after, List.count_append, hcount, List.reverse_append,
    List.takeWhile_append, hrun, hstop]
  simp

/-- A line begins behind a line break, so the segments up to there are those of the front. -/
lemma segments_append {before : List Char} (hbefore : EndsInBreak before) (cs : List Char) :
    segments (before ++ cs) = segments before ++ segments cs ∧
      (segments before).length = before.count '\n' := by
  induction before with
  | nil => exact ⟨rfl, rfl⟩
  | cons c before ih =>
    by_cases hc : c = '\n'
    · subst hc
      have hlater : EndsInBreak before := by
        intro d hd
        apply hbefore
        rw [List.getLast?_cons, Option.mem_def.mp hd]
        rfl
      obtain ⟨hsegments, hlength⟩ := ih hlater
      rw [List.cons_append, segments_newline, segments_newline, hsegments]
      simp [hlength]
    · cases before with
      | nil => exact absurd (hbefore c rfl) hc
      | cons d ds =>
        obtain ⟨hsegments, hlength⟩ := ih hbefore
        rw [List.cons_append, segments_cons hc, segments_cons hc, hsegments]
        cases hfirst : segments (d :: ds) with
        | nil =>
          have hflatten := flatten_segments (d :: ds)
          rw [hfirst] at hflatten
          cases hflatten
        | cons segment later =>
          rw [hfirst] at hlength
          refine ⟨rfl, ?_⟩
          rw [List.count_cons_of_ne hc, ← hlength]
          rfl

lemma segments_last_line {line : List Char} (hline : '\n' ∉ line) (hne : line ≠ []) :
    segments line = [line] := by
  induction line with
  | nil => exact absurd rfl hne
  | cons c line ih =>
    obtain ⟨hc, hrest⟩ := List.ne_and_not_mem_of_not_mem_cons hline
    rw [segments_cons (Ne.symm hc)]
    cases line with
    | nil => rfl
    | cons d line => rw [ih hrest (List.cons_ne_nil d line)]

lemma chomp_of_no_newline {line : List Char} (hline : '\n' ∉ line) : chomp line = line := by
  rcases List.eq_nil_or_concat line with rfl | ⟨front, c, rfl⟩
  · rfl
  · have hc : c ≠ '\n' := by
      rintro rfl
      simp at hline
    simp [chomp, hc]

/-- A text ends on its last line, or behind it. -/
lemma end_on_last_line {text : List Char} (h : text ≠ []) :
    ∃ line, (lines text).getLast? = some line ∧
      ((Position.after text).line = (lines text).length ∧
          (Position.after text).column = 1 + line.length ∨
        (Position.after text).line = (lines text).length + 1) := by
  obtain ⟨before, here, rfl, hbefore, hhere⟩ := exists_line_start text
  obtain ⟨hsegments, hlength⟩ := segments_append hbefore here
  rw [after_on_line hbefore hhere, lines, hsegments]
  by_cases hne : here = []
  · subst hne
    have hlast : (segments before).map chomp ≠ [] := by
      intro hnil
      have hflatten := flatten_segments before
      rw [List.map_eq_nil_iff.mp hnil] at hflatten
      exact h (by rw [← hflatten]; rfl)
    rw [segments_nil, List.append_nil (segments before)]
    refine ⟨_, List.getLast?_eq_some_getLast hlast, .inr ?_⟩
    rw [List.length_map, hlength, Nat.add_comm]
  · rw [segments_last_line hhere hne, List.map_append, List.map_singleton,
      chomp_of_no_newline hhere]
    refine ⟨here, List.getLast?_concat, .inl ⟨?_, rfl⟩⟩
    rw [List.length_append, List.length_map, hlength, List.length_singleton, Nat.add_comm]

lemma length_le_utf8Length (cs : List Char) : cs.length ≤ utf8Length cs := by
  induction cs with
  | nil => exact Nat.le_refl 0
  | cons c cs ih =>
    have hpos := Char.utf8Size_pos c
    rw [List.length_cons, utf8Length_cons]
    omega

/-- Every line takes a character of the text at least, if only of its line break. -/
lemma length_lines_le (cs : List Char) : (lines cs).length ≤ cs.length := by
  rw [lines, List.length_map]
  induction cs with
  | nil => exact Nat.le_refl 0
  | cons c cs ih =>
    by_cases hc : c = '\n'
    · subst hc
      rw [segments_newline, List.length_cons, List.length_cons]
      exact Nat.succ_le_succ ih
    · rw [segments_cons hc]
      cases hsegments : segments cs with
      | nil => exact Nat.succ_le_succ (Nat.zero_le _)
      | cons segment later =>
        rw [hsegments] at ih
        exact Nat.le_succ_of_le ih

lemma length_chomp_le (segment : List Char) : (chomp segment).length ≤ segment.length := by
  unfold chomp
  split
  · next cs hreverse =>
    have hlength := congrArg List.length hreverse
    simp only [List.length_reverse, List.length_cons] at hlength ⊢
    omega
  · next cs _ hreverse =>
    have hlength := congrArg List.length hreverse
    simp only [List.length_reverse, List.length_cons] at hlength ⊢
    omega
  · exact Nat.le_refl _

lemma length_le_of_mem_lines {cs line : List Char} (h : line ∈ lines cs) :
    line.length ≤ cs.length := by
  obtain ⟨segment, hsegment, rfl⟩ := List.mem_map.mp h
  have hpart := (List.sublist_flatten_of_mem hsegment).length_le
  rw [flatten_segments] at hpart
  exact Nat.le_trans (length_chomp_le segment) hpart

/-- The line that shows a character of a text: it begins behind `before`, with `here` in front of
the character, and goes on with `there`, up to the line break or the end of the text. -/
structure LineOf (front : List Char) (c : Char) (back : List Char) where
  before : List Char
  here : List Char
  there : List Char
  later : List Char
  front_eq : front = before ++ here
  back_eq : back = there ++ later
  before_ends : EndsInBreak before
  here_unbroken : '\n' ∉ here
  there_unbroken : '\n' ∉ there
  later_breaks : BreaksLine later
  getElem?_lines : (lines (front ++ c :: back))[before.count '\n']? = some (here ++ c :: there)

namespace LineOf

variable {front : List Char} {c : Char} {back : List Char}

def shown (l : LineOf front c back) : List Char := l.here ++ c :: l.there

lemma text_eq (l : LineOf front c back) :
    front ++ c :: back = l.before ++ l.shown ++ l.later := by
  calc
    front ++ c :: back = l.before ++ l.here ++ c :: (l.there ++ l.later) := by
      rw [← l.front_eq, ← l.back_eq]
    _ = l.before ++ l.shown ++ l.later := by simp [shown]

end LineOf

end GrammarTokens
