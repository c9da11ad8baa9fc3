import GrammarTokens.Report
import GrammarTokens.Proofs.Excerpts
import GrammarTokens.Proofs.Items

/-!
# Diagnostics of a run

The diagnostic on a token shows the line on which the token begins, with carets under what stands of
the token on it, and the diagnostic on an error has one caret, under the character where the error
is. Columns and offsets of a position mean the same character there. The mark of the end has no
characters, and the caret for it stands behind the last line.
-/

namespace GrammarTokens

section

variable {front back : List Char} {c : Char} {count : Nat}

end

section

variable {front back : List Char} {c : Char} (l : LineOf front c back)

end

/-- The end of a text is marked by one caret, directly behind the last line. -/
theorem exists_shows_end {text : String} (around : Nat) (hne : text.toList ≠ []) {d : Diagnostic}
    (hd : d = { source := text, span := .single (.after text.toList) }) :
    ∃ l, d.Shows around l ∧ l.number = (lines text.toList).length ∧
      (lines text.toList).getLast? = some l.line ∧ l.indent = l.line.length ∧ l.count = 1 := by
  obtain ⟨line, hline, hend⟩ := end_on_last_line hne
  have hpos := List.length_pos_iff.mpr (List.ne_nil_of_mem (List.mem_of_getLast? hline))
  rw [List.getLast?_eq_getElem?] at hline
  generalize hwindow : d.span.window around (lines text.toList).length = w
  obtain ⟨hmarked, hfirst, hstop, hlast⟩ : w.marked = (lines text.toList).length - 1 ∧
      w.first ≤ w.marked ∧ w.marked < w.stop ∧ w.stop ≤ (lines text.toList).length := by
    rw [← hwindow, hd]
    simp only [Span.window, Span.single]
    omega
  rw [← hmarked] at hline
  have hcarets : d.span.carets (w.marked + 1) line = .carets line.length 1 := by
    rw [hd, hmarked, Nat.sub_add_cancel hpos]
    rcases hend with ⟨hhere, hcolumn⟩ | hbehind
    · rw [← hhere]
      simp [Span.carets, Span.single, hcolumn]
    · rw [Span.carets, if_pos]
      simp only [Span.single]
      omega
  have hsource : lines d.source.toList = lines text.toList := by rw [hd]
  refine ⟨_, shows_of_marked hsource hwindow hfirst hstop hlast hline hcarets, ?_, ?_, rfl, rfl⟩
  · rw [Window.number_layout hfirst hline, hmarked, Nat.sub_add_cancel hpos]
  · rw [List.getLast?_eq_getElem?, ← hmarked]
    exact hline

namespace Lexer

section

variable {text : String} {options : Options} {calls : Nat}

lemma start_of_answer_error {e : LexError}
    (h : .error e ∈ answers nextToken calls (ofText text options)) :
    ∃ front c back, text.toList = front ++ c :: back ∧ isBlank c = false ∧
      e.position = .after front ∧ ∀ d, e.cause = .unexpectedCharacter d → d = c := by
  obtain ⟨tokens, last, hgives, -, -, herrors⟩ := exists_gives_items text options
  obtain ⟨token, heq, -⟩ | ⟨-, hlast⟩ := hgives.mem_answers h
  · cases heq
  · rcases herrors e hlast.symm with hitem | ⟨hcause, item, hitem, hposition⟩
    · exact start_of_error hitem
    · obtain ⟨front, c, back, htext, hc, hstart⟩ := start_of_item hitem
      exact ⟨front, c, back, htext, hc, hposition.trans hstart, fun d hd => absurd hd (hcause d)⟩

/-- The counts of the diagnostic on an error of a run do not grow too large. -/
theorem diagnostic?_of_answer {e : LexError} (hfit : Position.start.CountsFit text.toList)
    (h : .error e ∈ answers nextToken calls (ofText text options)) (o : Overflow) :
    e.diagnostic? o text = some (e.diagnostic text) := by
  obtain ⟨front, c, back, htext, -, hposition, hcause⟩ := start_of_answer_error h
  apply LexError.diagnostic?_of_countsFit
  intro d hd
  rw [hcause d hd, hposition, ← advanceBy_start]
  rw [htext, ← List.singleton_append, ← List.append_assoc] at hfit
  exact (hfit.of_prefix (List.prefix_append _ _)).behind

/-- The diagnostic on the mark of the end shows the last line, with one caret directly behind it,
and nothing of an empty text. -/
theorem diagnostics_end (around : Nat) {token : Token}
    (h : .ok token ∈ answers nextToken calls (ofText text options)) (hend : token.isEndOfStream)
    {d : Diagnostic} (hd : d = { source := text, span := token.span }) :
    (text = "" → d.snippet? around = some "") ∧
    (text ≠ "" → ∃ l, d.Shows around l ∧ l.number = (lines text.toList).length ∧
      (lines text.toList).getLast? = some l.line ∧ l.indent = l.line.length ∧ l.count = 1 ∧
      (text.utf8ByteSize + 22 ≤ maxCapacity →
        d.snippet? around = some (String.join (l.excerpt.rows.map (Row.render l.gutter))))) := by
  obtain ⟨tokens, last, hgives, -, hmark, -⟩ := exists_gives_items text options
  obtain rfl : token = .endOfStream (.after text.toList) := by
    obtain ⟨t, heq, hproper⟩ | ⟨-, hlast⟩ := hgives.mem_answers h
    · cases heq
      rw [hproper] at hend
      cases hend
    · exact hmark token hlast.symm
  constructor
  · rintro rfl
    rw [hd]
    rfl
  · intro hne
    have hlist : text.toList ≠ [] := fun hnil => hne (String.toList_eq_nil_iff.mp hnil)
    obtain ⟨l, hshows, hnumber, hline, hindent, hcount⟩ := exists_shows_end around hlist hd
    have hwidth := length_le_of_mem_lines (List.mem_of_getLast? hline)
    have hbytes := length_le_utf8Length text.toList
    rw [utf8Length_toList] at hbytes
    have hsource : d.source = text := by rw [hd]
    refine ⟨l, hshows, hnumber, hline, hindent, hcount, fun hroom => ?_⟩
    have hshort : l.indent ≤ d.source.utf8ByteSize := by
      rw [hindent, hsource]
      exact Nat.le_trans hwidth hbytes
    exact hshows.snippet?_of_size hshort (by omega) (by rwa [hsource])

end

end Lexer

end GrammarTokens
