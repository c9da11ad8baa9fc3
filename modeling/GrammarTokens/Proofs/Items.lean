import GrammarTokens.Proofs.Limits
import Mathlib.Data.Nat.Find

/-!
# Items of a run

What a lexer over a text returns, one item after the other, is the tokens of the lexemes of the text
and the fault at which they end. Bounds add nothing but an error of their own in place of an item.
-/

namespace GrammarTokens

namespace Lexer

section

variable {text : String} {pieces : List Piece} {blanks rest : List Char}
  {last : Except LexError Token}

lemma piece_of_item (h : Piece.Factors text.toList pieces blanks rest)
    (hlast : AnswerBehind (Piece.source pieces ++ blanks) rest last) {i : Nat} {token : Token}
    (hitem : (ofText text).rest.1[i]? = some (.ok token)) :
    ∃ front p back, pieces = front ++ p :: back ∧ i = front.length ∧
      token = p.token (Piece.source front) := by
  by_cases hi : i < pieces.length
  · obtain ⟨p, hp⟩ : ∃ p, pieces[i]? = some p := ⟨_, List.getElem?_eq_getElem hi⟩
    obtain ⟨front, back, rfl, rfl⟩ := split_at hp
    rw [getElem?_rest h hlast] at hitem
    exact ⟨front, p, back, rfl, rfl, (Except.ok.inj (Option.some.inj hitem)).symm⟩
  · obtain ⟨j, rfl⟩ := Nat.exists_eq_add_of_le (Nat.le_of_not_lt hi)
    rw [getElem?_rest_behind h hlast] at hitem
    cases hlast with
    | ended => cases hitem
    | stuck => cases j <;> cases hitem

lemma malformed_of_item (h : Piece.Factors text.toList pieces blanks rest)
    (hlast : AnswerBehind (Piece.source pieces ++ blanks) rest last) {e : LexError}
    (hitem : .error e ∈ (ofText text).rest.1) :
    ∃ cause, e = ⟨cause, .after (Piece.source pieces ++ blanks)⟩ ∧ Malformed rest cause ∧
      last = .error e := by
  rw [rest_ofText h hlast] at hitem
  cases hlast with
  | ended => simp [itemOf] at hitem
  | stuck hcause =>
    obtain rfl : e = ⟨_, _⟩ := by simpa [itemOf] using hitem
    exact ⟨_, rfl, hcause, rfl⟩

end

lemma lexeme_of_item {text : String} {token : Token} (h : .ok token ∈ (ofText text).rest.1) :
    ∃ front lexeme after, text.toList = front ++ lexeme ++ after ∧
      Lexeme token.kind lexeme after ∧ token.span = ⟨.after front, .after (front ++ lexeme)⟩ := by
  obtain ⟨pieces, blanks, rest, hfactors, hstuck⟩ := Piece.exists_factors text.toList
  obtain ⟨last, hlast⟩ := exists_answerBehind hstuck (Piece.source pieces ++ blanks)
  obtain ⟨i, hitem⟩ := List.getElem?_of_mem h
  obtain ⟨before, p, pieces, rfl, -, rfl⟩ := piece_of_item hfactors hlast hitem
  have htext := hfactors.source_eq
  rw [Piece.source_append, Piece.source_cons] at htext
  cases hfactors.lexemes.append.2 with
  | cons _ hlexeme _ =>
    exact ⟨Piece.source before ++ p.blanks, p.lexeme, _, by simp [htext], hlexeme, rfl⟩

lemma start_of_error {text : String} {e : LexError} (h : .error e ∈ (ofText text).rest.1) :
    ∃ front c back, text.toList = front ++ c :: back ∧ isBlank c = false ∧
      e.position = .after front ∧ ∀ d, e.cause = .unexpectedCharacter d → d = c := by
  obtain ⟨pieces, blanks, rest, hfactors, hstuck⟩ := Piece.exists_factors text.toList
  obtain ⟨last, hlast⟩ := exists_answerBehind hstuck (Piece.source pieces ++ blanks)
  obtain ⟨cause, rfl, hrest, -⟩ := malformed_of_item hfactors hlast h
  obtain ⟨c, hhead, -⟩ := read_of_malformed hrest
  obtain ⟨cs, rfl⟩ := List.head?_eq_some_iff.mp hhead
  refine ⟨_, c, cs, hfactors.source_eq, hstuck.not_blank c rfl, rfl, ?_⟩
  rintro d rfl
  cases hrest with
  | loneSlash => rfl
  | unexpectedCharacter => rfl

lemma start_of_item {text : String} {item : Except LexError Token}
    (h : item ∈ (ofText text).rest.1) :
    ∃ front c back, text.toList = front ++ c :: back ∧ isBlank c = false ∧
      scanStart item = .after front := by
  cases item with
  | ok token =>
    obtain ⟨front, lexeme, after, htext, hlexeme, hspan⟩ := lexeme_of_item h
    obtain ⟨c, cs, rfl, hc⟩ := exists_first_of_lexeme hlexeme
    exact ⟨front, c, cs ++ after, by simp [htext], hc, congrArg Span.start hspan⟩
  | error e =>
    obtain ⟨front, c, back, htext, hc, hposition, -⟩ := start_of_error h
    exact ⟨front, c, back, htext, hc, hposition⟩

/-- Either the bounds refuse no scan, or there is a first one that they refuse. -/
lemma admits_or_first_refused (text : String) (options : Options) :
    (∀ n, Admits options text n) ∨ ∃ k item cause, (ofText text).rest.1[k]? = some item ∧
      options.refusal? (k + 1) (scanSize text item) = some cause ∧ Admits options text k := by
  classical
  by_cases hrefused : ∃ k item cause, (ofText text).rest.1[k]? = some item ∧
      options.refusal? (k + 1) (scanSize text item) = some cause
  · right
    obtain ⟨item, cause, hitem, hrefusal⟩ := Nat.find_spec hrefused
    refine ⟨Nat.find hrefused, item, cause, hitem, hrefusal, ?_⟩
    intro i hi item hitem
    apply Option.eq_none_iff_forall_ne_some.mpr
    intro cause hcause
    exact Nat.find_min hrefused hi ⟨item, cause, hitem, hcause⟩
  · left
    intro n i _ item hitem
    apply Option.eq_none_iff_forall_ne_some.mpr
    intro cause hcause
    exact hrefused ⟨i, item, cause, hitem, hcause⟩

/-- Under bounds, only items of the run without bounds are returned, except that an error about a
bound may come in place of one, at the place where its scan began. The mark of the end stands behind
the whole text. -/
theorem exists_gives_items (text : String) (options : Options) :
    ∃ tokens last, (ofText text options).Gives tokens last ∧
      (∀ token ∈ tokens, .ok token ∈ (ofText text).rest.1) ∧
      (∀ token, last = .ok token → token = .endOfStream (.after text.toList)) ∧
      ∀ e, last = .error e → .error e ∈ (ofText text).rest.1 ∨
        (∀ c, e.cause ≠ .unexpectedCharacter c) ∧
          ∃ item ∈ (ofText text).rest.1, e.position = scanStart item := by
  obtain ⟨pieces, blanks, rest, hfactors, hstuck⟩ := Piece.exists_factors text.toList
  obtain ⟨last, hlast⟩ := exists_answerBehind hstuck (Piece.source pieces ++ blanks)
  rcases admits_or_first_refused text options with
    hadmits | ⟨k, item, cause, hitem, hrefusal, hadmits⟩
  · refine ⟨_, last, gives_of_admits hfactors hlast hadmits, ?_, ?_, ?_⟩
    · intro token htoken
      rw [rest_ofText hfactors hlast]
      exact List.mem_append_left _ (List.mem_map_of_mem htoken)
    · rintro token rfl
      cases hlast
      rw [hfactors.source_eq, List.append_nil]
    · rintro e rfl
      rw [rest_ofText hfactors hlast]
      exact .inl (List.mem_append_right _ (List.mem_singleton.mpr rfl))
  · obtain ⟨tokens, htokens, hgives⟩ :=
      gives_of_first_refused hfactors hstuck hlast hitem hrefusal hadmits
    refine ⟨tokens, _, hgives, ?_, nofun, ?_⟩
    · intro token htoken
      apply List.mem_of_mem_take (i := k)
      rw [htokens]
      exact List.mem_map_of_mem htoken
    · intro e he
      cases he
      refine .inr ⟨?_, item, List.mem_of_getElem? hitem, rfl⟩
      intro c
      obtain ⟨bound, -, -, rfl⟩ | ⟨-, bound, -, -, rfl⟩ := refusal?_cases hrefusal
      · simp
      · simp

end Lexer

end GrammarTokens
