import GrammarTokens.Proofs.Drawing

/-!
# Tokenizing a text

Tokenizing succeeds exactly on the texts that are blanks and lexemes to the end, and returns the
tokens of the lexemes. On any other text it reports what is wrong where the text is stuck.
-/

namespace GrammarTokens

theorem tokenize_of_factors {text : String} {pieces : List Piece} {blanks : List Char}
    (h : Piece.Factors text.toList pieces blanks []) :
    tokenize text = .ok (Piece.tokens [] pieces) := by
  obtain ⟨m, final, hpasses, hfinal⟩ := Lexer.run_of_factors h .ended
  exact Lexer.collect_of_finishes hpasses hfinal

theorem tokenize_of_malformed {text : String} {pieces : List Piece} {blanks rest : List Char}
    {cause : LexError.Cause} (h : Piece.Factors text.toList pieces blanks rest)
    (hrest : Malformed rest cause) :
    tokenize text = .error ⟨cause, .after (Piece.source pieces ++ blanks)⟩ := by
  obtain ⟨m, final, hpasses, hfinal⟩ := Lexer.run_of_factors h (.stuck hrest)
  exact Lexer.collect_of_finishes hpasses hfinal

lemma factors_of_tokenize {text : String} {tokens : List Token} (h : tokenize text = .ok tokens) :
    ∃ pieces blanks, Piece.Factors text.toList pieces blanks [] ∧
      tokens = Piece.tokens [] pieces := by
  obtain ⟨pieces, blanks, rest, hfactors, hstuck⟩ := Piece.exists_factors text.toList
  by_cases hrest : rest = []
  · subst hrest
    rw [tokenize_of_factors hfactors] at h
    exact ⟨pieces, blanks, hfactors, (Except.ok.inj h).symm⟩
  · obtain ⟨cause, hcause⟩ := malformed_of_stuck hrest hstuck
    rw [tokenize_of_malformed hfactors hcause] at h
    cases h

lemma malformed_of_tokenize {text : String} {e : LexError} (h : tokenize text = .error e) :
    ∃ pieces blanks rest, Piece.Factors text.toList pieces blanks rest ∧
      e.position = .after (Piece.source pieces ++ blanks) ∧ Malformed rest e.cause := by
  obtain ⟨pieces, blanks, rest, hfactors, hstuck⟩ := Piece.exists_factors text.toList
  by_cases hrest : rest = []
  · subst hrest
    rw [tokenize_of_factors hfactors] at h
    cases h
  · obtain ⟨cause, hcause⟩ := malformed_of_stuck hrest hstuck
    rw [tokenize_of_malformed hfactors hcause] at h
    obtain rfl := Except.error.inj h
    exact ⟨pieces, blanks, rest, hfactors, rfl, hcause⟩

lemma braceDepth_quoted_brace : ∀ p, p <+: "'\x7d'".toList → braceDepth p ≠ 0 := by
  intro p hp
  rw [← List.mem_inits] at hp
  revert p
  decide

/-- A text is accepted exactly if it is blanks and lexemes to the end. It is so in one way only,
and the tokens are those of the lexemes in order. -/
theorem tokenize_eq_ok_iff_factors (text : String) :
    (∀ tokens, tokenize text = .ok tokens ↔
      ∃ pieces blanks, Piece.Factors text.toList pieces blanks [] ∧
        tokens = Piece.tokens [] pieces) ∧
    ∀ pieces blanks pieces' blanks', Piece.Factors text.toList pieces blanks [] →
      Piece.Factors text.toList pieces' blanks' [] → pieces = pieces' ∧ blanks = blanks' := by
  constructor
  · intro tokens
    refine ⟨factors_of_tokenize, ?_⟩
    rintro ⟨pieces, blanks, hfactors, rfl⟩
    exact tokenize_of_factors hfactors
  · intro pieces blanks pieces' blanks' h h'
    obtain ⟨hpieces, hblanks, -⟩ := Piece.factors_unique h h' stuck_nil stuck_nil
    exact ⟨hpieces, hblanks⟩

/-- A quoted brace does not close an action block, and a comment may end the text. -/
theorem tokenize_quoted_brace :
    tokenize "a \x7b'\x7d'\x7d #x" = .ok [⟨.identifier, "a", ⟨⟨1, 1, 0⟩, ⟨1, 2, 1⟩⟩⟩,
      ⟨.actionBlock, "'\x7d'", ⟨⟨1, 3, 2⟩, ⟨1, 8, 7⟩⟩⟩,
      ⟨.lineComment, "#x", ⟨⟨1, 9, 8⟩, ⟨1, 11, 10⟩⟩⟩] := by
  have hidentifier : Lexeme .identifier ['a'] " \x7b'\x7d'\x7d #x".toList :=
    .identifier (by decide) (by simp) (by simp [isIdentifierContinue, isAlphabetic])
  have haction : Lexeme .actionBlock "\x7b'\x7d'\x7d".toList " #x".toList :=
    .actionBlock braceDepth_quoted_brace (by decide)
  have hcomment : Lexeme .lineComment "#x".toList [] := .lastLineComment (by decide)
  have hpieces : Piece.InContext [⟨[], .identifier, ['a']⟩,
      ⟨[' '], .actionBlock, "\x7b'\x7d'\x7d".toList⟩, ⟨[' '], .lineComment, "#x".toList⟩] [] :=
    .cons (by simp) hidentifier
      (.cons (by simp [isBlank]) haction (.cons (by simp [isBlank]) hcomment .nil))
  rw [(tokenize_eq_ok_iff_factors "a \x7b'\x7d'\x7d #x").1]
  exact ⟨_, [], ⟨by decide, hpieces, by simp⟩, by decide⟩

/-- A text is refused exactly if it is stuck behind some blanks and lexemes. The error has the
position behind them, and its cause is what is wrong with the rest, which has one fault only. -/
theorem tokenize_eq_error_iff_stuck (text : String) :
    (∀ e, tokenize text = .error e ↔
      ∃ pieces blanks rest, Piece.Factors text.toList pieces blanks rest ∧ rest ≠ [] ∧
        Stuck rest ∧ e.position = .after (Piece.source pieces ++ blanks) ∧
        Malformed rest e.cause) ∧
    ∀ rest, rest ≠ [] → Stuck rest → ∃! cause, Malformed rest cause := by
  constructor
  · intro e
    constructor
    · intro h
      obtain ⟨pieces, blanks, rest, hfactors, hposition, hcause⟩ := malformed_of_tokenize h
      exact ⟨pieces, blanks, rest, hfactors, ne_nil_of_malformed hcause,
        stuck_of_malformed hcause, hposition, hcause⟩
    · rintro ⟨pieces, blanks, rest, hfactors, -, -, hposition, hcause⟩
      rw [tokenize_of_malformed hfactors hcause, ← hposition]
  · intro rest hrest hstuck
    obtain ⟨cause, hcause⟩ := malformed_of_stuck hrest hstuck
    exact ⟨cause, hcause, fun cause' hcause' => malformed_unique hcause' hcause⟩

/-- An action block whose only closing brace is quoted. -/
theorem tokenize_open_action :
    tokenize "a\n\x7b'\x7d'" = .error ⟨.unterminatedAction 1, ⟨2, 1, 2⟩⟩ := by
  have hidentifier : Lexeme .identifier ['a'] "\n\x7b'\x7d'".toList :=
    .identifier (by decide) (by simp) (by simp [isIdentifierContinue, isAlphabetic])
  have hrest : Malformed "\x7b'\x7d'".toList (.unterminatedAction 1) :=
    .unterminatedAction braceDepth_quoted_brace (by decide) (by decide)
  rw [(tokenize_eq_error_iff_stuck "a\n\x7b'\x7d'").1]
  exact ⟨[⟨[], .identifier, ['a']⟩], ['\n'], "\x7b'\x7d'".toList,
    ⟨by decide, .cons (by simp) hidentifier .nil, by simp [isBlank]⟩, by decide,
    stuck_of_malformed hrest, by decide, hrest⟩

end GrammarTokens
