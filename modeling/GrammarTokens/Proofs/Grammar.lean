import GrammarTokens.Proofs.Braces

/-!
# The grammar of lexemes

`Lexeme` says which characters make up a token of a kind, in front of the text that follows
them, and `Malformed` says what is wrong with a text that begins with no lexeme. Neither refers
to the lexer. Every text that does not begin with a blank falls under one of the two.
-/

namespace GrammarTokens

/-- The lexemes of each kind, with the text that follows: an identifier ends where the text goes
on with another character, and a comment without a newline ends the text. -/
inductive Lexeme : Token.Kind → List Char → List Char → Prop where
  | identifier {c : Char} {cs after : List Char} :
    isIdentifierStart c → (∀ d ∈ cs, isIdentifierContinue d) →
    (∀ d ∈ after.head?, isIdentifierContinue d = false) → Lexeme .identifier (c :: cs) after
  | symbol {c : Char} {after : List Char} : isSymbol c → Lexeme .symbol [c] after
  | quotedLiteral {quote : Char} {body after : List Char} :
    isQuote quote → quote ∉ body → Lexeme .quotedLiteral (quote :: body ++ [quote]) after
  | lineComment {body after : List Char} :
    '\n' ∉ body → Lexeme .lineComment ('#' :: body ++ ['\n']) after
  | lastLineComment {body : List Char} : '\n' ∉ body → Lexeme .lineComment ('#' :: body) []
  | blockComment {body after : List Char} :
    ¬ ['*', '/'] <:+: body ++ ['*'] →
    Lexeme .blockComment ('/' :: '*' :: body ++ ['*', '/']) after
  | actionBlock {body after : List Char} :
    (∀ p, p <+: body → braceDepth p ≠ 0) → braceDepth (body ++ ['}']) = 0 →
    Lexeme .actionBlock ('{' :: body ++ ['}']) after

/-- What is wrong with a text that begins with no lexeme. -/
inductive Malformed : List Char → LexError.Cause → Prop where
  | unterminatedLiteral {quote : Char} {rest : List Char} :
    isQuote quote → quote ∉ rest → Malformed (quote :: rest) (.unterminatedLiteral quote)
  | unterminatedComment {rest : List Char} :
    ¬ ['*', '/'] <:+: rest → Malformed ('/' :: '*' :: rest) .unterminatedComment
  | unterminatedAction {rest : List Char} {depth : Nat} :
    (∀ p, p <+: rest → braceDepth p ≠ 0) → 1 ≤ depth → (depth : Int) = braceDepth rest →
    Malformed ('{' :: rest) (.unterminatedAction depth)
  | loneSlash {rest : List Char} :
    rest.head? ≠ some '*' → Malformed ('/' :: rest) (.unexpectedCharacter '/')
  | unexpectedCharacter {c : Char} {rest : List Char} :
    isBlank c = false → isIdentifierStart c = false → isSymbol c = false → isQuote c = false →
    c ∉ ['#', '/', '{'] → Malformed (c :: rest) (.unexpectedCharacter c)

/-- Characters behind an opening brace reach depth zero at a closing brace, or nowhere. -/
lemma closed_or_open (cs : List Char) :
    (∃ body after, cs = body ++ '}' :: after ∧ (∀ p, p <+: body → braceDepth p ≠ 0) ∧
      braceDepth (body ++ ['}']) = 0) ∨ ∀ p, p <+: cs → braceDepth p ≠ 0 := by
  -- From the end: what is prefix of the whole is prefix of the part before, or the whole.
  induction cs using List.reverseRecOn with
  | nil =>
    right
    intro p hp
    rw [List.prefix_nil.mp hp]
    decide
  | append_singleton cs c ih =>
    rcases ih with ⟨body, after, rfl, hopen, hclosed⟩ | hopen
    · left
      exact ⟨body, after ++ [c], by simp, hopen, hclosed⟩
    · by_cases hzero : braceDepth (cs ++ [c]) = 0
      · left
        obtain ⟨depth, hdepth, hcs, -⟩ := Scan.read_action_open hopen
        have hlast := braceBalance_singleton (openQuote none cs) c
        have happend : braceDepth (cs ++ [c]) =
            braceDepth cs + braceBalance (openQuote none cs) [c] := by
          unfold braceDepth
          rw [braceBalance_append]
          omega
        obtain ⟨-, rfl⟩ := hlast.2.mp (by omega)
        exact ⟨cs, [], rfl, hopen, hzero⟩
      · right
        intro p hp
        rcases List.prefix_concat_iff.mp hp with rfl | hp
        · exact hzero
        · exact hopen p hp

lemma first_comment_end (cs : List Char) :
    (∃ body after, cs = body ++ ['*', '/'] ++ after ∧ ¬ ['*', '/'] <:+: body ++ ['*']) ∨
      ¬ ['*', '/'] <:+: cs := by
  induction cs with
  | nil =>
    right
    simp
  | cons c cs ih =>
    by_cases hfirst : ['*', '/'] <+: c :: cs
    · left
      obtain ⟨after, hafter⟩ := hfirst
      refine ⟨[], after, hafter.symm, ?_⟩
      intro h
      have hlength := h.length_le
      simp at hlength
    · rcases ih with ⟨body, after, rfl, hbody⟩ | hnone
      · left
        refine ⟨c :: body, after, rfl, ?_⟩
        intro h
        rcases List.infix_cons_iff.mp h with hfront | hinner
        · apply hfirst
          have hlong : c :: body ++ ['*'] <+: c :: (body ++ ['*', '/'] ++ after) :=
            ⟨'/' :: after, by simp⟩
          exact hfront.trans hlong
        · exact hbody hinner
      · right
        intro h
        rcases List.infix_cons_iff.mp h with hfront | hinner
        · exact hfirst hfront
        · exact hnone hinner

lemma longest_run (p : Char → Bool) (cs : List Char) :
    ∃ run after, cs = run ++ after ∧ (∀ c ∈ run, p c) ∧ ∀ c ∈ after.head?, p c = false := by
  refine ⟨cs.takeWhile p, cs.dropWhile p, List.takeWhile_append_dropWhile.symm, ?_, ?_⟩
  · exact List.all_eq_true.mp List.all_takeWhile
  · intro c hc
    have hhead := List.head?_dropWhile_not p cs
    rw [Option.mem_def.mp hc] at hhead
    exact hhead

lemma comment_lexeme (cs : List Char) :
    ∃ lexeme after, '#' :: cs = lexeme ++ after ∧ Lexeme .lineComment lexeme after := by
  by_cases hnewline : '\n' ∈ cs
  · obtain ⟨body, after, rfl, hbody⟩ := List.eq_append_cons_of_mem hnewline
    exact ⟨'#' :: body ++ ['\n'], after, by simp, .lineComment hbody⟩
  · exact ⟨'#' :: cs, [], by simp, .lastLineComment hnewline⟩

lemma slash_lexeme_or_malformed (cs : List Char) :
    (∃ lexeme after, '/' :: cs = lexeme ++ after ∧ Lexeme .blockComment lexeme after) ∨
      ∃ cause, Malformed ('/' :: cs) cause := by
  by_cases hstar : cs.head? = some '*'
  · obtain ⟨ds, rfl⟩ := List.head?_eq_some_iff.mp hstar
    rcases first_comment_end ds with ⟨body, after, rfl, hbody⟩ | hnone
    · left
      exact ⟨'/' :: '*' :: body ++ ['*', '/'], after, by simp, .blockComment hbody⟩
    · right
      exact ⟨_, .unterminatedComment hnone⟩
  · right
    exact ⟨_, .loneSlash hstar⟩

lemma brace_lexeme_or_malformed (cs : List Char) :
    (∃ lexeme after, '{' :: cs = lexeme ++ after ∧ Lexeme .actionBlock lexeme after) ∨
      ∃ cause, Malformed ('{' :: cs) cause := by
  rcases closed_or_open cs with ⟨body, after, rfl, hopen, hclosed⟩ | hopen
  · left
    exact ⟨'{' :: body ++ ['}'], after, by simp, .actionBlock hopen hclosed⟩
  · right
    obtain ⟨depth, hpositive, hdepth, -⟩ := Scan.read_action_open hopen
    exact ⟨_, .unterminatedAction hopen hpositive hdepth⟩

theorem lexeme_or_malformed {c : Char} (cs : List Char) (hblank : isBlank c = false) :
    (∃ kind lexeme after, c :: cs = lexeme ++ after ∧ Lexeme kind lexeme after) ∨
      ∃ cause, Malformed (c :: cs) cause := by
  by_cases hstart : isIdentifierStart c
  · obtain ⟨run, after, rfl, hrun, hafter⟩ := longest_run isIdentifierContinue cs
    left
    exact ⟨.identifier, c :: run, after, rfl, .identifier hstart hrun hafter⟩
  by_cases hsymbol : isSymbol c
  · left
    exact ⟨.symbol, [c], cs, rfl, .symbol hsymbol⟩
  by_cases hquote : isQuote c
  · by_cases hclose : c ∈ cs
    · obtain ⟨body, after, rfl, hbody⟩ := List.eq_append_cons_of_mem hclose
      left
      exact ⟨.quotedLiteral, c :: body ++ [c], after, by simp, .quotedLiteral hquote hbody⟩
    · right
      exact ⟨_, .unterminatedLiteral hquote hclose⟩
  by_cases hspecial : c ∈ ['#', '/', '{']
  · simp only [List.mem_cons, List.not_mem_nil, or_false] at hspecial
    rcases hspecial with rfl | rfl | rfl
    · left
      exact ⟨_, comment_lexeme cs⟩
    · exact (slash_lexeme_or_malformed cs).imp_left (fun h => ⟨_, h⟩)
    · exact (brace_lexeme_or_malformed cs).imp_left (fun h => ⟨_, h⟩)
  · right
    exact ⟨_, .unexpectedCharacter hblank (Bool.eq_false_iff.mpr hstart)
      (Bool.eq_false_iff.mpr hsymbol) (Bool.eq_false_iff.mpr hquote) hspecial⟩

end GrammarTokens
