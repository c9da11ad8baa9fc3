import GrammarTokens.Opening
import GrammarTokens.Proofs.Grammar

/-!
# Reading the lexemes of the grammar

The lexeme that a character opens is read as the grammar has it: a lexeme is taken whole, and
nothing behind it, and a malformed text leaves the reading with its fault.
-/

namespace GrammarTokens

namespace Opening

lemma classify_symbol {c : Char} (hc : isSymbol c) : classify (some c) = lexeme .symbol := by
  rcases isSymbol_iff.mp hc with rfl | rfl | rfl | rfl | rfl | rfl <;> decide

lemma classify_quote {c : Char} (hc : isQuote c) :
    classify (some c) = lexeme (.openingQuote c) := by
  rcases isQuote_iff.mp hc with rfl | rfl <;> decide

lemma classify_char (c : Char) :
    (∃ first, classify (some c) = lexeme first) ∨ classify (some c) = unexpected c := by
  rw [classify]
  repeat' split
  all_goals simp

end Opening

namespace Scan

/-- A state that keeps a run of characters without changing reads what follows the run. -/
lemma read_run {state : Scan} {run : List Char} (after : List Char)
    (h : ∀ c ∈ run, state.step c = .keep (some state)) :
    state.read (run ++ after) = (state.read after).keepAll run := by
  induction run with
  | nil => rfl
  | cons c run ih =>
    rw [List.cons_append, read, h c List.mem_cons_self]
    simp only [ih (fun d hd => h d (List.mem_cons_of_mem c hd)), Reading.keepAll_cons]

lemma read_identifier {run after : List Char} (hrun : ∀ d ∈ run, isIdentifierContinue d)
    (hafter : ∀ d ∈ after.head?, isIdentifierContinue d = false) :
    ∃ stop, identifier.read (run ++ after) = ⟨run, run, after, stop⟩ ∧ stop.fault? = none ∧
      ((∃ last, stop = .exhausted last) ↔ after = []) := by
  rw [read_run after (fun d hd => by simp [step, hrun d hd])]
  cases after with
  | nil => exact ⟨.exhausted .identifier, by simp [read, Reading.keepAll], rfl, by simp⟩
  | cons d after =>
    refine ⟨.complete, ?_, rfl, by simp⟩
    simp [read, step, hafter d rfl, Reading.keepAll]

lemma read_literal {quote : Char} {body : List Char} (hbody : quote ∉ body)
    (after : List Char) :
    (literal quote).read (body ++ after) = ((literal quote).read after).keepAll body := by
  apply read_run
  intro c hc
  have hne : c ≠ quote := by
    rintro rfl
    exact hbody hc
  simp [step, hne]

lemma read_literal_closed {quote : Char} {body : List Char} (hbody : quote ∉ body)
    (after : List Char) :
    (literal quote).read (body ++ quote :: after) =
      ⟨body ++ [quote], body ++ [quote], after, .complete⟩ := by
  rw [read_literal hbody]
  simp [read, step, Reading.keepAll]

lemma read_lineComment {body : List Char} (hbody : '\n' ∉ body) (after : List Char) :
    lineComment.read (body ++ after) = (lineComment.read after).keepAll body := by
  apply read_run
  intro c hc
  have hne : c ≠ '\n' := by
    rintro rfl
    exact hbody hc
  simp [step, hne]

lemma read_lineComment_closed {body : List Char} (hbody : '\n' ∉ body) (after : List Char) :
    lineComment.read (body ++ '\n' :: after) =
      ⟨body ++ ['\n'], body ++ ['\n'], after, .complete⟩ := by
  rw [read_lineComment hbody]
  simp [read, step, Reading.keepAll]

/-- A block comment is read on as long as no `*/` occurs, counting a star in front. -/
lemma read_blockComment (star : Bool) {cs : List Char}
    (h : ¬ ['*', '/'] <:+: (if star then '*' :: cs else cs)) (after : List Char) :
    (blockComment star).read (cs ++ after) =
      ((blockComment (cs.getLast?.elim star (· == '*'))).read after).keepAll cs := by
  induction cs generalizing star with
  | nil => rfl
  | cons c cs ih =>
    have hopen : (star && c == '/') = false := by
      rw [Bool.eq_false_iff]
      intro hclose
      simp only [Bool.and_eq_true, beq_iff_eq] at hclose
      obtain ⟨rfl, rfl⟩ := hclose
      exact h ⟨[], cs, rfl⟩
    have hcs : ¬ ['*', '/'] <:+: (if c == '*' then '*' :: cs else cs) := by
      intro hinner
      apply h
      have htail : (if c == '*' then '*' :: cs else cs) <:+: c :: cs := by
        by_cases hc : c = '*'
        · simp [hc]
        · simpa [hc] using (List.suffix_cons c cs).isInfix
      cases star with
      | false => exact hinner.trans htail
      | true => exact (hinner.trans htail).trans (List.infix_cons List.infix_rfl)
    have hlast : (c :: cs).getLast?.elim star (· == '*') =
        cs.getLast?.elim (c == '*') (· == '*') := by
      rw [List.getLast?_cons]
      cases cs.getLast? <;> rfl
    rw [hlast, List.cons_append, read]
    simp only [step, hopen, Bool.false_eq_true, if_false, ih _ hcs, Reading.keepAll_cons]

lemma read_blockComment_closed {body : List Char} (hbody : ¬ ['*', '/'] <:+: body ++ ['*'])
    (after : List Char) :
    (blockComment false).read (body ++ '*' :: '/' :: after) =
      ⟨body ++ ['*', '/'], body ++ ['*', '/'], after, .complete⟩ := by
  have hread := read_blockComment false hbody ('/' :: after)
  rw [List.append_assoc, List.singleton_append] at hread
  rw [hread]
  simp [read, step, Reading.keepAll]

lemma read_openingQuote (quote : Char) (rest : List Char) :
    (openingQuote quote).read (quote :: rest) = ((literal quote).read rest).keep quote := rfl

lemma read_openingSlash (rest : List Char) :
    openingSlash.read ('/' :: '*' :: rest) = ((blockComment false).read rest).keepAll ['/', '*'] :=
  rfl

lemma read_openingBrace (rest : List Char) :
    openingBrace.read ('{' :: rest) = ((action 0 none).read rest).strip '{' := rfl

end Scan

/-- Whether a lexeme goes on for as long as it can, so that only what follows shows its end. -/
def Token.Kind.runsOn (kind : Token.Kind) (text : List Char) : Bool :=
  kind == .identifier || kind == .lineComment && text.getLast? != some '\n'

/-- A lexeme is read whole, whatever follows it, and its text is what the token will have. It
takes all characters without being complete only if it runs on to the end of the text. -/
theorem read_of_lexeme {kind : Token.Kind} {lexeme after : List Char}
    (h : Lexeme kind lexeme after) :
    ∃ c first text stop, lexeme.head? = some c ∧ Opening.classify (some c) = .lexeme first ∧
      first.kind = kind ∧ first.read (lexeme ++ after) = ⟨lexeme, text, after, stop⟩ ∧
      stop.fault? = none ∧ kind.raw (String.ofList text) = lexeme ∧
      ((∃ last, stop = .exhausted last) ↔ after = [] ∧ kind.runsOn lexeme) := by
  cases h with
  | @identifier c cs after hstart hcs hafter =>
    have hrun : ∀ d ∈ c :: cs, isIdentifierContinue d := by
      intro d hd
      rcases List.mem_cons.mp hd with rfl | hd
      · exact isIdentifierContinue_of_isIdentifierStart hstart
      · exact hcs d hd
    obtain ⟨stop, hread, hfault, hstop⟩ := Scan.read_identifier hrun hafter
    exact ⟨c, .identifier, c :: cs, stop, rfl, by simp [Opening.classify, hstart], rfl, hread,
      hfault, by simp [Token.Kind.raw], by simpa [Token.Kind.runsOn] using hstop⟩
  | @symbol c after hsymbol =>
    exact ⟨c, .symbol, [c], .complete, rfl, Opening.classify_symbol hsymbol, rfl, rfl, rfl,
      by simp [Token.Kind.raw], by simp [Token.Kind.runsOn]⟩
  | @quotedLiteral quote body after hquote hbody =>
    refine ⟨quote, .openingQuote quote, quote :: body ++ [quote], .complete, rfl,
      Opening.classify_quote hquote, rfl, ?_, rfl, by simp [Token.Kind.raw],
      by simp [Token.Kind.runsOn]⟩
    rw [List.append_assoc, List.cons_append, Scan.read_openingQuote]
    exact congrArg (Scan.Reading.keep quote) (Scan.read_literal_closed hbody after)
  | @lineComment body after hbody =>
    have hlast : ('#' :: body ++ ['\n']).getLast? = some '\n' := List.getLast?_concat
    refine ⟨'#', .lineComment, '#' :: body ++ ['\n'], .complete, rfl, by decide, rfl, ?_, rfl,
      by simp [Token.Kind.raw], by rw [Token.Kind.runsOn, hlast]; simp⟩
    rw [List.append_assoc, List.cons_append]
    exact congrArg (Scan.Reading.keep '#') (Scan.read_lineComment_closed hbody after)
  | @lastLineComment body hbody =>
    have hlast : ('#' :: body).getLast? ≠ some '\n' := by
      intro hlast
      exact hbody (by simpa using List.mem_of_getLast? hlast)
    refine ⟨'#', .lineComment, '#' :: body, .exhausted .lineComment, rfl, by decide, rfl, ?_, rfl,
      by simp [Token.Kind.raw], by simp [Token.Kind.runsOn, hlast]⟩
    have hread : Scan.lineComment.read (body ++ []) =
        ⟨body, body, [], .exhausted .lineComment⟩ := by
      rw [Scan.read_lineComment hbody]
      simp [Scan.read, Scan.Reading.keepAll]
    exact congrArg (Scan.Reading.keep '#') hread
  | @blockComment body after hbody =>
    refine ⟨'/', .openingSlash, '/' :: '*' :: body ++ ['*', '/'], .complete, rfl, by decide, rfl,
      ?_, rfl, by simp [Token.Kind.raw], by simp [Token.Kind.runsOn]⟩
    rw [List.append_assoc, List.cons_append, List.cons_append, Scan.read_openingSlash]
    exact congrArg (Scan.Reading.keepAll ['/', '*']) (Scan.read_blockComment_closed hbody after)
  | @actionBlock body after hopen hclosed =>
    refine ⟨'{', .openingBrace, body, .complete, rfl, by decide, rfl, ?_, rfl,
      by simp [Token.Kind.raw], by simp [Token.Kind.runsOn]⟩
    rw [List.append_assoc, List.cons_append, Scan.read_openingBrace]
    exact congrArg (Scan.Reading.strip '{') (Scan.read_action_closed hopen hclosed)

/-- What the text of a lexeme has come to where the fault of the rest of a text shows. -/
def LexError.Cause.textBefore (cause : LexError.Cause) (rest : List Char) : List Char :=
  match cause with
  | .unterminatedLiteral _ | .unterminatedComment => rest
  | .unterminatedAction _ => rest.tail
  | .unexpectedCharacter c => if c = '/' then ['/'] else []
  | .readFailed _ | .tokenTooLong _ | .tooManyTokens _ => []

/-- Whether what is wrong with the rest of a text shows only where the text ends: an unexpected
character shows at once, but for a `/` that may be the first half of `/*`. -/
def LexError.Cause.ShowsAtEnd (cause : LexError.Cause) (rest : List Char) : Prop :=
  (∃ d, cause = .unexpectedCharacter d) → rest = ['/']

/-- A malformed text opens no lexeme, or one whose reading ends in the fault of the text. -/
theorem read_of_malformed {rest : List Char} {cause : LexError.Cause} (h : Malformed rest cause) :
    ∃ c, rest.head? = some c ∧
      (Opening.classify (some c) = .unexpected c ∧ cause = .unexpectedCharacter c ∧ c ≠ '/' ∨
        ∃ first, Opening.classify (some c) = .lexeme first ∧
          (first.read rest).stop.fault? = some cause ∧
          (first.read rest).text = cause.textBefore rest ∧
          ((∃ last, (first.read rest).stop = .exhausted last) ↔ cause.ShowsAtEnd rest) ∧
          ∀ d, cause = .unexpectedCharacter d → d = '/') := by
  unfold LexError.Cause.ShowsAtEnd
  cases h with
  | @unterminatedLiteral quote rest hquote hrest =>
    refine ⟨quote, rfl, .inr ⟨.openingQuote quote, Opening.classify_quote hquote, ?_⟩⟩
    have hread := Scan.read_literal hrest []
    rw [List.append_nil] at hread
    rw [Scan.read_openingQuote, hread]
    refine ⟨rfl, ?_, ?_⟩
    · simp [Scan.read, Scan.Reading.keepAll, Scan.Reading.keep, LexError.Cause.textBefore]
    · simp [Scan.read, Scan.Reading.keepAll, Scan.Reading.keep]
  | @unterminatedComment rest hrest =>
    refine ⟨'/', rfl, .inr ⟨.openingSlash, by decide, ?_⟩⟩
    have hread := Scan.read_blockComment false hrest []
    rw [List.append_nil] at hread
    rw [Scan.read_openingSlash, hread]
    refine ⟨rfl, by simp [Scan.read, Scan.Reading.keepAll, LexError.Cause.textBefore], ?_⟩
    simp [Scan.read, Scan.Reading.keepAll]
  | @unterminatedAction rest depth hopen hpositive hdepth =>
    refine ⟨'{', rfl, .inr ⟨.openingBrace, by decide, ?_⟩⟩
    obtain ⟨nested, hnested, hread⟩ := Scan.read_action_exhausted hopen
    have hsame : nested + 1 = depth := by omega
    rw [Scan.read_openingBrace, hread, ← hsame]
    refine ⟨rfl, rfl, ?_⟩
    simp [Scan.Reading.strip]
  | @loneSlash rest hrest =>
    refine ⟨'/', rfl, .inr ⟨.openingSlash, by decide, ?_⟩⟩
    cases rest with
    | nil => exact ⟨rfl, rfl, by simp [Scan.read, Scan.step, Scan.Reading.keep], by simp⟩
    | cons c rest =>
      have hc : c ≠ '*' := by
        rintro rfl
        exact hrest rfl
      simp [Scan.read, Scan.step, hc, Scan.Reading.keep, Scan.Stop.fault?,
        LexError.Cause.textBefore]
  | @unexpectedCharacter c rest hblank hstart hsymbol hquote hspecial =>
    simp only [List.mem_cons, List.not_mem_nil, or_false, not_or] at hspecial
    refine ⟨c, rfl, .inl ⟨?_, rfl, hspecial.2.1⟩⟩
    simp [Opening.classify, hstart, hsymbol, hquote, hspecial]

end GrammarTokens
