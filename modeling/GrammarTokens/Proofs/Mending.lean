import GrammarTokens.Proofs.Bodies
import GrammarTokens.Proofs.CommonFront
import GrammarTokens.Proofs.Printing
import GrammarTokens.Proofs.Restart

/-!
# Mending a text

A text that ends too early is completed by what its last lexeme lacks: a quote, a `*/`, or the quote
that is open in an action block and then the braces. A character that begins no token becomes one in
quotes. The tokens in front stay as they are. Advice that names the braces alone is right only where
no quote is open.
-/

namespace GrammarTokens

/-- With `closing` behind it the text is accepted: the tokens are followed by one of this kind, from
the position to the end. -/
def CompletedBy (text : String) (closing : List Char) (tokens : List Token) (kind : Token.Kind)
    (position : Position) : Prop :=
  ∃ token, tokenize (text ++ .ofList closing) = .ok (tokens ++ [token]) ∧ token.kind = kind ∧
    token.span = ⟨position, .after (text.toList ++ closing)⟩

def quotedAt (front : List Char) (c : Char) : Token :=
  ⟨.quotedLiteral, .ofList ['\'', c, '\''], .over (.after front) ['\'', c, '\'']⟩

/-- How a text is mended for which `e` is reported behind the tokens. It is split at the place of
the error into `front` and `rest`. -/
structure Mending (text : String) (e : LexError) (tokens : List Token) (front rest : List Char) :
    Prop where
  gives : (Lexer.ofText text).Gives tokens (.error e)
  text_eq : text.toList = front ++ rest
  position_eq : e.position = .after front
  literal : ∀ quote, e.cause = .unterminatedLiteral quote →
    CompletedBy text [quote] tokens .quotedLiteral e.position
  comment : e.cause = .unterminatedComment →
    CompletedBy text ['*', '/'] tokens .blockComment e.position
  action : ∀ depth, e.cause = .unterminatedAction depth → ∃ nested quote,
    (Scan.openingBrace.read rest).stop = .exhausted (.action nested quote) ∧
      CompletedBy text (quote.toList ++ List.replicate depth '}') tokens .actionBlock e.position
  fewer_braces : ∀ depth (more : String), e.cause = .unterminatedAction depth →
    more.toList.count '}' < depth →
    ∃ depth', tokenize (text ++ more) = .error ⟨.unterminatedAction depth', e.position⟩
  character : ∀ c, e.cause = .unexpectedCharacter c → ∃ back m, rest = c :: back ∧
    (Lexer.ofText (.ofList (front ++ ['\'', c, '\''] ++ back))).Passes
      (tokens ++ [quotedAt front c]) m ∧
    ∀ n, answers Lexer.nextToken n m = (answers Lexer.nextToken n (Lexer.ofText (.ofList back))).map
      (shiftAnswer (quotedAt front c).span.stop)

/-! ### What a lexeme lacks -/

lemma lexeme_of_open_literal {rest : List Char} {quote : Char}
    (h : Malformed rest (.unterminatedLiteral quote)) :
    Lexeme .quotedLiteral (rest ++ [quote]) [] := by
  cases h with
  | unterminatedLiteral hquote hrest => exact .quotedLiteral hquote hrest

/-- A `*` at the end of a comment may be the one that closes it, but the `*` of the closing is
there anyway. -/
lemma lexeme_of_open_comment {rest : List Char} (h : Malformed rest .unterminatedComment) :
    Lexeme .blockComment (rest ++ ['*', '/']) [] := by
  cases h with
  | @unterminatedComment rest hrest =>
    refine .blockComment ?_
    intro hclosed
    rcases List.infix_concat_iff.mp hclosed with hsuffix | hinner
    · obtain ⟨front, hfront⟩ := hsuffix
      have hlast := congrArg List.getLast? hfront
      simp at hlast
    · exact hrest hinner

lemma exists_unclosed {rest : List Char} {depth : Nat}
    (h : Malformed rest (.unterminatedAction depth)) :
    ∃ inner nested, rest = '{' :: inner ∧ depth = nested + 1 ∧
      Unclosed nested (openQuote none inner) inner := by
  cases h with
  | @unterminatedAction inner _ hopen hpositive hdepth =>
    rcases closed_or_unclosed inner with ⟨body, after, rfl, hbody⟩ | ⟨nested, quote, hinner⟩
    · have hblock := lexeme_of_body hbody after
      have hstuck := stuck_of_malformed (.unterminatedAction hopen hpositive hdepth)
      exact absurd hblock (hstuck.no_lexeme _ _ _ (by simp))
    · obtain ⟨hsame, rfl⟩ := braceDepth_of_unclosed hinner
      exact ⟨inner, nested, rfl, by omega, hinner⟩

/-- Each closing brace closes one block, if no quote is open. -/
lemma Unclosed.close_all {nested : Nat} {cs : List Char} (h : Unclosed nested none cs) :
    Body (cs ++ List.replicate nested '}') := by
  induction nested generalizing cs with
  | zero =>
    cases h with
    | body hbody => simpa using hbody
  | succ nested ih =>
    have hclosed := ih h.close
    rwa [List.append_assoc, List.singleton_append, ← List.replicate_succ] at hclosed

lemma lexeme_of_unclosed {nested : Nat} {quote : Option Char} {inner : List Char}
    (h : Unclosed nested quote inner) :
    Lexeme .actionBlock ('{' :: inner ++ (quote.toList ++ List.replicate (nested + 1) '}')) [] := by
  have hlexeme := lexeme_of_body h.endQuote.close_all []
  rw [List.replicate_succ']
  simpa using hlexeme

lemma Unclosed.quoted_braces {nested : Nat} {quote : Char} {cs : List Char}
    (h : Unclosed nested (some quote) cs) (n : Nat) :
    Unclosed nested (some quote) (cs ++ List.replicate n '}') := by
  cases h with
  | @quoted _ _ front run hfront hquote hrun =>
    have hbrace : quote ≠ '}' := by
      rintro rfl
      cases hquote
    rw [List.append_assoc, List.cons_append]
    exact .quoted hfront hquote (by simp [hrun, hbrace])

/-- A text cannot lower the depth by more than its closing braces, those in quotes included. -/
lemma neg_count_le_braceBalance (quote : Option Char) (cs : List Char) :
    -(cs.count '}' : Int) ≤ braceBalance quote cs := by
  induction cs generalizing quote with
  | nil => simp
  | cons c cs ih =>
    have hsplit : braceBalance quote (c :: cs) =
        braceBalance quote [c] + braceBalance (openQuote quote [c]) cs :=
      braceBalance_append quote [c] cs
    have htail := ih (openQuote quote [c])
    obtain ⟨hstep, hclose⟩ := braceBalance_singleton quote c
    rw [hsplit, List.count_cons]
    by_cases hc : c = '}'
    · simp only [hc, beq_self_eq_true, if_true] at hstep htail ⊢
      omega
    · have hkept : braceBalance quote [c] ≠ -1 := fun hdrop => hc (hclose.mp hdrop).2
      simp only [beq_iff_eq, hc, if_false, Nat.add_zero]
      omega

lemma malformed_of_fewer_braces {nested : Nat} {quote : Option Char} {inner more : List Char}
    (h : Unclosed nested quote inner) (hmore : more.count '}' ≤ nested) :
    ∃ depth, Malformed ('{' :: (inner ++ more)) (.unterminatedAction depth) := by
  obtain ⟨hdepth, hquote⟩ := braceDepth_of_unclosed h
  have hopen : ∀ p, p <+: inner ++ more → braceDepth p ≠ 0 := by
    intro p hp
    rcases List.prefix_or_prefix_of_prefix hp (List.prefix_append inner more) with
      hinner | ⟨front, rfl⟩
    · exact depth_ne_zero_of_unclosed h p hinner
    · have hfront := (List.prefix_append_right_inj inner).mp hp
      have hcount := hfront.sublist.count_le '}'
      have hbalance := neg_count_le_braceBalance quote front
      unfold braceDepth at hdepth ⊢
      rw [braceBalance_append, hquote]
      omega
  obtain ⟨depth, hpositive, hsame, -⟩ := Scan.read_action_open hopen
  exact ⟨depth, .unterminatedAction hopen hpositive hsame⟩

/-! ### Lexemes in front of other texts -/

lemma not_continue_of_blanks {blanks cs : List Char} (hblanks : ∀ c ∈ blanks, isBlank c)
    (hcs : ∀ c ∈ cs.head?, isIdentifierContinue c = false) :
    ∀ c ∈ (blanks ++ cs).head?, isIdentifierContinue c = false := by
  cases blanks with
  | nil => exact hcs
  | cons b blanks =>
    intro c hc
    obtain rfl : b = c := by simpa using hc
    exact not_isIdentifierContinue_of_isBlank (hblanks b List.mem_cons_self)

/-- Pieces that do not end a text are such in front of any text that does not go on with an
identifier. -/
lemma inContext_before {pieces : List Piece} {after after' : List Char}
    (h : Piece.InContext pieces after) (hne : after ≠ [])
    (hafter' : ∀ c ∈ after'.head?, isIdentifierContinue c = false) :
    Piece.InContext pieces after' := by
  induction h with
  | nil => exact .nil
  | @cons p pieces after hblanks hlexeme hpieces ih =>
    refine .cons hblanks (lexeme_before hlexeme ?_ ?_) (ih hne)
    · intro hkind
      have hfollowing := not_continue_of_identifier hlexeme hkind
      cases hsource : Piece.source pieces with
      | nil => exact hafter'
      | cons c cs =>
        rw [hsource] at hfollowing
        exact hfollowing
    · intro hkind _
      exact ends_line_of_lineComment hlexeme hkind (by simp [hne])

/-- What completes the lexeme at the end of a text completes the text. -/
theorem completedBy_of_lexeme {text : String} {pieces : List Piece}
    {blanks rest closing : List Char} {kind : Token.Kind}
    (h : Piece.Factors text.toList pieces blanks rest) (hrest : rest ≠ [])
    (hlexeme : Lexeme kind (rest ++ closing) []) :
    CompletedBy text closing (Piece.tokens [] pieces) kind
      (.after (Piece.source pieces ++ blanks)) := by
  let p : Piece := ⟨blanks, kind, rest ++ closing⟩
  have hhead : (Piece.source [p] ++ []).head? = (blanks ++ rest).head? := by
    cases rest with
    | nil => exact absurd rfl hrest
    | cons c rest => cases blanks <;> simp [p]
  have hpieces : Piece.InContext (pieces ++ [p]) [] :=
    (inContext_of_head h.lexemes hhead).join (.cons h.blank hlexeme .nil)
  have hfactors : Piece.Factors (text ++ .ofList closing).toList (pieces ++ [p]) [] [] :=
    ⟨by simp [h.source_eq, Piece.source_append, p], hpieces, by simp⟩
  refine ⟨p.token (Piece.source pieces), ?_, rfl, ?_⟩
  · rw [tokenize_of_factors hfactors, Piece.tokens_append]
    rfl
  · rw [Piece.token, h.source_eq, List.append_assoc _ rest]

/-- A character that begins no token is one in quotes, and the lexer goes on behind it. -/
theorem passes_quoted {pieces : List Piece} {blanks back : List Char} {c : Char} {text : String}
    (h : Piece.Factors text.toList pieces blanks (c :: back))
    (hrest : Malformed (c :: back) (.unexpectedCharacter c)) :
    ∃ m, (Lexer.ofText
        (.ofList (Piece.source pieces ++ blanks ++ ['\'', c, '\''] ++ back))).Passes
      (Piece.tokens [] pieces ++ [quotedAt (Piece.source pieces ++ blanks) c]) m ∧
      ∀ n, answers Lexer.nextToken n m =
        (answers Lexer.nextToken n (Lexer.ofText (.ofList back))).map
          (shiftAnswer (quotedAt (Piece.source pieces ++ blanks) c).span.stop) := by
  let p : Piece := ⟨blanks, .quotedLiteral, ['\'', c, '\'']⟩
  have hquote : '\'' ∉ [c] := by
    intro hmem
    obtain rfl := List.mem_singleton.mp hmem
    cases hrest with
    | unexpectedCharacter _ _ _ hquote => cases hquote
  have hlexeme : Lexeme .quotedLiteral ['\'', c, '\''] back := .quotedLiteral (by decide) hquote
  have hbefore : Piece.InContext pieces (Piece.source [p] ++ back) := by
    refine inContext_before h.lexemes (by simp) ?_
    rw [Piece.source_cons, Piece.source_nil, List.append_nil, List.append_assoc]
    exact not_continue_of_blanks h.blank (by simp [p, isIdentifierContinue, isAlphabetic])
  have hpieces : Piece.InContext (pieces ++ [p]) back :=
    hbefore.join (.cons h.blank hlexeme .nil)
  have htokens : Piece.tokens [] (pieces ++ [p]) =
      Piece.tokens [] pieces ++ [quotedAt (Piece.source pieces ++ blanks) c] := by
    rw [Piece.tokens_append, quotedAt, Span.over, advanceBy_after]
    rfl
  have hstop : .after ([] ++ Piece.source (pieces ++ [p])) =
      (quotedAt (Piece.source pieces ++ blanks) c).span.stop := by
    rw [quotedAt, Span.over, advanceBy_after]
    simp [Piece.source_append, p]
  have hsource : Piece.source pieces ++ blanks ++ ['\'', c, '\''] ++ back =
      Piece.source (pieces ++ [p]) ++ back := by
    simp [Piece.source_append, p]
  rw [hsource, ← htokens, ← hstop]
  have hstands := Lexer.standsAt_ofText (.ofList (Piece.source (pieces ++ [p]) ++ back)) {}
  rw [String.toList_ofList] at hstands
  obtain ⟨m, hpasses, hm, hoptions, -⟩ :=
    Lexer.passes_pieces hstands hpieces (fun _ _ _ _ => rfl) (fun _ _ _ => rfl)
  rw [← String.toList_ofList (l := back)] at hm
  exact ⟨m, hpasses, Lexer.answers_of_standsAt hm hoptions⟩

variable {text : String}

/-- What is wrong with a longer rest is what is wrong with the longer text. -/
lemma tokenize_of_longer_rest {pieces : List Piece} {blanks rest : List Char} {more : String}
    {cause : LexError.Cause} (h : Piece.Factors text.toList pieces blanks rest) (hrest : rest ≠ [])
    (hmore : Malformed (rest ++ more.toList) cause) :
    tokenize (text ++ more) = .error ⟨cause, .after (Piece.source pieces ++ blanks)⟩ := by
  have hpieces : Piece.InContext pieces (blanks ++ (rest ++ more.toList)) := by
    refine inContext_of_head h.lexemes ?_
    rw [← List.append_assoc, List.head?_append_of_ne_nil _ (by simp [hrest])]
  have hfactors : Piece.Factors (text ++ more).toList pieces blanks (rest ++ more.toList) :=
    ⟨by simp [h.source_eq], hpieces, h.blank⟩
  exact tokenize_of_malformed hfactors hmore

/-- A refused text is mended by the end of the lexeme that it lacks, or by quoting the character
that is unexpected. The closing braces that the error counts are all needed. -/
theorem mending_of_tokenize_error {e : LexError} (h : tokenize text = .error e) :
    ∃ tokens front rest, Mending text e tokens front rest := by
  obtain ⟨pieces, blanks, rest, hfactors, hposition, hrest⟩ := malformed_of_tokenize h
  obtain ⟨cause, position⟩ := e
  dsimp only at hposition hrest
  subst hposition
  have hne := ne_nil_of_malformed hrest
  obtain ⟨m, final, hpasses, hfinal⟩ := Lexer.run_of_factors hfactors (.stuck hrest)
  refine ⟨Piece.tokens [] pieces, Piece.source pieces ++ blanks, rest, ?_⟩
  exact {
    gives := Lexer.gives_of_finishes hpasses hfinal
    text_eq := hfactors.source_eq
    position_eq := rfl
    literal := by
      rintro quote rfl
      exact completedBy_of_lexeme hfactors hne (lexeme_of_open_literal hrest)
    comment := by
      rintro rfl
      exact completedBy_of_lexeme hfactors hne (lexeme_of_open_comment hrest)
    action := by
      rintro depth rfl
      obtain ⟨inner, nested, rfl, rfl, hinner⟩ := exists_unclosed hrest
      have hread := Scan.read_openingBrace_of_unclosed hinner
      exact ⟨nested, openQuote none inner, congrArg Scan.Reading.stop hread,
        completedBy_of_lexeme hfactors hne (lexeme_of_unclosed hinner)⟩
    fewer_braces := by
      rintro depth more rfl hmore
      obtain ⟨inner, nested, rfl, rfl, hinner⟩ := exists_unclosed hrest
      obtain ⟨depth, hopen⟩ := malformed_of_fewer_braces hinner (Nat.le_of_lt_succ hmore)
      exact ⟨depth, tokenize_of_longer_rest hfactors hne hopen⟩
    character := by
      rintro c rfl
      obtain ⟨back, rfl⟩ : ∃ back, rest = c :: back := by
        cases hrest <;> exact ⟨_, rfl⟩
      obtain ⟨m, hquoted, hbehind⟩ := passes_quoted hfactors hrest
      exact ⟨back, m, rfl, hquoted, hbehind⟩ }

/-- The block is open, and so is a quote in it. -/
theorem mending_open_quote :
    tokenize "a \x7b'" = .error ⟨.unterminatedAction 1, ⟨1, 3, 2⟩⟩ ∧
      ∃ tokens front rest,
        Mending "a \x7b'" ⟨.unterminatedAction 1, ⟨1, 3, 2⟩⟩ tokens front rest := by
  have hidentifier : Lexeme .identifier ['a'] " \x7b'".toList :=
    .identifier (by decide) (by simp) (by simp [isIdentifierContinue, isAlphabetic])
  have hfactors :
      Piece.Factors "a \x7b'".toList [⟨[], .identifier, ['a']⟩] [' '] "\x7b'".toList :=
    ⟨by decide, .cons (by simp) hidentifier .nil, by simp [isBlank]⟩
  have hopen : Unclosed 0 (some '\'') ['\''] := .quoted (.body .nil) (by decide) (by simp)
  have herror : tokenize "a \x7b'" = .error ⟨.unterminatedAction 1, ⟨1, 3, 2⟩⟩ :=
    tokenize_of_malformed hfactors (malformed_of_unclosed hopen)
  exact ⟨herror, mending_of_tokenize_error herror⟩

/-- Closing braces complete an action block exactly if no quote is open at the end of the text. -/
theorem completedBy_braces_iff {depth : Nat} {position : Position}
    (h : tokenize text = .error ⟨.unterminatedAction depth, position⟩) :
    ∃ front inner, text.toList = front ++ '{' :: inner ∧ position = .after front ∧
      ((∃ tokens, CompletedBy text (List.replicate depth '}') tokens .actionBlock position) ↔
        openQuote none inner = none) := by
  obtain ⟨pieces, blanks, rest, hfactors, rfl, hrest⟩ := malformed_of_tokenize h
  have hne := ne_nil_of_malformed hrest
  obtain ⟨inner, nested, rfl, rfl, hinner⟩ := exists_unclosed hrest
  refine ⟨_, inner, hfactors.source_eq, rfl, ?_, ?_⟩
  · rintro ⟨tokens, token, htokens, -⟩
    cases hquote : openQuote none inner with
    | none => rfl
    | some quote =>
      rw [hquote] at hinner
      have hopen := malformed_of_unclosed (hinner.quoted_braces (nested + 1))
      rw [tokenize_of_longer_rest hfactors hne (by rwa [String.toList_ofList])] at htokens
      cases htokens
  · intro hquote
    rw [hquote] at hinner
    exact ⟨_, completedBy_of_lexeme hfactors hne (lexeme_of_unclosed hinner)⟩

/-- Two blocks are open, and no quote. -/
theorem completedBy_two_braces :
    tokenize "\x7ba\x7b" = .error ⟨.unterminatedAction 2, .start⟩ ∧
      ∃ tokens, CompletedBy "\x7ba\x7b" (List.replicate 2 '}') tokens .actionBlock .start := by
  have hplain : Body ['a'] := .plain (by decide) (by decide) .nil
  have hopen : Unclosed 1 none "a\x7b".toList := .block (.body hplain) .nil
  have hfactors : Piece.Factors "\x7ba\x7b".toList [] [] "\x7ba\x7b".toList :=
    ⟨by decide, .nil, by simp⟩
  have herror : tokenize "\x7ba\x7b" = .error ⟨.unterminatedAction 2, .start⟩ :=
    tokenize_of_malformed hfactors (malformed_of_unclosed hopen)
  obtain ⟨front, inner, htext, hposition, hcompleted⟩ := completedBy_braces_iff herror
  obtain rfl : front = [] :=
    utf8Length_eq_zero_iff.mp (congrArg Position.offset hposition).symm
  obtain rfl : "a\x7b".toList = inner := (List.cons.inj htext).2
  exact ⟨herror, hcompleted.mpr (by decide)⟩

/-- The brace that is asked for goes into the quote, and the block is as open as before. -/
theorem not_completedBy_quoted_brace :
    tokenize "\x7b'" = .error ⟨.unterminatedAction 1, .start⟩ ∧
      LexError.suggestions ⟨.unterminatedAction 1, .start⟩ =
        ["Add 1 closing brace(s) to balance the action block"] ∧
      tokenize ("\x7b'" ++ "\x7d") = .error ⟨.unterminatedAction 1, .start⟩ := by
  have hopen : Unclosed 0 (some '\'') ['\''] := .quoted (.body .nil) (by decide) (by simp)
  have hfactors : Piece.Factors "\x7b'".toList [] [] "\x7b'".toList := ⟨by decide, .nil, by simp⟩
  refine ⟨tokenize_of_malformed hfactors (malformed_of_unclosed hopen), by decide, ?_⟩
  exact tokenize_of_longer_rest hfactors (by decide)
    (malformed_of_unclosed (hopen.quoted_braces 1))

end GrammarTokens
