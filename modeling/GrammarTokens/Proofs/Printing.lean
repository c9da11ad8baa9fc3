import GrammarTokens.Proofs.Tokenizing

/-!
# Printing tokens

Tokens are printed by writing down what they were read from, with blanks between them or none. Only
two identifiers need a blank between them, and only at the end of the text a line comment can do
without its newline. Tokenizing gives back the kinds and texts that were printed, and what it
returns can always be printed.
-/

namespace GrammarTokens

/-- What a token says, wherever it stands. -/
def Token.content (t : Token) : Token.Kind × String := (t.kind, t.text)

def Piece.content (p : Piece) : Token.Kind × String := (p.kind, p.text)

/-- Kinds with texts that can be printed in this order: each is a complete lexeme, and a line
comment that is not the last one ends its line. -/
structure Printable (pairs : List (Token.Kind × String)) : Prop where
  complete : ∀ pair ∈ pairs, Lexeme pair.1 (pair.1.raw pair.2) []
  ends_line : ∀ pair ∈ pairs.dropLast, pair.1 = .lineComment →
    pair.2.toList.getLast? = some '\n'

/-- The texts that print kinds with texts: what stands in the source for each, with blanks in
between, of which there may be none except between two identifiers. -/
inductive Prints : List (Token.Kind × String) → List Char → Prop where
  | nil : Prints [] []
  | last (pair : Token.Kind × String) : Prints [pair] (pair.1.raw pair.2)
  | cons (pair : Token.Kind × String) {next : Token.Kind × String}
    {pairs : List (Token.Kind × String)} {blanks text : List Char} :
    (∀ c ∈ blanks, isBlank c) →
    (pair.1 = .identifier → next.1 = .identifier → blanks ≠ []) →
    Prints (next :: pairs) text →
    Prints (pair :: next :: pairs) (pair.1.raw pair.2 ++ blanks ++ text)

def spaced (pairs : List (Token.Kind × String)) : String :=
  String.ofList ([' '].intercalate (pairs.map fun pair => pair.1.raw pair.2))

lemma prints_spaced (pairs : List (Token.Kind × String)) : Prints pairs (spaced pairs).toList := by
  rw [spaced, String.toList_ofList]
  induction pairs with
  | nil => exact .nil
  | cons pair pairs ih =>
    cases pairs with
    | nil => simpa using Prints.last pair
    | cons next pairs =>
      rw [List.map_cons, List.map_cons, List.intercalate_cons_cons]
      exact .cons pair (by simp [isBlank]) (by simp) ih

/-- Only an identifier begins with a character that could go on with an identifier. -/
lemma first_of_lexeme {kind : Token.Kind} {lexeme after : List Char} (h : Lexeme kind lexeme after)
    (hkind : kind ≠ .identifier) :
    ∃ c cs, lexeme = c :: cs ∧ isIdentifierContinue c = false := by
  cases h with
  | identifier => exact absurd rfl hkind
  | symbol hsymbol =>
    refine ⟨_, _, rfl, ?_⟩
    rcases isSymbol_iff.mp hsymbol with rfl | rfl | rfl | rfl | rfl | rfl <;> decide
  | quotedLiteral hquote =>
    refine ⟨_, _, rfl, ?_⟩
    rcases isQuote_iff.mp hquote with rfl | rfl <;> decide
  | lineComment => exact ⟨_, _, rfl, by decide⟩
  | lastLineComment => exact ⟨_, _, rfl, by decide⟩
  | blockComment => exact ⟨_, _, rfl, by decide⟩
  | actionBlock => exact ⟨_, _, rfl, by decide⟩

lemma not_continue_of_identifier {kind : Token.Kind} {lexeme after : List Char}
    (h : Lexeme kind lexeme after) (hkind : kind = .identifier) :
    ∀ c ∈ after.head?, isIdentifierContinue c = false := by
  cases h with
  | identifier _ _ hafter => exact hafter
  | _ => cases hkind

lemma ends_line_of_lineComment {kind : Token.Kind} {lexeme after : List Char}
    (h : Lexeme kind lexeme after) (hkind : kind = .lineComment) (hne : after ≠ []) :
    lexeme.getLast? = some '\n' := by
  cases h with
  | lineComment => exact List.getLast?_concat
  | lastLineComment => exact absurd rfl hne
  | _ => cases hkind

/-- A lexeme is one in front of any text that does not go on with it. -/
lemma lexeme_before {kind : Token.Kind} {lexeme after after' : List Char}
    (h : Lexeme kind lexeme after)
    (hidentifier : kind = .identifier → ∀ c ∈ after'.head?, isIdentifierContinue c = false)
    (hline : kind = .lineComment → after' ≠ [] → lexeme.getLast? = some '\n') :
    Lexeme kind lexeme after' := by
  cases h with
  | identifier hstart hcs _ => exact .identifier hstart hcs (hidentifier rfl)
  | symbol hsymbol => exact .symbol hsymbol
  | quotedLiteral hquote hbody => exact .quotedLiteral hquote hbody
  | lineComment hbody => exact .lineComment hbody
  | lastLineComment hbody =>
    by_cases hnil : after' = []
    · subst hnil
      exact .lastLineComment hbody
    · have hlast := List.mem_of_getLast? (hline rfl hnil)
      simp [hbody] at hlast
  | blockComment hbody => exact .blockComment hbody
  | actionBlock hopen hclosed => exact .actionBlock hopen hclosed

lemma lexeme_alone {kind : Token.Kind} {lexeme after : List Char} (h : Lexeme kind lexeme after) :
    Lexeme kind lexeme [] :=
  lexeme_before h (by simp) (fun _ hne => absurd rfl hne)

lemma Printable.tail {pair : Token.Kind × String} {pairs : List (Token.Kind × String)}
    (h : Printable (pair :: pairs)) : Printable pairs where
  complete q hq := h.complete q (List.mem_cons_of_mem pair hq)
  ends_line q hq := by
    cases pairs with
    | nil => cases hq
    | cons next pairs => exact h.ends_line q (List.mem_cons_of_mem pair hq)

/-- Where identifiers are kept apart, what follows an identifier does not go on with it. -/
lemma not_continue_behind {next : Token.Kind × String} {pairs : List (Token.Kind × String)}
    {blanks text : List Char} (hblanks : ∀ c ∈ blanks, isBlank c)
    (happart : next.1 = .identifier → blanks ≠ []) (hnext : Lexeme next.1 (next.1.raw next.2) [])
    (hprints : Prints (next :: pairs) text) :
    ∀ c ∈ (blanks ++ text).head?, isIdentifierContinue c = false := by
  intro c hc
  cases blanks with
  | cons b blanks =>
    obtain rfl : b = c := by simpa using hc
    exact not_isIdentifierContinue_of_isBlank (hblanks b List.mem_cons_self)
  | nil =>
    obtain ⟨d, cs, hraw, hd⟩ := first_of_lexeme hnext (fun hkind => happart hkind rfl)
    have hhead : text.head? = some d := by
      cases hprints with
      | last => rw [hraw]; rfl
      | cons => rw [hraw]; rfl
    rw [List.nil_append, hhead] at hc
    obtain rfl : d = c := by simpa using hc
    exact hd

/-- A text that prints kinds and texts is cut into pieces with these kinds and texts. -/
theorem exists_pieces_of_prints {pairs : List (Token.Kind × String)} {text : List Char}
    (h : Prints pairs text) (hpairs : Printable pairs) {blanks : List Char}
    (hblanks : ∀ c ∈ blanks, isBlank c) (hne : pairs ≠ []) :
    ∃ pieces, Piece.source pieces = blanks ++ text ∧ Piece.InContext pieces [] ∧
      pieces.map Piece.content = pairs := by
  -- The blanks behind a lexeme are those in front of the next one.
  induction h generalizing blanks with
  | nil => exact absurd rfl hne
  | last pair =>
    let p : Piece := ⟨blanks, pair.1, pair.1.raw pair.2⟩
    have hcontent : p.content = pair := by
      rw [Piece.content, Piece.text_of_raw rfl]
    exact ⟨[p], by simp [p], .cons hblanks (hpairs.complete pair (by simp)) .nil,
      by rw [List.map_singleton, hcontent]⟩
  | @cons pair next pairs between text hbetween happart hprints ih =>
    let p : Piece := ⟨blanks, pair.1, pair.1.raw pair.2⟩
    have hcontent : p.content = pair := by
      rw [Piece.content, Piece.text_of_raw rfl]
    obtain ⟨pieces, hsource, hpieces, hmap⟩ :=
      ih hpairs.tail hbetween (List.cons_ne_nil next pairs)
    have hnext := hpairs.complete next (by simp)
    have hlexeme : Lexeme pair.1 (pair.1.raw pair.2) (Piece.source pieces ++ []) := by
      rw [List.append_nil, hsource]
      refine lexeme_before (hpairs.complete pair (by simp)) ?_ ?_
      · intro hkind
        exact not_continue_behind hbetween (happart hkind) hnext hprints
      · intro hkind _
        have hline := hpairs.ends_line pair (by simp) hkind
        rw [hkind]
        exact hline
    exact ⟨p :: pieces, by simp [p, hsource], .cons hblanks hlexeme hpieces,
      by rw [List.map_cons, hcontent, hmap]⟩

lemma content_tokens (before : List Char) (pieces : List Piece) :
    (Piece.tokens before pieces).map Token.content = pieces.map Piece.content := by
  induction pieces generalizing before with
  | nil => rfl
  | cons p pieces ih =>
    rw [Piece.tokens_cons, List.map_cons, List.map_cons, ih]
    rfl

theorem tokenize_of_prints {pairs : List (Token.Kind × String)} {text : String}
    (h : Prints pairs text.toList) (hpairs : Printable pairs) :
    (tokenize text).map (·.map Token.content) = .ok pairs := by
  obtain ⟨pieces, hfactors, hmap⟩ : ∃ pieces,
      Piece.Factors text.toList pieces [] [] ∧ pieces.map Piece.content = pairs := by
    by_cases hne : pairs = []
    · subst hne
      cases htext : text.toList with
      | nil => exact ⟨[], ⟨rfl, .nil, by simp⟩, rfl⟩
      | cons => rw [htext] at h; cases h
    · obtain ⟨pieces, hsource, hpieces, hmap⟩ :=
        @exists_pieces_of_prints pairs text.toList h hpairs [] (by simp) hne
      exact ⟨pieces, ⟨by simp [hsource], hpieces, by simp⟩, hmap⟩
  rw [tokenize_of_factors hfactors, Except.map, content_tokens, hmap]

lemma Piece.ends_line_of_inContext {p : Piece} {pieces : List Piece} {after : List Char}
    (hlexeme : Lexeme p.kind p.lexeme (Piece.source pieces ++ after))
    (hpieces : Piece.InContext pieces after) (hne : pieces ≠ []) (hkind : p.kind = .lineComment) :
    p.text.toList.getLast? = some '\n' := by
  have htext : p.text.toList = p.lexeme := by
    rw [Piece.text, hkind]
    exact String.toList_ofList
  rw [htext]
  refine ends_line_of_lineComment hlexeme hkind ?_
  intro hfollowing
  exact hne (hpieces.eq_nil (List.append_eq_nil_iff.mp hfollowing).1)

theorem printable_of_inContext {pieces : List Piece} {after : List Char}
    (h : Piece.InContext pieces after) : Printable (pieces.map Piece.content) := by
  induction h with
  | nil => exact ⟨by simp, by simp⟩
  | @cons p pieces after hblanks hlexeme hpieces ih =>
    constructor
    · rintro pair hpair
      rcases List.mem_cons.mp hpair with rfl | hpair
      · have hraw : p.kind.raw p.text = p.lexeme := @Piece.raw_token p [] _ hlexeme
        rw [Piece.content, hraw]
        exact lexeme_alone hlexeme
      · exact ih.complete pair hpair
    · intro pair hpair hkind
      cases pieces with
      | nil => cases hpair
      | cons next pieces =>
        rcases List.mem_cons.mp hpair with rfl | hpair
        · exact Piece.ends_line_of_inContext hlexeme hpieces (List.cons_ne_nil _ _) hkind
        · exact ih.ends_line pair hpair hkind

/-- Tokenizing undoes printing, whatever blanks are printed between the tokens. What it returns
can be printed, and comes back from the text printed with single spaces. -/
theorem tokenize_print :
    (∀ pairs (text : String), Printable pairs → Prints pairs text.toList →
      (tokenize text).map (·.map Token.content) = .ok pairs) ∧
    ∀ text tokens, tokenize text = .ok tokens →
      Printable (tokens.map Token.content) ∧
      (tokenize (spaced (tokens.map Token.content))).map (·.map Token.content) =
        .ok (tokens.map Token.content) := by
  constructor
  · intro pairs text hpairs hprints
    exact tokenize_of_prints hprints hpairs
  · intro text tokens h
    obtain ⟨pieces, blanks, hfactors, rfl⟩ := factors_of_tokenize h
    rw [content_tokens]
    have hprintable := printable_of_inContext hfactors.lexemes
    exact ⟨hprintable, tokenize_of_prints (prints_spaced _) hprintable⟩

/-- Glued to a literal, a brace and a comment, the only identifier needs no blanks, and the comment
ends the text. -/
theorem tokenize_glued :
    (tokenize "a'b'\x7b\x7d#").map (·.map Token.content) = .ok [(.identifier, "a"),
      (.quotedLiteral, "'b'"), (.actionBlock, ""), (.lineComment, "#")] := by
  refine tokenize_print.1 _ _ ⟨?_, ?_⟩ ?_
  · intro pair hpair
    simp only [List.mem_cons, List.not_mem_nil, or_false] at hpair
    rcases hpair with rfl | rfl | rfl | rfl
    · exact .identifier (by decide) (by simp) (by simp)
    · exact @Lexeme.quotedLiteral '\'' ['b'] [] (by decide) (by decide)
    · exact @Lexeme.actionBlock [] [] (by simp [braceDepth]) (by decide)
    · exact .lastLineComment (by simp)
  · simp
  · exact @Prints.cons _ _ _ [] _ (by simp) (by simp)
      (@Prints.cons _ _ _ [] _ (by simp) (by simp)
        (@Prints.cons _ _ _ [] _ (by simp) (by simp) (.last _)))

end GrammarTokens
