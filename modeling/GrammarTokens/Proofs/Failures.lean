import GrammarTokens.Proofs.Decoding
import GrammarTokens.Proofs.Drawing

/-!
# Sources that fail

A source that fails behind a text is not taken for one that ends there. The lexer returns the
tokens that are complete without a look behind the text, and reports the failure unless it meets
an unexpected character first.
-/

namespace GrammarTokens

/-- Events whose bytes decode to the text and then break off with a failure. -/
def ReadEvent.BreaksOff (script : List ReadEvent) (text : List Char) (failure : ReadFailure) :
    Prop :=
  ∃ rest ending, HandsOut script (utf8Bytes text ++ rest) ending ∧
    Utf8.Breaks rest ending failure

theorem delivers_or_breaksOff (script : List ReadEvent) :
    (∃ text, ReadEvent.Delivers script (utf8Bytes text)) ∨
      ∃ text failure, ReadEvent.BreaksOff script text failure := by
  obtain ⟨bytes, ending, hscript⟩ := exists_handsOut script
  obtain ⟨text, rest, rfl, hrest⟩ := exists_text_and_rest bytes
  obtain ⟨rfl, rfl⟩ | ⟨failure, hbreaks⟩ := Utf8.exists_breaks hrest ending
  · rw [List.append_nil] at hscript
    exact .inl ⟨text, delivers_of_handsOut hscript⟩
  · exact .inr ⟨text, failure, rest, ending, hscript, hbreaks⟩

lemma yields_of_breaksOff {script : List ReadEvent} {text : List Char} {failure : ReadFailure}
    {capacity : Nat} (hcapacity : capacity ≠ 0) (h : ReadEvent.BreaksOff script text failure) :
    CharFeed.Yields (ByteReader.buffered capacity script) text (.failed failure) := by
  obtain ⟨rest, ending, hhands, hbreaks⟩ := h
  have hroom : some capacity ≠ some 0 := by simpa using hcapacity
  have hreader : (ByteReader.buffered capacity script).HandsOut (utf8Bytes text ++ rest) ending :=
    ⟨hroom, _, rfl, hhands⟩
  exact ByteReader.yields_of_breaks hreader hbreaks

theorem breaksOff_unique {script : List ReadEvent} {text text' : List Char}
    {failure failure' : ReadFailure} (h : ReadEvent.BreaksOff script text failure)
    (h' : ReadEvent.BreaksOff script text' failure') : text = text' ∧ failure = failure' := by
  have hyields := yields_of_breaksOff Nat.one_ne_zero h
  have hyields' := yields_of_breaksOff Nat.one_ne_zero h'
  obtain ⟨rfl, hending⟩ := yields_unique hyields hyields'
  exact ⟨rfl, Ending.failed.inj hending⟩

/-- Whether a token ends where the text does and would go on if the text did. -/
def Token.isOpenAt (token : Token) (text : String) : Bool :=
  token.span.stop.offset == text.utf8ByteSize && token.kind.runsOn token.text.toList

/-- The tokens of a text that are sure before it is known what follows the text. -/
def sureTokens (text : String) (tokens : List Token) : List Token :=
  if tokens.getLast?.any (·.isOpenAt text) then tokens.dropLast else tokens

/-- The error of a lexer whose source fails behind the text, by the last answer that it would give
if the text ended there. -/
def errorBehind (text : String) (failure : ReadFailure) (last : Except LexError Token) : LexError :=
  match last with
  | .ok _ => ⟨.readFailed failure, .after text.toList⟩
  | .error e =>
    match e.cause with
    | .unexpectedCharacter c =>
      if c = '/' ∧ e.position.offset + 1 = text.utf8ByteSize then
        ⟨.readFailed failure, .after text.toList⟩
      else e
    | _ => ⟨.readFailed failure, .after text.toList⟩

lemma runsOn_text {p : Piece} : p.kind.runsOn p.text.toList = p.kind.runsOn p.lexeme := by
  unfold Piece.text
  cases p.kind with
  | actionBlock => rfl
  | _ => simp only [String.toList_ofList]

lemma isOpenAt_token {text : String} {p : Piece} {before after : List Char}
    (htext : text.toList = before ++ p.blanks ++ p.lexeme ++ after) :
    (p.token before).isOpenAt text ↔ after = [] ∧ p.kind.runsOn p.lexeme := by
  have hsize : text.utf8ByteSize =
      utf8Length (before ++ p.blanks ++ p.lexeme) + utf8Length after := by
    rw [← utf8Length_toList, htext, utf8Length_append]
  rw [← utf8Length_eq_zero_iff]
  simp [Token.isOpenAt, Piece.token, Position.after, runsOn_text, hsize]

lemma tokens_concat (before : List Char) (front : List Piece) (p : Piece) :
    Piece.tokens before (front ++ [p]) =
      Piece.tokens before front ++ [p.token (before ++ Piece.source front)] := by
  rw [Piece.tokens_append]
  rfl

lemma sureTokens_all {text : String} {pieces : List Piece} {after : List Char}
    (htext : text.toList = Piece.source pieces ++ after)
    (hlast : after = [] → ∀ p ∈ pieces.getLast?, p.kind.runsOn p.lexeme = false) :
    sureTokens text (Piece.tokens [] pieces) = Piece.tokens [] pieces := by
  rcases List.eq_nil_or_concat pieces with rfl | ⟨front, p, rfl⟩
  · rfl
  · rw [List.concat_eq_append] at *
    rw [Piece.source_append, Piece.source_cons, Piece.source_nil, List.append_nil,
      ← List.append_assoc] at htext
    have hopen : (p.token (Piece.source front)).isOpenAt text = false := by
      rw [Bool.eq_false_iff, ne_eq, isOpenAt_token htext]
      rintro ⟨hnil, hruns⟩
      have hstops := hlast hnil p (by simp)
      rw [hruns] at hstops
      cases hstops
    simp [sureTokens, tokens_concat, hopen]

lemma sureTokens_front {text : String} {front : List Piece} {p : Piece}
    (htext : text.toList = Piece.source (front ++ [p])) (hlast : p.kind.runsOn p.lexeme) :
    sureTokens text (Piece.tokens [] (front ++ [p])) = Piece.tokens [] front := by
  have hsplit : text.toList = Piece.source front ++ p.blanks ++ p.lexeme ++ [] := by
    rw [htext, Piece.source_append, Piece.source_cons]
    simp
  have hopen : (p.token (Piece.source front)).isOpenAt text :=
    (isOpenAt_token hsplit).mpr ⟨rfl, hlast⟩
  simp [sureTokens, tokens_concat, hopen]

/-- The failure takes the place of what is wrong with the text, unless an unexpected character
shows before it. -/
lemma errorBehind_of_malformed {text : String} {before rest : List Char} {cause : LexError.Cause}
    (failure : ReadFailure) (htext : text.toList = before ++ rest) (hrest : Malformed rest cause) :
    (cause.ShowsAtEnd rest → errorBehind text failure (.error ⟨cause, .after before⟩) =
        ⟨.readFailed failure, .after text.toList⟩) ∧
      (¬ cause.ShowsAtEnd rest →
        errorBehind text failure (.error ⟨cause, .after before⟩) = ⟨cause, .after before⟩) := by
  unfold LexError.Cause.ShowsAtEnd
  have hsize : text.utf8ByteSize = utf8Length before + utf8Length rest := by
    rw [← utf8Length_toList, htext, utf8Length_append]
  cases hrest with
  | unterminatedLiteral | unterminatedComment | unterminatedAction => simp [errorBehind]
  | @loneSlash rest hstar =>
    have hslash : '/'.utf8Size = 1 := rfl
    have hend : (Position.after before).offset + 1 = text.utf8ByteSize ↔ rest = [] := by
      rw [← utf8Length_eq_zero_iff, hsize, utf8Length_cons, hslash]
      simp only [Position.after]
      omega
    simp [errorBehind, hend]
  | @unexpectedCharacter c rest _ _ _ _ hspecial =>
    have hc : c ≠ '/' := by
      rintro rfl
      simp at hspecial
    simp [errorBehind, hc]

lemma errorBehind_cases (text : String) (failure : ReadFailure) (last : Except LexError Token) :
    (∃ c, (errorBehind text failure last).cause = .unexpectedCharacter c) ∨
      errorBehind text failure last = ⟨.readFailed failure, .after text.toList⟩ := by
  unfold errorBehind
  split
  · exact .inr rfl
  · split
    · next e c hcause =>
      split
      · exact .inr rfl
      · exact .inl ⟨c, hcause⟩
    · exact .inr rfl

namespace Lexer

variable {ρ : Type} [CharFeed ρ]

theorem finishes_behind_pieces {l : Lexer ρ} {text : String} {before blanks rest : List Char}
    {last : Except LexError Token} {failure : ReadFailure}
    (h : l.StandsAt before (blanks ++ rest) (.failed failure)) (hoptions : l.options = {})
    (htext : text.toList = before ++ blanks ++ rest) (hblanks : ∀ c ∈ blanks, isBlank c)
    (hlast : AnswerBehind (before ++ blanks) rest last) :
    ∃ final, l.Finishes (.error (errorBehind text failure last)) final := by
  have hroom (number size : Nat) : l.options.refusal? number size = none := by rw [hoptions]; rfl
  cases hlast with
  | ended =>
    rw [List.append_nil] at h htext
    have hfinal := finishes_of_failed_blanks h hblanks
    rw [← htext] at hfinal
    exact hfinal
  | @stuck _ cause hcause =>
    obtain ⟨hhidden, hshown⟩ := errorBehind_of_malformed failure htext hcause
    by_cases hmet : cause.ShowsAtEnd rest
    · rw [hhidden hmet]
      obtain ⟨c, hhead, hcase⟩ := read_of_malformed hcause
      obtain ⟨cs, rfl⟩ := List.head?_eq_some_iff.mp hhead
      rcases hcase with ⟨-, rfl, hc⟩ | ⟨first, hfirst, -, -, hstop, -⟩
      · exact absurd (List.cons.inj (hmet ⟨c, rfl⟩)).1 hc
      · obtain ⟨state, hstate⟩ := hstop.mpr hmet
        rw [htext]
        exact finishes_of_failed_reading h hblanks hfirst hstate (hroom _ _)
    · rw [hshown hmet]
      exact finishes_of_malformed h hblanks hcause (fun hend => absurd hend hmet) (hroom _ _)

/-- The failure takes the last piece of a text that runs on to its end. -/
theorem finishes_in_piece {l : Lexer ρ} {before : List Char} {p : Piece} {failure : ReadFailure}
    (h : l.StandsAt before (p.blanks ++ p.lexeme) (.failed failure)) (hoptions : l.options = {})
    (hblanks : ∀ c ∈ p.blanks, isBlank c) (hlexeme : Lexeme p.kind p.lexeme [])
    (hruns : p.kind.runsOn p.lexeme) :
    ∃ final, l.Finishes
      (.error ⟨.readFailed failure, .after (before ++ p.blanks ++ p.lexeme)⟩) final := by
  obtain ⟨c, first, text, stop, hhead, hfirst, -, hread, -, -, hstop⟩ := read_of_lexeme hlexeme
  obtain ⟨cs, hcs⟩ := List.head?_eq_some_iff.mp hhead
  obtain ⟨state, rfl⟩ := hstop.mpr ⟨rfl, hruns⟩
  rw [List.append_nil] at hread
  rw [hcs] at h hread ⊢
  exact finishes_of_failed_reading h hblanks hfirst (congrArg (·.stop) hread)
    (by rw [hoptions]; rfl)

theorem gives_before_last_piece {l : Lexer ρ} {text : String} {front : List Piece} {p : Piece}
    {failure : ReadFailure} (h : l.StandsAt [] text.toList (.failed failure))
    (hoptions : l.options = {}) (htext : text.toList = Piece.source (front ++ [p]))
    (hpieces : Piece.InContext (front ++ [p]) []) (hruns : p.kind.runsOn p.lexeme) :
    l.Gives (Piece.tokens [] front) (.error ⟨.readFailed failure, .after text.toList⟩) := by
  obtain ⟨hfront, hback⟩ := hpieces.append
  rw [Piece.source_append] at htext
  rw [Piece.source_cons, Piece.source_nil, List.append_nil] at htext hfront
  rw [List.append_nil] at hfront
  cases hback with
  | cons hblanks hlexeme _ =>
    obtain ⟨c, cs, hcs, -⟩ := exists_first_of_lexeme hlexeme
    rw [htext] at h
    obtain ⟨m, hpasses, hm, hsame, -⟩ := passes_pieces h hfront
      (fun hempty => by simp [hcs] at hempty) (fun _ _ _ => by rw [hoptions]; rfl)
    obtain ⟨final, hfinal⟩ := finishes_in_piece hm (hsame.trans hoptions) hblanks hlexeme hruns
    rw [htext, ← List.append_assoc]
    exact gives_of_finishes hpasses hfinal

theorem gives_of_failed {l : Lexer ρ} {text : String} {pieces : List Piece}
    {blanks rest : List Char} {last : Except LexError Token} {failure : ReadFailure}
    (h : l.StandsAt [] text.toList (.failed failure)) (hoptions : l.options = {})
    (hfactors : Piece.Factors text.toList pieces blanks rest)
    (hlast : AnswerBehind (Piece.source pieces ++ blanks) rest last) :
    l.Gives (sureTokens text (Piece.tokens [] pieces))
      (.error (errorBehind text failure last)) := by
  have htext : text.toList = Piece.source pieces ++ (blanks ++ rest) := by
    rw [hfactors.source_eq, List.append_assoc]
  have hpieces := hfactors.lexemes
  by_cases htaken : blanks ++ rest = [] ∧ ∃ p ∈ pieces.getLast?, p.kind.runsOn p.lexeme
  · -- The last piece asks for what follows it, and meets the failure.
    obtain ⟨hnil, p, hp, hruns⟩ := htaken
    obtain ⟨front, rfl⟩ := List.getLast?_eq_some_iff.mp hp
    rw [hnil, List.append_nil] at htext
    rw [hnil] at hpieces
    obtain ⟨-, rfl⟩ := List.append_eq_nil_iff.mp hnil
    rw [sureTokens_front htext hruns]
    cases hlast with
    | ended => exact gives_before_last_piece h hoptions htext hpieces hruns
    | stuck hcause => cases hcause
  · have hall : blanks ++ rest = [] → ∀ p ∈ pieces.getLast?, p.kind.runsOn p.lexeme = false := by
      intro hnil p hp
      rw [Bool.eq_false_iff]
      exact fun hruns => htaken ⟨hnil, p, hp, hruns⟩
    rw [sureTokens_all htext hall]
    rw [htext] at h
    obtain ⟨m, hpasses, hm, hsame, -⟩ := passes_pieces h hpieces
      (fun hnil p hp hruns => absurd ⟨hnil, p, hp, hruns⟩ htaken)
      (fun _ _ _ => by rw [hoptions]; rfl)
    obtain ⟨final, hfinal⟩ := finishes_behind_pieces hm (hsame.trans hoptions) hfactors.source_eq
      hfactors.blank hlast
    exact gives_of_finishes hpasses hfinal

/-- If the bytes of a device decode to a text and then break off, the lexer returns the tokens that
a lexer over the text returns, but for a last one that might go on. Then it repeats that lexer's
error if this is an unexpected character that shows within the text, and else the failure, at the
end of the text. It does not return the mark of the end, and has no other errors. -/
theorem gives_of_breaksOff {script : List ReadEvent} {text : String} {failure : ReadFailure}
    (hscript : ReadEvent.BreaksOff script text.toList failure) :
    ∃ l tokens last, ofReader? script = some l ∧ (ofText text).Gives tokens last ∧
      l.Gives (sureTokens text tokens) (.error (errorBehind text failure last)) ∧
      ∀ n, (∀ token, .ok token ∈ answers nextToken n l → token.isEndOfStream = false) ∧
        ∀ e, .error e ∈ answers nextToken n l →
          (∃ c, e.cause = .unexpectedCharacter c) ∨
            e = ⟨.readFailed failure, .after text.toList⟩ := by
  obtain ⟨pieces, blanks, stuck, hfactors, hstuck⟩ := Piece.exists_factors text.toList
  obtain ⟨last, hlast⟩ := exists_answerBehind hstuck (Piece.source pieces ++ blanks)
  let reader := ByteReader.buffered ({} : Options).bufferSize script
  have hstands : (ofSource (.ofFeed reader)).StandsAt [] text.toList (.failed failure) :=
    ⟨rfl, rfl, yields_of_breaksOff (by decide) hscript⟩
  have hgives := gives_of_failed hstands rfl hfactors hlast
  obtain ⟨m, final, hpasses, hfinal⟩ := run_of_factors hfactors hlast
  refine ⟨_, _, last, rfl, gives_of_finishes hpasses hfinal, hgives, ?_⟩
  intro n
  constructor
  · intro token htoken
    rcases hgives.mem_answers htoken with ⟨t, heq, ht⟩ | ⟨-, heq⟩
    · cases heq
      exact ht
    · cases heq
  · intro e he
    rcases hgives.mem_answers he with ⟨t, heq, -⟩ | ⟨-, heq⟩
    · cases heq
    · cases heq
      exact errorBehind_cases text failure last

/-- A connection that is lost within an identifier. -/
theorem gives_before_lost_connection :
    ReadEvent.BreaksOff [.data [0x3A, 0x20, 0x62], .failed ⟨.other "ConnectionReset", "lost"⟩]
      ": b".toList ⟨.other "ConnectionReset", "lost"⟩ ∧
    ∃ l, ofReader? [.data [0x3A, 0x20, 0x62], .failed ⟨.other "ConnectionReset", "lost"⟩] = some l ∧
      l.Gives [⟨.symbol, ":", ⟨⟨1, 1, 0⟩, ⟨1, 2, 1⟩⟩⟩]
        (.error ⟨.readFailed ⟨.other "ConnectionReset", "lost"⟩, ⟨1, 4, 3⟩⟩) := by
  have hbytes : [0x3A, 0x20, 0x62] ++ [] = utf8Bytes ": b".toList ++ [] := by decide
  have hhands : ReadEvent.HandsOut
      [.data [0x3A, 0x20, 0x62], .failed ⟨.other "ConnectionReset", "lost"⟩]
      (utf8Bytes ": b".toList ++ []) (.failed ⟨.other "ConnectionReset", "lost"⟩) := by
    rw [← hbytes]
    exact .data (by decide) (.failed rfl)
  have hscript : ReadEvent.BreaksOff
      [.data [0x3A, 0x20, 0x62], .failed ⟨.other "ConnectionReset", "lost"⟩] ": b".toList
      ⟨.other "ConnectionReset", "lost"⟩ := ⟨[], _, hhands, .failed⟩
  have hpieces : Piece.InContext [⟨[], .symbol, [':']⟩, ⟨[' '], .identifier, ['b']⟩] [] :=
    .cons (by simp) (.symbol (by decide))
      (.cons (by simp [isBlank]) (.identifier (by decide) (by simp) (by simp)) .nil)
  have hfactors : Piece.Factors ": b".toList
      [⟨[], .symbol, [':']⟩, ⟨[' '], .identifier, ['b']⟩] [] [] :=
    ⟨by decide, hpieces, by simp⟩
  obtain ⟨m, final, hpasses, hfinal⟩ := run_of_factors hfactors .ended
  obtain ⟨l, tokens, last, hl, hgives, hsure, -⟩ := gives_of_breaksOff hscript
  obtain ⟨rfl, rfl⟩ := hgives.unique (gives_of_finishes hpasses hfinal)
  exact ⟨hscript, l, hl, hsure⟩

end Lexer

end GrammarTokens
