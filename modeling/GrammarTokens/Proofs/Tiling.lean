import GrammarTokens.Proofs.Drawing
import Mathlib.Data.String.Basic

/-!
# Spans that tile a text

The tokens returned so far, at any time and under any bounds, cover the text from its beginning
to some place but for blanks, each from one end of its span to the other. An error stands at the
first character behind them that is not blank.
-/

namespace GrammarTokens

/-- Characters behind the text `before` that are blanks and tokens in turn, each token with the
positions of its two ends for its span. -/
inductive Tiles : List Char → List Token → List Char → Prop where
  | nil {before : List Char} : Tiles before [] []
  | cons {before blanks covered : List Char} {token : Token} {tokens : List Token} :
    (∀ c ∈ blanks, isBlank c) → token.raw ≠ [] →
    token.span = ⟨.after (before ++ blanks), .after (before ++ blanks ++ token.raw)⟩ →
    Tiles (before ++ blanks ++ token.raw) tokens covered →
    Tiles before (token :: tokens) (blanks ++ token.raw ++ covered)

/-- The part of a text from the first byte of a span up to the one behind it. -/
def Span.slice (span : Span) (text : String) : String :=
  String.Pos.Raw.extract text ⟨span.start.offset⟩ ⟨span.stop.offset⟩

lemma utf8Len_eq_utf8Length (cs : List Char) : String.utf8Len cs = utf8Length cs := by
  rw [← String.utf8ByteSize_ofList, utf8ByteSize_ofList]

lemma slice_after {text : String} {front middle back : List Char}
    (h : text.toList = front ++ middle ++ back) :
    Span.slice ⟨.after front, .after (front ++ middle)⟩ text = String.ofList middle := by
  have hslice := String.extract_of_valid front middle back
  rw [← h, String.ofList_toList, utf8Len_eq_utf8Length, utf8Len_eq_utf8Length,
    ← utf8Length_append] at hslice
  exact hslice

lemma raw_eq_nil_iff {token : Token} :
    token.raw = [] ↔ token.kind ≠ .actionBlock ∧ token.text = "" := by
  cases hkind : token.kind <;> simp [Token.raw, Token.Kind.raw, hkind]

namespace Tiles

variable {before covered : List Char} {tokens : List Token}

lemma of_mem (h : Tiles before tokens covered) {token : Token} (htoken : token ∈ tokens) :
    ∃ front back, covered = front ++ token.raw ++ back ∧ token.raw ≠ [] ∧
      token.span = ⟨.after (before ++ front), .after (before ++ front ++ token.raw)⟩ := by
  induction h with
  | nil => cases htoken
  | @cons before blanks covered t tokens hblanks hraw hspan _ ih =>
    rcases List.mem_cons.mp htoken with rfl | htoken
    · exact ⟨blanks, covered, rfl, hraw, hspan⟩
    · obtain ⟨front, back, rfl, htraw, htspan⟩ := ih htoken
      refine ⟨blanks ++ t.raw ++ front, back, by simp, htraw, ?_⟩
      simpa using htspan

lemma start_le (h : Tiles before tokens covered) {token : Token} (htoken : token ∈ tokens) :
    utf8Length before ≤ token.span.start.offset := by
  obtain ⟨front, back, -, -, hspan⟩ := h.of_mem htoken
  rw [hspan, Position.after, utf8Length_append]
  exact Nat.le_add_right _ _

lemma span_not_empty (h : Tiles before tokens covered) {token : Token} (htoken : token ∈ tokens) :
    token.span.start.offset < token.span.stop.offset := by
  obtain ⟨front, back, -, hraw, hspan⟩ := h.of_mem htoken
  have hpos := Nat.pos_of_ne_zero fun hzero => hraw (utf8Length_eq_zero_iff.mp hzero)
  simp only [hspan, Position.after, utf8Length_append]
  omega

lemma pairwise_spans (h : Tiles before tokens covered) :
    tokens.Pairwise fun t u => t.span.stop.offset ≤ u.span.start.offset := by
  induction h with
  | nil => exact .nil
  | cons hblanks hraw hspan htiles ih =>
    refine .cons ?_ ih
    intro u hu
    rw [hspan]
    exact htiles.start_le hu

lemma slice_span {text : String} {rest : List Char} (h : Tiles [] tokens covered)
    (htext : text.toList = covered ++ rest) {token : Token} (htoken : token ∈ tokens) :
    token.span.slice text = String.ofList token.raw := by
  obtain ⟨front, back, hcovered, -, hspan⟩ := h.of_mem htoken
  have hsplit : text.toList = front ++ token.raw ++ (back ++ rest) := by
    rw [htext, hcovered, List.append_assoc _ back rest]
  rw [hspan, List.nil_append, slice_after hsplit]

end Tiles

namespace Lexer

variable {ρ : Type} [CharFeed ρ]

/-- How the answer to a call fits the characters ahead, behind the text `before`: a token takes
blanks and what it was read from, the end stands behind blanks alone, and an error behind blanks
at another character. -/
inductive Fits (before : List Char) : List Char → Except LexError Token → Lexer ρ → Prop where
  | token {blanks after : List Char} {token : Token} {m : Lexer ρ} :
    (∀ c ∈ blanks, isBlank c) → token.raw ≠ [] →
    token.span = ⟨.after (before ++ blanks), .after (before ++ blanks ++ token.raw)⟩ →
    m.StandsAt (before ++ blanks ++ token.raw) after .ended →
    Fits before (blanks ++ token.raw ++ after) (.ok token) m
  | ended {blanks : List Char} {m : Lexer ρ} : (∀ c ∈ blanks, isBlank c) → m.isFinished →
    Fits before blanks (.ok (.endOfStream (.after (before ++ blanks)))) m
  | failed {blanks after : List Char} {c : Char} {e : LexError} {m : Lexer ρ} :
    (∀ d ∈ blanks, isBlank d) → isBlank c = false → e.position = .after (before ++ blanks) →
    m.isFinished → Fits before (blanks ++ c :: after) (.error e) m

lemma fits_of_lexeme {l : Lexer ρ} {before after : List Char} {p : Piece}
    (h : l.StandsAt before (p.blanks ++ (p.lexeme ++ after)) .ended)
    (hblanks : ∀ c ∈ p.blanks, isBlank c) (hlexeme : Lexeme p.kind p.lexeme after)
    (hroom : l.options.refusal? (l.count + 1) p.text.utf8ByteSize = none) :
    Fits before (p.blanks ++ (p.lexeme ++ after)) l.nextToken.1 l.nextToken.2 := by
  obtain ⟨c, cs, hcs, -⟩ := exists_first_of_lexeme hlexeme
  obtain ⟨m, hnext, hm, -⟩ := nextToken_of_lexeme h hblanks hlexeme (fun _ _ => rfl) hroom
  have hraw : (p.token before).raw = p.lexeme := Piece.raw_token hlexeme
  have hne : (p.token before).raw ≠ [] := by rw [hraw, hcs]; exact List.cons_ne_nil c cs
  rw [hnext, ← List.append_assoc]
  rw [← hraw] at hm ⊢
  exact .token hblanks hne (by rw [hraw]; rfl) hm

/-- Whatever the bounds, the answer to a call fits the characters ahead. -/
theorem fits_nextToken {l : Lexer ρ} {before ahead : List Char}
    (h : l.StandsAt before ahead .ended) : Fits before ahead l.nextToken.1 l.nextToken.2 := by
  obtain ⟨blanks, rest, rfl, hblanks, hrest⟩ := longest_run isBlank ahead
  cases rest with
  | nil =>
    rw [List.append_nil] at h ⊢
    obtain ⟨final, hfinal⟩ := finishes_of_blanks h hblanks
    rw [hfinal.nextToken_eq]
    exact .ended hblanks hfinal.finished
  | cons c cs =>
    have hc : isBlank c = false := hrest c rfl
    have herror {cause : LexError.Cause} {final : Lexer ρ}
        (hfinal : l.Finishes (.error ⟨cause, .after (before ++ blanks)⟩) final) :
        Fits before (blanks ++ c :: cs) l.nextToken.1 l.nextToken.2 := by
      rw [hfinal.nextToken_eq]
      exact .failed hblanks hc rfl hfinal.finished
    cases hroom :
        l.options.refusal? (l.count + 1) (utf8Length (Opening.textRead (c :: cs))) with
    | some cause =>
      obtain ⟨final, hfinal⟩ := finishes_of_refusal h hblanks hc hroom
      exact herror hfinal
    | none =>
      rcases lexeme_or_malformed cs hc with ⟨kind, lexeme, after, hcs, hlexeme⟩ | ⟨cause, hcause⟩
      · let p : Piece := ⟨blanks, kind, lexeme⟩
        rw [hcs] at h hroom ⊢
        rw [textRead_of_lexeme (p := p) hlexeme, utf8Length_toList] at hroom
        exact fits_of_lexeme (p := p) h hblanks hlexeme hroom
      · rw [textRead_of_malformed hcause] at hroom
        obtain ⟨final, hfinal⟩ := finishes_of_malformed h hblanks hcause (fun _ => rfl) hroom
        exact herror hfinal

theorem tiles_of_passes {l m : Lexer ρ} {tokens : List Token} {before ahead : List Char}
    (hpasses : l.Passes tokens m) (h : l.StandsAt before ahead .ended) :
    ∃ covered rest, ahead = covered ++ rest ∧ Tiles before tokens covered ∧
      m.StandsAt (before ++ covered) rest .ended := by
  induction hpasses generalizing before ahead with
  | nil => exact ⟨[], ahead, rfl, .nil, by simpa using h⟩
  | cons hnext htoken _ ih =>
    have hfits := fits_nextToken h
    rw [hnext] at hfits
    cases hfits with
    | ended => cases htoken
    | token hblanks hraw hspan hm =>
      obtain ⟨covered, rest, rfl, htiles, hn⟩ := ih hm
      exact ⟨_, rest, by simp, .cons hblanks hraw hspan htiles, by simpa using hn⟩

/-- A run that meets its last answer behind the tokens stops where its answer says. -/
lemma rest_of_finishes_at {l final : Lexer ρ} {covered rest : List Char}
    {last : Except LexError Token} (h : l.StandsAt covered rest .ended)
    (hfinal : l.Finishes last final) :
    (∀ token, last = .ok token →
      (∀ c ∈ rest, isBlank c) ∧ token = .endOfStream (.after (covered ++ rest))) ∧
    ∀ e, last = .error e → ∃ blanks c after, rest = blanks ++ c :: after ∧
      (∀ d ∈ blanks, isBlank d) ∧ isBlank c = false ∧ e.position = .after (covered ++ blanks) := by
  have hfits := fits_nextToken h
  have hfinished := hfinal.finished
  rw [hfinal.nextToken_eq] at hfits
  cases hfits with
  | token _ _ _ hm =>
    rw [isFinished_eq_false_iff.mpr hm.running] at hfinished
    cases hfinished
  | ended hblanks =>
    refine ⟨?_, by simp⟩
    intro token heq
    cases heq
    exact ⟨hblanks, rfl⟩
  | failed hblanks hc hposition =>
    refine ⟨by simp, ?_⟩
    intro e heq
    cases heq
    exact ⟨_, _, _, rfl, hblanks, hc, hposition⟩

/-- After any number of calls and under any bounds, the tokens returned so far tile a front part of
the text. Their spans are not empty, come in order and cut out of the text what the tokens were
read from. If the end was met, only blanks are left. If an error was met, it stands at the first
character that is left and not blank. -/
theorem answers_tile_text (text : String) (options : Options) (n : Nat) :
    ∃ covered rest, text.toList = covered ++ rest ∧
      Tiles [] (tokensAmong (answers nextToken n (ofText text options))) covered ∧
      (∀ token ∈ tokensAmong (answers nextToken n (ofText text options)),
        token.span.start.offset < token.span.stop.offset ∧
        token.span.slice text = String.ofList token.raw ∧
        (token.text = "" → token.kind = .actionBlock)) ∧
      (tokensAmong (answers nextToken n (ofText text options))).Pairwise
        (fun t u => t.span.stop.offset ≤ u.span.start.offset) ∧
      (∀ token, .ok token ∈ answers nextToken n (ofText text options) → token.isEndOfStream →
        (∀ c ∈ rest, isBlank c) ∧ token = .endOfStream (.after text.toList)) ∧
      ∀ e, .error e ∈ answers nextToken n (ofText text options) →
        ∃ blanks c after, rest = blanks ++ c :: after ∧ (∀ d ∈ blanks, isBlank d) ∧
          isBlank c = false ∧ e.position = .after (covered ++ blanks) := by
  obtain ⟨tokens, m, last, final, hpasses, hfinal⟩ := exists_finishes (ofText text options) rfl
  have hgives := gives_of_finishes hpasses hfinal
  -- As long as only tokens were returned, the calls so far are a run of their own.
  obtain ⟨m', hsofar, hlast⟩ : ∃ m', (ofText text options).Passes (tokens.take n) m' ∧
      (tokens.length < n → m'.Finishes last final) := by
    by_cases hn : tokens.length < n
    · exact ⟨m, by rwa [List.take_of_length_le (Nat.le_of_lt hn)], fun _ => hfinal⟩
    · obtain ⟨m', hsofar⟩ := hpasses.take n
      exact ⟨m', hsofar, fun h => absurd h hn⟩
  obtain ⟨covered, rest, htext, htiles, hm⟩ :=
    tiles_of_passes hsofar (standsAt_ofText text options)
  rw [List.nil_append] at hm
  refine ⟨covered, rest, htext, ?_⟩
  rw [hgives.tokensAmong_answers]
  refine ⟨htiles, ?_, htiles.pairwise_spans, ?_, ?_⟩
  · intro token htoken
    refine ⟨htiles.span_not_empty htoken, htiles.slice_span htext htoken, ?_⟩
    intro hempty
    obtain ⟨-, -, -, hraw, -⟩ := htiles.of_mem htoken
    by_contra hkind
    exact hraw (raw_eq_nil_iff.mpr ⟨hkind, hempty⟩)
  · intro token htoken hend
    rcases hgives.mem_answers htoken with ⟨t, heq, ht⟩ | ⟨hn, heq⟩
    · cases heq
      rw [ht] at hend
      cases hend
    · rw [htext]
      exact (rest_of_finishes_at hm (hlast hn)).1 token heq.symm
  · intro e he
    rcases hgives.mem_answers he with ⟨t, heq, -⟩ | ⟨hn, heq⟩
    · cases heq
    · exact (rest_of_finishes_at hm (hlast hn)).2 e heq.symm

end Lexer

end GrammarTokens
