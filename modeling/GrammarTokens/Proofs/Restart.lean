import GrammarTokens.Proofs.Calls
import GrammarTokens.Proofs.Streaming
import GrammarTokens.Proofs.Tiling

/-!
# Restarting behind a token

Nothing but the position is carried over from one token to the next. A lexer that stands behind a
token goes on as a fresh lexer over the rest of the text, with the positions in its answers shifted
to where the rest begins. Over any source it goes on as a fresh lexer that is given the source.
-/

namespace GrammarTokens

/-- The place of a position of a text, if the text stands behind `base`. Only on the first line of
the text are columns counted on from those of `base`. -/
def Position.shift (base p : Position) : Position :=
  if p.line = 1 then ⟨base.line, base.column + p.column - 1, base.offset + p.offset⟩
  else ⟨base.line + p.line - 1, p.column, base.offset + p.offset⟩

lemma shift_advance (base : Position) {p : Position} (hline : 1 ≤ p.line) (hcolumn : 1 ≤ p.column)
    (c : Char) : base.shift (p.advance c) = (base.shift p).advance c := by
  unfold Position.shift Position.advance
  by_cases hc : c = '\n'
  · rw [if_pos hc, if_pos hc, if_neg (by dsimp only; omega)]
    by_cases hfirst : p.line = 1
    · simp [hfirst, Nat.add_assoc]
    · rw [if_neg hfirst, Position.mk.injEq]
      refine ⟨?_, rfl, Nat.add_assoc _ _ _ |>.symm⟩
      dsimp only
      omega
  · rw [if_neg hc, if_neg hc]
    by_cases hfirst : p.line = 1
    · rw [if_pos hfirst, if_pos hfirst, Position.mk.injEq]
      refine ⟨rfl, ?_, Nat.add_assoc _ _ _ |>.symm⟩
      dsimp only
      omega
    · rw [if_neg hfirst, if_neg hfirst, Position.mk.injEq]
      exact ⟨rfl, rfl, Nat.add_assoc _ _ _ |>.symm⟩

lemma shift_after (before text : List Char) :
    (Position.after before).shift (.after text) = .after (before ++ text) := by
  induction text using List.reverseRecOn with
  | nil => simp [Position.shift, Position.after]
  | append_singleton text c ih =>
    rw [← advance_after, shift_advance _ (Nat.le_add_right 1 _) (Nat.le_add_right 1 _), ih,
      advance_after, List.append_assoc]

def Span.shift (base : Position) (s : Span) : Span := ⟨base.shift s.start, base.shift s.stop⟩

def Token.shift (base : Position) (t : Token) : Token := { t with span := t.span.shift base }

def LexError.shift (base : Position) (e : LexError) : LexError :=
  { e with position := base.shift e.position }

/-- An answer about a text, if the text stands behind `base`. -/
def shiftAnswer (base : Position) : Except LexError Token → Except LexError Token
  | .ok token => .ok (token.shift base)
  | .error e => .error (e.shift base)

lemma tokens_shift (before inner : List Char) (pieces : List Piece) :
    (Piece.tokens inner pieces).map (Token.shift (.after before)) =
      Piece.tokens (before ++ inner) pieces := by
  induction pieces generalizing inner with
  | nil => rfl
  | cons p pieces ih =>
    rw [Piece.tokens_cons, Piece.tokens_cons, List.map_cons, ih]
    simp [Piece.token, Token.shift, Span.shift, shift_after]

lemma answerBehind_shift {inner rest : List Char} {last : Except LexError Token}
    (h : AnswerBehind inner rest last) (before : List Char) :
    AnswerBehind (before ++ inner) rest (shiftAnswer (.after before) last) := by
  cases h with
  | ended =>
    simp only [shiftAnswer, Token.shift, Token.endOfStream, Span.shift, Span.single, shift_after]
    exact .ended
  | stuck hcause =>
    simp only [shiftAnswer, LexError.shift, shift_after]
    exact .stuck hcause

lemma Tiles.stop_eq {before covered : List Char} {tokens : List Token} {token : Token}
    (h : Tiles before (tokens ++ [token]) covered) :
    token.span.stop = .after (before ++ covered) := by
  induction tokens generalizing before covered with
  | nil =>
    cases h with
    | cons _ _ hspan htiles =>
      cases htiles
      rw [hspan]
      simp
  | cons t tokens ih =>
    cases h with
    | cons _ _ _ htiles =>
      rw [ih htiles]
      simp

namespace Lexer

variable {ρ : Type} [CharFeed ρ]

/-- Calls that return tokens leave the options and the status alone. -/
lemma settings_of_passes {l m : Lexer ρ} {tokens : List Token} (h : l.Passes tokens m) :
    m.options = l.options ∧ m.status = l.status := by
  induction h with
  | nil => exact ⟨rfl, rfl⟩
  | cons hnext htoken _ ih =>
    obtain ⟨s, rfl⟩ := state_of_token hnext htoken
    exact ih

/-- What a lexer without bounds gives is determined by the characters ahead of it. -/
theorem gives_of_standsAt {l : Lexer ρ} {before ahead blanks rest : List Char}
    {pieces : List Piece} {last : Except LexError Token} (h : l.StandsAt before ahead .ended)
    (hoptions : l.options = {}) (hahead : Piece.Factors ahead pieces blanks rest)
    (hlast : AnswerBehind (before ++ Piece.source pieces ++ blanks) rest last) :
    l.Gives (Piece.tokens before pieces) last := by
  rw [hahead.source_eq, List.append_assoc] at h
  obtain ⟨m, hpasses, hm, hsame, -⟩ := passes_pieces h hahead.lexemes (fun _ _ _ _ => rfl)
    (fun _ _ _ => by rw [hoptions]; rfl)
  obtain ⟨final, hfinal⟩ := finishes_of_answerBehind hm hahead.blank hlast
    (fun _ => by rw [hsame, hoptions]; rfl)
  exact gives_of_finishes hpasses hfinal

/-- Behind the text `before`, answers are those about the text ahead, shifted. -/
theorem answers_of_standsAt {l : Lexer ρ} {before : List Char} {ahead : String}
    (h : l.StandsAt before ahead.toList .ended) (hoptions : l.options = {}) (n : Nat) :
    answers nextToken n l =
      (answers nextToken n (ofText ahead)).map (shiftAnswer (.after before)) := by
  obtain ⟨pieces, blanks, rest, hfactors, hstuck⟩ := Piece.exists_factors ahead.toList
  obtain ⟨last, hlast⟩ := exists_answerBehind hstuck (Piece.source pieces ++ blanks)
  have hfresh : (ofText ahead).Gives (Piece.tokens [] pieces) last :=
    gives_of_standsAt (standsAt_ofText ahead {}) rfl hfactors hlast
  have hshifted := answerBehind_shift hlast before
  rw [← List.append_assoc] at hshifted
  have hgives : l.Gives (Piece.tokens before pieces) (shiftAnswer (.after before) last) :=
    gives_of_standsAt h hoptions hfactors hshifted
  have htokens := tokens_shift before [] pieces
  rw [List.append_nil] at htokens
  rw [hgives.answers_eq, hfresh.answers_eq, ← htokens, List.map_append, List.map_replicate,
    List.length_map, ← List.map_take, List.map_map, List.map_map]
  rfl

/-- Lexers with one source and no bound on the number of tokens. One has returned `ahead` more
tokens than the other. -/
structure CountedApart (ahead : Nat) (l m : Lexer ρ) : Prop where
  source : l.source = m.source
  options : l.options = m.options
  unbounded : m.options.maxTokens = none
  status : l.status = m.status
  count : l.count = ahead + m.count

/-- Without a bound on the number of tokens the count plays no part in a scan. -/
lemma scanToken_countedApart {ahead : Nat} {l m : Lexer ρ} (h : l.CountedApart ahead m) :
    l.scanToken = m.scanToken := by
  unfold scanToken
  rw [h.source, h.options, h.unbounded]
  rfl

theorem nextToken_countedApart {ahead : Nat} {l m : Lexer ρ} (h : l.CountedApart ahead m) :
    l.nextToken.1 = m.nextToken.1 ∧ l.nextToken.2.CountedApart ahead m.nextToken.2 := by
  have hscan := scanToken_countedApart h
  have hstatus := h.status
  cases hm : m.status with
  | ended =>
    rw [hm] at hstatus
    rw [nextToken, nextToken, hm, hstatus, h.source]
    exact ⟨rfl, h⟩
  | failed e =>
    rw [hm] at hstatus
    rw [nextToken, nextToken, hm, hstatus]
    exact ⟨rfl, h⟩
  | running =>
    rw [hm] at hstatus
    rw [nextToken, nextToken, hm, hstatus]
    dsimp only
    rw [hscan]
    rcases m.scanToken with ⟨e | token, s⟩
    · exact ⟨rfl, rfl, h.options, h.unbounded, rfl, h.count⟩
    · dsimp only
      by_cases htoken : token.isEndOfStream
      · rw [if_pos htoken, if_pos htoken]
        exact ⟨rfl, rfl, h.options, h.unbounded, rfl, h.count⟩
      · rw [if_neg htoken, if_neg htoken]
        refine ⟨rfl, rfl, h.options, h.unbounded, rfl, ?_⟩
        dsimp only
        rw [h.count, Nat.add_assoc]

def countOn (ahead : Nat) :
    Except LexError Token × Position × Nat × Bool → Except LexError Token × Position × Nat × Bool :=
  fun (answer, position, count, finished) => (answer, position, ahead + count, finished)

lemma observe_countedApart {ahead : Nat} {l m : Lexer ρ} (h : l.CountedApart ahead m) :
    l.observe.1 = countOn ahead m.observe.1 ∧ l.observe.2.CountedApart ahead m.observe.2 := by
  obtain ⟨hanswer, hafter⟩ := nextToken_countedApart h
  refine ⟨?_, hafter⟩
  simp only [observe, countOn, isFinished, hanswer, hafter.source, hafter.count, hafter.status]

theorem answers_of_countedApart {ahead : Nat} {l m : Lexer ρ} (h : l.CountedApart ahead m)
    (n : Nat) : answers observe n l = (answers observe n m).map (countOn ahead) := by
  induction n generalizing l m with
  | zero => rfl
  | succ n ih =>
    obtain ⟨hanswer, hafter⟩ := observe_countedApart h
    rw [answers, answers, List.map_cons, hanswer, ih hafter]

/-- Behind any token, the answers about a text are those of a fresh lexer about the rest of it,
shifted to the end of the token. Over any source, a fresh lexer that is given the source goes on as
the old one would, and only counts the tokens anew. -/
theorem restart_behind_token :
    (∀ (text : String) (tokens : List Token) (token : Token) (m : Lexer (List Char)),
      (ofText text).Passes (tokens ++ [token]) m →
      ∃ front rest, text = front ++ rest ∧ front.utf8ByteSize = token.span.stop.offset ∧
        ∀ n, answers nextToken n m =
          (answers nextToken n (ofText rest)).map (shiftAnswer token.span.stop)) ∧
    ∀ (ρ : Type) [CharFeed ρ] (source : Source ρ) (tokens : List Token) (m : Lexer ρ),
      (ofSource source).Passes tokens m →
      ∀ n, answers observe n m =
        (answers observe n (ofSource m.source)).map (countOn tokens.length) := by
  constructor
  · intro text tokens token m hpasses
    obtain ⟨covered, rest, htext, htiles, hm⟩ := tiles_of_passes hpasses (standsAt_ofText text {})
    have hstop := htiles.stop_eq
    rw [List.nil_append] at hm hstop
    refine ⟨String.ofList covered, String.ofList rest, ?_, ?_, ?_⟩
    · rw [← String.ofList_append, ← htext, String.ofList_toList]
    · rw [hstop, utf8ByteSize_ofList]
      rfl
    · intro n
      rw [hstop]
      rw [← String.toList_ofList (l := rest)] at hm
      exact answers_of_standsAt hm (settings_of_passes hpasses).1 n
  · intro ρ _ source tokens m hpasses n
    obtain ⟨hoptions, hstatus⟩ := settings_of_passes hpasses
    have hcount : m.count = tokens.length + (ofSource m.source).count := by
      rw [count_of_passes hpasses]
      exact Nat.add_comm _ _
    have hapart : m.CountedApart tokens.length (ofSource m.source) :=
      ⟨rfl, hoptions, rfl, hstatus, hcount⟩
    exact answers_of_countedApart hapart n

/-- Behind a line comment, where the rest of the text begins a line and is a `/` alone. -/
theorem restart_behind_comment :
    ∃ m, (ofText "a #\n/").Passes [⟨.identifier, "a", ⟨⟨1, 1, 0⟩, ⟨1, 2, 1⟩⟩⟩,
        ⟨.lineComment, "#\n", ⟨⟨1, 3, 2⟩, ⟨2, 1, 4⟩⟩⟩] m ∧
      (∃ front rest, "a #\n/" = front ++ rest ∧ front.utf8ByteSize = 4 ∧
        ∀ n, answers nextToken n m =
          (answers nextToken n (ofText rest)).map (shiftAnswer ⟨2, 1, 4⟩)) ∧
      ∀ n, answers observe n m = (answers observe n (ofSource m.source)).map (countOn 2) := by
  have hidentifier : Lexeme .identifier ['a'] " #\n/".toList :=
    .identifier (by decide) (by simp) (by simp [isIdentifierContinue, isAlphabetic])
  have hcomment : Lexeme .lineComment "#\n".toList "/".toList :=
    .lineComment (List.not_mem_nil (a := '\n'))
  have hfactors : Piece.Factors "a #\n/".toList
      [⟨[], .identifier, ['a']⟩, ⟨[' '], .lineComment, "#\n".toList⟩] [] "/".toList :=
    ⟨by decide, .cons (by simp) hidentifier (.cons (by simp [isBlank]) hcomment .nil), by simp⟩
  obtain ⟨m, final, hpasses, -⟩ := run_of_factors hfactors (.stuck (.loneSlash (by simp)))
  refine ⟨m, hpasses, ?_, restart_behind_token.2 _ _ _ m hpasses⟩
  exact restart_behind_token.1 _ [⟨.identifier, "a", ⟨⟨1, 1, 0⟩, ⟨1, 2, 1⟩⟩⟩]
    ⟨.lineComment, "#\n", ⟨⟨1, 3, 2⟩, ⟨2, 1, 4⟩⟩⟩ m hpasses

end Lexer

end GrammarTokens
