import GrammarTokens.Proofs.Printing

/-!
# Erasing comments

Comments can be taken out of a text before it is tokenized, or out of the tokens afterwards. A
comment that is written over with spaces separates its two sides as it did before, so the other
tokens stay as they are, each at its line and column. Only offsets shift, where a character that is
longer than a space was written over.
-/

namespace GrammarTokens

def Span.covers (s : Span) (offset : Nat) : Bool :=
  decide (s.start.offset ≤ offset ∧ offset < s.stop.offset)

/-- Whether a byte of a text lies within a comment among the tokens of the text. -/
def inComment (tokens : List Token) (offset : Nat) : Bool :=
  tokens.any fun t => (t.kind == .lineComment || t.kind == .blockComment) && t.span.covers offset

/-- What is written over a character of a comment: the lines stay as they are. -/
def wipe (c : Char) : Char := if c = '\n' then '\n' else ' '

/-- The characters from a byte of a text on, with the comments written over. -/
def wipeComments (tokens : List Token) : Nat → List Char → List Char
  | _, [] => []
  | offset, c :: cs =>
    (if inComment tokens offset then wipe c else c) :: wipeComments tokens (offset + c.utf8Size) cs

def eraseComments (text : String) (tokens : List Token) : String :=
  String.ofList (wipeComments tokens 0 text.toList)

def Position.place (p : Position) : Nat × Nat := (p.line, p.column)

/-- What a token says and the lines and columns where it does. -/
def Token.placed (t : Token) : (Token.Kind × String) × (Nat × Nat) × (Nat × Nat) :=
  (t.content, t.span.start.place, t.span.stop.place)

lemma isBlank_wipe (c : Char) : isBlank (wipe c) := by
  unfold wipe
  split <;> decide

lemma wipe_eq_newline_iff (c : Char) : wipe c = '\n' ↔ c = '\n' := by
  unfold wipe
  by_cases hc : c = '\n' <;> simp [hc]

lemma place_advance {p q : Position} (h : p.place = q.place) {c d : Char}
    (hcd : c = '\n' ↔ d = '\n') : (p.advance c).place = (q.advance d).place := by
  obtain ⟨hline, hcolumn⟩ := Prod.mk.inj h
  unfold Position.advance
  by_cases hd : d = '\n'
  · rw [if_pos hd, if_pos (hcd.mpr hd)]
    simp only [Position.place, hline]
  · rw [if_neg hd, if_neg (fun hc => hd (hcd.mp hc))]
    simp only [Position.place, hline, hcolumn]

section Places

variable {before before' : List Char}

lemma place_append (h : (Position.after before').place = (Position.after before).place)
    (cs : List Char) :
    (Position.after (before' ++ cs)).place = (Position.after (before ++ cs)).place := by
  induction cs using List.reverseRecOn with
  | nil => rwa [List.append_nil, List.append_nil]
  | append_singleton cs c ih =>
    rw [← List.append_assoc, ← List.append_assoc, ← advance_after, ← advance_after]
    exact place_advance ih Iff.rfl

lemma place_wiped (h : (Position.after before').place = (Position.after before).place)
    (cs : List Char) :
    (Position.after (before' ++ cs.map wipe)).place = (Position.after (before ++ cs)).place := by
  induction cs using List.reverseRecOn with
  | nil => rwa [List.map_nil, List.append_nil, List.append_nil]
  | append_singleton cs c ih =>
    rw [List.map_append, List.map_singleton, ← List.append_assoc, ← List.append_assoc,
      ← advance_after, ← advance_after]
    exact place_advance ih (wipe_eq_newline_iff c)

end Places

section Wiping

variable {tokens : List Token} {offset : Nat}

lemma inComment_cons (token : Token) (n : Nat) :
    inComment (token :: tokens) n =
      (token.isTrivia && token.span.covers n || inComment tokens n) := by
  have hkind : (token.kind == .lineComment || token.kind == .blockComment) = token.isTrivia := by
    rw [Bool.eq_iff_iff, Token.isTrivia, Token.Kind.isTrivia_iff]
    simp
  rw [← hkind]
  rfl

lemma wipeComments_append (cs ds : List Char) :
    wipeComments tokens offset (cs ++ ds) =
      wipeComments tokens offset cs ++ wipeComments tokens (offset + utf8Length cs) ds := by
  induction cs generalizing offset with
  | nil => rfl
  | cons c cs ih => simp only [List.cons_append, wipeComments, ih, utf8Length_cons, Nat.add_assoc]

lemma wipeComments_within {cs : List Char} {inside : Bool}
    (h : ∀ n < offset + utf8Length cs, offset ≤ n → inComment tokens n = inside) :
    wipeComments tokens offset cs = if inside then cs.map wipe else cs := by
  induction cs generalizing offset with
  | nil => cases inside <;> rfl
  | cons c cs ih =>
    have hpos := Char.utf8Size_pos c
    rw [utf8Length_cons] at h
    have hlater : ∀ n < offset + c.utf8Size + utf8Length cs, offset + c.utf8Size ≤ n →
        inComment tokens n = inside := by
      intro n hlt hle
      exact h n (by omega) (by omega)
    rw [wipeComments, h offset (by omega) (Nat.le_refl _), ih hlater]
    cases inside <;> rfl

/-- A token that ends before the characters has no bearing on them. -/
lemma wipeComments_behind {token : Token} (h : token.span.stop.offset ≤ offset) (cs : List Char) :
    wipeComments (token :: tokens) offset cs = wipeComments tokens offset cs := by
  induction cs generalizing offset with
  | nil => rfl
  | cons c cs ih =>
    have hpast : token.span.covers offset = false := by simp [Span.covers, Nat.not_lt.mpr h]
    rw [wipeComments, wipeComments, ih (Nat.le_add_right_of_le h), inComment_cons, hpast,
      Bool.and_false, Bool.false_or]

end Wiping

namespace Piece

/-- The lexeme of a piece, or what is written over it. -/
def wiped (p : Piece) : List Char := if p.kind.isTrivia then p.lexeme.map wipe else p.lexeme

def wipedSource (pieces : List Piece) : List Char :=
  pieces.flatMap fun p => p.blanks ++ p.wiped

lemma wipedSource_cons (p : Piece) (pieces : List Piece) :
    wipedSource (p :: pieces) = p.blanks ++ p.wiped ++ wipedSource pieces := by
  simp [wipedSource]

lemma covers_token (before : List Char) (p : Piece) (n : Nat) :
    (p.token before).span.covers n = decide (utf8Length (before ++ p.blanks) ≤ n ∧
      n < utf8Length (before ++ p.blanks ++ p.lexeme)) := rfl

lemma inComment_before {before : List Char} {n : Nat} (h : n < utf8Length before)
    (pieces : List Piece) : inComment (tokens before pieces) n = false := by
  induction pieces generalizing before with
  | nil => rfl
  | cons p pieces ih =>
    have hlater : n < utf8Length (before ++ p.blanks ++ p.lexeme) := by
      simp only [utf8Length_append]
      omega
    have hcovers : (p.token before).span.covers n = false := by
      rw [covers_token, decide_eq_false_iff_not, utf8Length_append before]
      omega
    rw [tokens_cons, inComment_cons, ih hlater, hcovers, Bool.and_false, Bool.false_or]

/-- Up to the end of a lexeme only its own token counts. -/
lemma inComment_front {before : List Char} {p : Piece} {n : Nat}
    (h : n < utf8Length (before ++ p.blanks ++ p.lexeme)) (pieces : List Piece) :
    inComment (tokens before (p :: pieces)) n =
      (p.kind.isTrivia && decide (utf8Length (before ++ p.blanks) ≤ n)) := by
  rw [tokens_cons, inComment_cons, inComment_before h, Bool.or_false, covers_token,
    Bool.decide_and, decide_eq_true h, Bool.and_true]
  rfl

lemma wipeComments_lexeme (before : List Char) (p : Piece) (pieces : List Piece) :
    wipeComments (tokens before (p :: pieces)) (utf8Length (before ++ p.blanks)) p.lexeme =
      p.wiped := by
  apply wipeComments_within
  intro n hlt hle
  rw [← utf8Length_append] at hlt
  rw [inComment_front hlt, decide_eq_true hle, Bool.and_true]

/-- Erasing goes by the bytes of the spans, and comes to writing over the lexemes of comments. -/
theorem wipeComments_source (before : List Char) (pieces : List Piece) (blanks : List Char) :
    wipeComments (tokens before pieces) (utf8Length before) (source pieces ++ blanks) =
      wipedSource pieces ++ blanks := by
  induction pieces generalizing before with
  | nil =>
    have houtside : ∀ n < utf8Length before + utf8Length blanks, utf8Length before ≤ n →
        inComment (tokens before []) n = false := fun _ _ _ => rfl
    exact wipeComments_within houtside
  | cons p pieces ih =>
    have hblanks : wipeComments (tokens before (p :: pieces)) (utf8Length before) p.blanks =
        p.blanks := by
      have houtside : ∀ n < utf8Length before + utf8Length p.blanks, utf8Length before ≤ n →
          inComment (tokens before (p :: pieces)) n = false := by
        intro n hlt _
        rw [← utf8Length_append] at hlt
        have hfront : n < utf8Length (before ++ p.blanks ++ p.lexeme) := by
          rw [utf8Length_append]
          omega
        rw [inComment_front hfront, decide_eq_false (Nat.not_le.mpr hlt), Bool.and_false]
      exact wipeComments_within houtside
    have hlater : wipeComments (tokens before (p :: pieces))
        (utf8Length (before ++ p.blanks ++ p.lexeme)) (source pieces ++ blanks) =
          wipedSource pieces ++ blanks := by
      have hbehind : (p.token before).span.stop.offset ≤
          utf8Length (before ++ p.blanks ++ p.lexeme) := Nat.le_refl _
      rw [tokens_cons, wipeComments_behind hbehind]
      exact ih _
    rw [source_cons, wipedSource_cons, List.append_assoc, List.append_assoc, wipeComments_append,
      wipeComments_append, ← utf8Length_append, ← utf8Length_append, hblanks, wipeComments_lexeme,
      hlater]
    simp

/-- Where pieces with wiped comments begin, they begin as they did or with a blank. -/
lemma head_wipedSource {pieces : List Piece} {after : List Char} (h : InContext pieces after)
    {c : Char} (hc : c ∈ (wipedSource pieces ++ after).head?) :
    c ∈ (source pieces ++ after).head? ∨ isBlank c := by
  cases h with
  | nil => exact .inl hc
  | @cons p pieces after hblanks hlexeme _ =>
    obtain ⟨d, ds, hd, -⟩ := exists_first_of_lexeme hlexeme
    rw [source_cons]
    rw [wipedSource_cons, wiped, hd] at hc
    rw [hd]
    cases hp : p.blanks with
    | cons b blanks =>
      rw [hp] at hc
      exact .inl hc
    | nil =>
      rw [hp] at hc
      cases hkind : p.kind.isTrivia with
      | true =>
        rw [hkind] at hc
        obtain rfl : wipe d = c := by simpa using hc
        exact .inr (isBlank_wipe d)
      | false =>
        rw [hkind] at hc
        exact .inl hc

lemma lexeme_before_wiped {p : Piece} {pieces : List Piece} {after : List Char}
    (hlexeme : Lexeme p.kind p.lexeme (source pieces ++ after)) (hpieces : InContext pieces after)
    (hkind : p.kind.isTrivia = false) :
    Lexeme p.kind p.lexeme (wipedSource pieces ++ after) := by
  refine lexeme_before hlexeme ?_ ?_
  · intro hidentifier c hc
    rcases head_wipedSource hpieces hc with hsame | hblank
    · exact not_continue_of_identifier hlexeme hidentifier c hsame
    · exact not_isIdentifierContinue_of_isBlank hblank
  · intro hline
    rw [hline] at hkind
    cases hkind

lemma wiped_of_trivia {p : Piece} (h : p.kind.isTrivia) : p.wiped = p.lexeme.map wipe := if_pos h

lemma wiped_of_substance {p : Piece} (h : p.kind.isTrivia = false) : p.wiped = p.lexeme := by
  rw [wiped, h]
  rfl

lemma isBlank_of_mem_wiped {p : Piece} (h : p.kind.isTrivia) : ∀ c ∈ p.wiped, isBlank c := by
  intro c hc
  rw [wiped_of_trivia h] at hc
  obtain ⟨d, -, rfl⟩ := List.mem_map.mp hc
  exact isBlank_wipe d

/-- Pieces with wiped comments are pieces again: the blanks in front of a piece have grown by the
comments there. They say what they said, at the lines and columns where they did. -/
theorem exists_factors_wiped {pieces : List Piece} {blanks : List Char}
    (before before' lead : List Char) (h : InContext pieces blanks)
    (hblanks : ∀ c ∈ blanks, isBlank c)
    (hlead : ∀ c ∈ lead, isBlank c)
    (hplace : (Position.after (before' ++ lead)).place = (Position.after before).place) :
    ∃ kept trailing, Factors (lead ++ wipedSource pieces ++ blanks) kept trailing [] ∧
      (tokens before' kept).map Token.placed =
        ((tokens before pieces).filter (!·.isTrivia)).map Token.placed := by
  induction pieces generalizing before before' lead with
  | nil =>
    exact ⟨[], lead ++ blanks, ⟨by simp [wipedSource], .nil,
      List.forall_mem_append.mpr ⟨hlead, hblanks⟩⟩, rfl⟩
  | cons p pieces ih =>
    cases h with
    | cons hpblanks hlexeme hpieces =>
      have hfront : ∀ c ∈ lead ++ p.blanks, isBlank c :=
        List.forall_mem_append.mpr ⟨hlead, hpblanks⟩
      have hstart : (Position.after (before' ++ (lead ++ p.blanks))).place =
          (Position.after (before ++ p.blanks)).place := by
        rw [← List.append_assoc]
        exact place_append hplace p.blanks
      cases hkind : p.kind.isTrivia with
      | true =>
        -- The comment joins the blanks in front of the next piece.
        have hstop : (Position.after (before' ++ (lead ++ p.blanks ++ p.wiped))).place =
            (Position.after (before ++ p.blanks ++ p.lexeme)).place := by
          rw [← List.append_assoc, wiped_of_trivia hkind]
          exact place_wiped hstart p.lexeme
        have hlonger : ∀ c ∈ lead ++ p.blanks ++ p.wiped, isBlank c :=
          List.forall_mem_append.mpr ⟨hfront, isBlank_of_mem_wiped hkind⟩
        obtain ⟨kept, trailing, hfactors, htokens⟩ := ih _ before' _ hpieces hlonger hstop
        refine ⟨kept, trailing, ?_, ?_⟩
        · rw [wipedSource_cons]
          simpa only [List.append_assoc] using hfactors
        · have hcomment : (p.token before).isTrivia = true := hkind
          rw [htokens, tokens_cons, List.filter_cons, hcomment]
          rfl
      | false =>
        let q : Piece := ⟨lead ++ p.blanks, p.kind, p.lexeme⟩
        have hstop : (Position.after (before' ++ (lead ++ p.blanks) ++ p.lexeme)).place =
            (Position.after (before ++ p.blanks ++ p.lexeme)).place :=
          place_append hstart p.lexeme
        obtain ⟨kept, trailing, hfactors, htokens⟩ :=
          ih (before ++ p.blanks ++ p.lexeme) (before' ++ (lead ++ p.blanks) ++ p.lexeme) []
            hpieces (by simp) (by rwa [List.append_nil])
        rw [List.nil_append] at hfactors
        have hq : Lexeme q.kind q.lexeme (wipedSource pieces ++ blanks) :=
          lexeme_before_wiped hlexeme hpieces hkind
        refine ⟨q :: kept, trailing, ?_, ?_⟩
        · rw [wipedSource_cons, wiped_of_substance hkind]
          have hcons := hfactors.cons hfront hq
          simpa only [q, List.append_assoc] using hcons
        · have hsubstance : (p.token before).isTrivia = false := hkind
          have hplaced : (q.token before').placed = (p.token before).placed := by
            simp only [Token.placed, token, hstart, hstop, q]
            rfl
          rw [tokens_cons, tokens_cons, List.filter_cons, hsubstance, List.map_cons, htokens,
            hplaced]
          rfl

end Piece

/-- In a text that is accepted, comments can be written over with spaces, newline for newline. The
tokens that are left are those that are no comments, in order, and each of them says what it said,
from the same line and column to the same line and column. -/
theorem tokenize_eraseComments {text : String} {tokens : List Token}
    (h : tokenize text = .ok tokens) :
    ∃ kept, tokenize (eraseComments text tokens) = .ok kept ∧
      kept.map Token.placed = (tokens.filter (!·.isTrivia)).map Token.placed := by
  obtain ⟨pieces, blanks, hfactors, rfl⟩ := factors_of_tokenize h
  have hlexemes := hfactors.lexemes
  rw [List.append_nil] at hlexemes
  obtain ⟨kept, trailing, hkept, htokens⟩ :=
    Piece.exists_factors_wiped [] [] [] hlexemes hfactors.blank (by simp) rfl
  have herased : (eraseComments text (Piece.tokens [] pieces)).toList =
      Piece.wipedSource pieces ++ blanks := by
    have hwiped := Piece.wipeComments_source [] pieces blanks
    rw [eraseComments, String.toList_ofList, hfactors.source_eq, List.append_nil]
    exact hwiped
  rw [List.nil_append, ← herased] at hkept
  exact ⟨_, tokenize_of_factors hkept, htokens⟩

/-- The comment alone keeps the identifiers apart, and brings the second one to a new line. -/
theorem tokenize_eraseComments_between :
    tokenize "a/*é\n*/b" = .ok [⟨.identifier, "a", ⟨⟨1, 1, 0⟩, ⟨1, 2, 1⟩⟩⟩,
      ⟨.blockComment, "/*é\n*/", ⟨⟨1, 2, 1⟩, ⟨2, 3, 8⟩⟩⟩,
      ⟨.identifier, "b", ⟨⟨2, 3, 8⟩, ⟨2, 4, 9⟩⟩⟩] ∧
    ∃ kept, tokenize "a   \n  b" = .ok kept ∧ kept.map Token.placed =
      [((.identifier, "a"), (1, 1), (1, 2)), ((.identifier, "b"), (2, 3), (2, 4))] := by
  have h : tokenize "a/*é\n*/b" = .ok [⟨.identifier, "a", ⟨⟨1, 1, 0⟩, ⟨1, 2, 1⟩⟩⟩,
      ⟨.blockComment, "/*é\n*/", ⟨⟨1, 2, 1⟩, ⟨2, 3, 8⟩⟩⟩,
      ⟨.identifier, "b", ⟨⟨2, 3, 8⟩, ⟨2, 4, 9⟩⟩⟩] := by
    decide +kernel
  have herased : eraseComments "a/*é\n*/b" [⟨.identifier, "a", ⟨⟨1, 1, 0⟩, ⟨1, 2, 1⟩⟩⟩,
      ⟨.blockComment, "/*é\n*/", ⟨⟨1, 2, 1⟩, ⟨2, 3, 8⟩⟩⟩,
      ⟨.identifier, "b", ⟨⟨2, 3, 8⟩, ⟨2, 4, 9⟩⟩⟩] = "a   \n  b" := by
    decide +kernel
  obtain ⟨kept, hkept, hplaced⟩ := tokenize_eraseComments h
  rw [herased] at hkept
  exact ⟨h, kept, hkept, hplaced⟩

end GrammarTokens
