import GrammarTokens.Proofs.Items

/-!
# Texts with a common front

What follows a lexeme bears on it by its first character only. So two texts that begin alike have
the same tokens as far as these end before the place where the texts part, and a character that
begins no token is unexpected in both.
-/

namespace GrammarTokens

theorem lexeme_of_head {kind : Token.Kind} {lexeme after after' : List Char}
    (h : Lexeme kind lexeme after) (hhead : after'.head? = after.head?) :
    Lexeme kind lexeme after' := by
  cases h with
  | identifier hstart hcs hafter => exact .identifier hstart hcs (by rwa [hhead])
  | symbol hsymbol => exact .symbol hsymbol
  | quotedLiteral hquote hbody => exact .quotedLiteral hquote hbody
  | lineComment hbody => exact .lineComment hbody
  | lastLineComment hbody =>
    obtain rfl := List.head?_eq_none_iff.mp hhead
    exact .lastLineComment hbody
  | blockComment hbody => exact .blockComment hbody
  | actionBlock hopen hclosed => exact .actionBlock hopen hclosed

theorem inContext_of_head {pieces : List Piece} {after after' : List Char}
    (h : Piece.InContext pieces after) (hhead : after'.head? = after.head?) :
    Piece.InContext pieces after' := by
  induction h with
  | nil => exact .nil
  | cons hblanks hlexeme _ ih =>
    refine .cons hblanks (lexeme_of_head hlexeme ?_) (ih hhead)
    rw [List.head?_append, List.head?_append, hhead]

/-- An unexpected character is so whatever follows it, but for a `/`, which is known by the next
character. -/
lemma malformed_of_head {c d : Char} {cs cs' : List Char}
    (h : Malformed (c :: cs) (.unexpectedCharacter d)) (hhead : c = '/' → cs'.head? = cs.head?) :
    Malformed (c :: cs') (.unexpectedCharacter d) := by
  cases h with
  | loneSlash hrest => exact .loneSlash (by rwa [hhead rfl])
  | unexpectedCharacter hblank hstart hsymbol hquote hspecial =>
    exact .unexpectedCharacter hblank hstart hsymbol hquote hspecial

/-- A shorter front of a text with the front `front` is a front of this one. -/
lemma front_of_utf8Length_lt {front u before after : List Char}
    (heq : front ++ u = before ++ after) (hlt : utf8Length before < utf8Length front) :
    ∃ c middle, front = before ++ c :: middle ∧ after = c :: (middle ++ u) := by
  obtain ⟨middle, rfl, rfl⟩ | ⟨middle, rfl, rfl⟩ := List.append_eq_append_iff.mp heq
  · rw [utf8Length_append] at hlt
    omega
  · cases middle with
    | nil => simp at hlt
    | cons c middle => exact ⟨c, middle, rfl, rfl⟩

namespace Lexer

variable {ρ : Type} [CharFeed ρ]

lemma rest_of_passes {l m : Lexer ρ} {tokens : List Token} (h : l.Passes tokens m) :
    l.rest.1 = tokens.map .ok ++ m.rest.1 := by
  induction h with
  | nil => rfl
  | cons hnext htoken _ ih =>
    rw [rest_eq, next?_of_token hnext htoken]
    exact congrArg (_ :: ·) ih

lemma passes_of_common_front {front u v : String} {pieces back : List Piece}
    {blanks rest : List Char}
    (h : Piece.Factors (front ++ u).toList (pieces ++ back) blanks rest)
    (hlt : utf8Length (Piece.source pieces) < utf8Length front.toList) :
    ∃ m, (ofText (front ++ v)).Passes (Piece.tokens [] pieces) m := by
  have htext := h.source_eq
  rw [String.toList_append, Piece.source_append, List.append_assoc, List.append_assoc] at htext
  obtain ⟨c, middle, hfront, hafter⟩ := front_of_utf8Length_lt htext hlt
  have hpieces : Piece.InContext pieces (c :: (middle ++ v.toList)) := by
    refine inContext_of_head h.lexemes.append.1 ?_
    rw [hafter]
    rfl
  have hstands := standsAt_ofText (front ++ v) {}
  rw [String.toList_append, hfront, List.append_assoc] at hstands
  obtain ⟨m, hpasses, -⟩ :=
    passes_pieces hstands hpieces (fun _ _ _ _ => rfl) (fun _ _ _ => rfl)
  exact ⟨m, hpasses⟩

/-- Where two texts have a front in common, a lexer over the second one returns, at the same index,
every token of the first one that ends before the front does. If the first one is found to go on
with an unexpected character more than a byte before the end of the front, the two runs are the
same. -/
theorem rest_of_common_front (front u v : String) :
    (∀ (i : Nat) (token : Token), (ofText (front ++ u)).rest.1[i]? = some (.ok token) →
      token.span.stop.offset < front.utf8ByteSize →
      (ofText (front ++ v)).rest.1[i]? = some (.ok token)) ∧
    ∀ (e : LexError) (c : Char), .error e ∈ (ofText (front ++ u)).rest.1 →
      e.cause = .unexpectedCharacter c → e.position.offset + 1 < front.utf8ByteSize →
      (ofText (front ++ v)).rest.1 = (ofText (front ++ u)).rest.1 := by
  obtain ⟨pieces, blanks, rest, hfactors, hstuck⟩ := Piece.exists_factors (front ++ u).toList
  obtain ⟨last, hlast⟩ := exists_answerBehind hstuck (Piece.source pieces ++ blanks)
  constructor
  · intro i token hitem hlt
    obtain ⟨before, p, back, rfl, rfl, rfl⟩ := piece_of_item hfactors hlast hitem
    have hsource : Piece.source before ++ p.blanks ++ p.lexeme = Piece.source (before ++ [p]) := by
      rw [Piece.source_append]
      simp
    have hend : utf8Length (Piece.source (before ++ [p])) < utf8Length front.toList := by
      rw [← hsource, utf8Length_toList]
      exact hlt
    rw [← List.singleton_append, ← List.append_assoc] at hfactors
    obtain ⟨m, hpasses⟩ := passes_of_common_front (v := v) hfactors hend
    rw [rest_of_passes hpasses, Piece.tokens_append, List.map_append, List.append_assoc,
      ← length_map_tokens before, List.getElem?_append_right (Nat.le_refl _), Nat.sub_self]
    rfl
  · intro e c hitem hcause hlt
    obtain ⟨cause, rfl, hrest, rfl⟩ := malformed_of_item hfactors hlast hitem
    obtain rfl : cause = .unexpectedCharacter c := hcause
    rw [← utf8Length_toList] at hlt
    have htext := hfactors.source_eq
    rw [String.toList_append] at htext
    obtain ⟨d, middle, hfront, rfl⟩ :=
      front_of_utf8Length_lt htext (Nat.lt_of_succ_lt hlt)
    have hnext : d = '/' → (middle ++ v.toList).head? = (middle ++ u.toList).head? := by
      rintro rfl
      have hslash : '/'.utf8Size = 1 := rfl
      cases middle with
      | nil =>
        rw [hfront, utf8Length_append] at hlt
        simp [Position.after, hslash] at hlt
      | cons => rfl
    have hmalformed := malformed_of_head hrest hnext
    have hpieces : Piece.InContext pieces (blanks ++ d :: (middle ++ v.toList)) := by
      refine inContext_of_head hfactors.lexemes ?_
      rw [List.head?_append, List.head?_append]
      rfl
    have hfactors' :
        Piece.Factors (front ++ v).toList pieces blanks (d :: (middle ++ v.toList)) := by
      refine ⟨?_, hpieces, hfactors.blank⟩
      rw [String.toList_append, hfront, List.append_assoc]
      rfl
    rw [rest_ofText hfactors' (.stuck hmalformed), rest_ofText hfactors hlast]

/-- A `/` before the place where the texts part, and tokens of the second text behind that place. -/
theorem rest_before_lone_slash :
    (ofText ("a /b" ++ "*/")).rest.1[0]? = some (.ok ⟨.identifier, "a", ⟨⟨1, 1, 0⟩, ⟨1, 2, 1⟩⟩⟩) ∧
      (ofText ("a /b" ++ "*/")).rest.1 = [.ok ⟨.identifier, "a", ⟨⟨1, 1, 0⟩, ⟨1, 2, 1⟩⟩⟩,
        .error ⟨.unexpectedCharacter '/', ⟨1, 3, 2⟩⟩] := by
  have hidentifier : Lexeme .identifier ['a'] " /b\x7b".toList :=
    .identifier (by decide) (by simp) (by simp [isIdentifierContinue, isAlphabetic])
  have hfactors : Piece.Factors ("a /b" ++ "\x7b").toList [⟨[], .identifier, ['a']⟩] [' ']
      "/b\x7b".toList :=
    ⟨by decide, .cons (by simp) hidentifier .nil, by simp [isBlank]⟩
  have hrest : (ofText ("a /b" ++ "\x7b")).rest.1 =
      [.ok ⟨.identifier, "a", ⟨⟨1, 1, 0⟩, ⟨1, 2, 1⟩⟩⟩,
        .error ⟨.unexpectedCharacter '/', ⟨1, 3, 2⟩⟩] :=
    rest_ofText hfactors (.stuck (.loneSlash (by decide)))
  obtain ⟨htokens, herror⟩ := rest_of_common_front "a /b" "\x7b" "*/"
  rw [hrest] at htokens herror
  have hlast := herror ⟨.unexpectedCharacter '/', ⟨1, 3, 2⟩⟩ '/' (by simp) rfl (by decide)
  exact ⟨htokens 0 _ rfl (by decide), hlast⟩

end Lexer

end GrammarTokens
