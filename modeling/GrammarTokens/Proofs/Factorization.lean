import GrammarTokens.Proofs.LexemeReading
import GrammarTokens.Proofs.Positions

/-!
# Texts as blanks and lexemes

A text is cut into pieces, each a lexeme with the blanks in front of it, up to a place where it
is stuck: neither a blank nor a lexeme follows. Every text has such a cut and only one.
-/

namespace GrammarTokens

/-- A lexeme with the blanks in front of it. -/
@[ext]
structure Piece where
  blanks : List Char
  kind : Token.Kind
  lexeme : List Char
deriving DecidableEq, Repr

namespace Piece

/-- The text of the token: an action block leaves out its outer braces. -/
def text (p : Piece) : String :=
  match p.kind with
  | .actionBlock => String.ofList p.lexeme.tail.dropLast
  | _ => String.ofList p.lexeme

def source (pieces : List Piece) : List Char :=
  pieces.flatMap fun p => p.blanks ++ p.lexeme

/-- The tokens of pieces that stand behind the text `before`. -/
def tokens (before : List Char) : List Piece → List Token
  | [] => []
  | p :: pieces =>
    let start := before ++ p.blanks
    let stop := start ++ p.lexeme
    ⟨p.kind, p.text, ⟨.after start, .after stop⟩⟩ :: tokens stop pieces

def token (before : List Char) (p : Piece) : Token :=
  ⟨p.kind, p.text, ⟨.after (before ++ p.blanks), .after (before ++ p.blanks ++ p.lexeme)⟩⟩

lemma tokens_cons (before : List Char) (p : Piece) (pieces : List Piece) :
    tokens before (p :: pieces) =
      p.token before :: tokens (before ++ p.blanks ++ p.lexeme) pieces := rfl

/-- Pieces whose lexemes are such in front of what follows them, at last the text `after`. -/
inductive InContext : List Piece → List Char → Prop where
  | nil {after : List Char} : InContext [] after
  | cons {p : Piece} {pieces : List Piece} {after : List Char} :
    (∀ c ∈ p.blanks, isBlank c) → Lexeme p.kind p.lexeme (source pieces ++ after) →
    InContext pieces after → InContext (p :: pieces) after

/-- A text is the pieces, blanks behind the last one, and a rest. -/
structure Factors (cs : List Char) (pieces : List Piece) (blanks rest : List Char) : Prop where
  source_eq : cs = source pieces ++ blanks ++ rest
  lexemes : InContext pieces (blanks ++ rest)
  blank : ∀ c ∈ blanks, isBlank c

lemma text_of_raw {p : Piece} {text : String} (h : p.kind.raw text = p.lexeme) : p.text = text := by
  rw [Piece.text, ← h]
  cases p.kind <;> simp [Token.Kind.raw]

@[simp] lemma source_nil : source [] = [] := rfl

@[simp] lemma source_cons (p : Piece) (pieces : List Piece) :
    source (p :: pieces) = p.blanks ++ p.lexeme ++ source pieces := by
  simp [source]

lemma source_append (front back : List Piece) :
    source (front ++ back) = source front ++ source back :=
  List.flatMap_append

lemma tokens_append (before : List Char) (front back : List Piece) :
    tokens before (front ++ back) =
      tokens before front ++ tokens (before ++ source front) back := by
  induction front generalizing before with
  | nil => simp [tokens]
  | cons p front ih => simp [tokens_cons, ih]

lemma length_tokens (before : List Char) (pieces : List Piece) :
    (tokens before pieces).length = pieces.length := by
  induction pieces generalizing before with
  | nil => rfl
  | cons p pieces ih => rw [tokens_cons, List.length_cons, List.length_cons, ih]

lemma InContext.append {front back : List Piece} {after : List Char}
    (h : InContext (front ++ back) after) :
    InContext front (source back ++ after) ∧ InContext back after := by
  induction front with
  | nil => exact ⟨.nil, h⟩
  | cons p front ih =>
    rw [List.cons_append] at h
    cases h with
    | cons hblanks hlexeme hpieces =>
      obtain ⟨hfront, hback⟩ := ih hpieces
      rw [source_append, List.append_assoc] at hlexeme
      exact ⟨.cons hblanks hlexeme hfront, hback⟩

lemma InContext.join {front back : List Piece} {after : List Char}
    (hfront : InContext front (source back ++ after)) (hback : InContext back after) :
    InContext (front ++ back) after := by
  induction front with
  | nil => exact hback
  | cons p front ih =>
    cases hfront with
    | cons hblanks hlexeme hpieces =>
      rw [← List.append_assoc, ← source_append] at hlexeme
      exact .cons hblanks hlexeme (ih hpieces)

end Piece

/-- A text that goes on with neither a blank nor a lexeme. -/
structure Stuck (rest : List Char) : Prop where
  not_blank : ∀ c ∈ rest.head?, isBlank c = false
  no_lexeme : ∀ kind lexeme after, rest = lexeme ++ after → ¬ Lexeme kind lexeme after

lemma classify_blank {c : Char} (hc : isBlank c) :
    Opening.classify (some c) = .unexpected c := by
  rcases isBlank_iff.mp hc with rfl | rfl | rfl | rfl <;> decide

lemma not_blank_of_classify {c : Char} {first : Scan}
    (h : Opening.classify (some c) = .lexeme first) : isBlank c = false := by
  rw [Bool.eq_false_iff]
  intro hc
  rw [classify_blank hc] at h
  cases h

lemma exists_first_of_lexeme {kind : Token.Kind} {lexeme after : List Char}
    (h : Lexeme kind lexeme after) : ∃ c cs, lexeme = c :: cs ∧ isBlank c = false := by
  obtain ⟨c, first, -, -, hhead, hfirst, -⟩ := read_of_lexeme h
  obtain ⟨cs, hcs⟩ := List.head?_eq_some_iff.mp hhead
  exact ⟨c, cs, hcs, not_blank_of_classify hfirst⟩

lemma Piece.InContext.eq_nil {pieces : List Piece} {after : List Char}
    (h : Piece.InContext pieces after) (hsource : Piece.source pieces = []) : pieces = [] := by
  cases h with
  | nil => rfl
  | cons _ hlexeme _ =>
    obtain ⟨c, cs, hcs, -⟩ := exists_first_of_lexeme hlexeme
    simp [hcs] at hsource

lemma Piece.raw_token {p : Piece} {before after : List Char} (h : Lexeme p.kind p.lexeme after) :
    (p.token before).raw = p.lexeme := by
  obtain ⟨c, first, text, stop, -, -, -, -, -, hraw, -⟩ := read_of_lexeme h
  rw [Token.raw, Piece.token, Piece.text_of_raw hraw]
  exact hraw

theorem lexeme_unique {kind kind' : Token.Kind} {lexeme lexeme' after after' : List Char}
    (h : Lexeme kind lexeme after) (h' : Lexeme kind' lexeme' after')
    (heq : lexeme ++ after = lexeme' ++ after') :
    kind = kind' ∧ lexeme = lexeme' ∧ after = after' := by
  obtain ⟨c, first, text, stop, hhead, hfirst, hkind, hread, -⟩ := read_of_lexeme h
  obtain ⟨c', first', text', stop', hhead', hfirst', hkind', hread', -⟩ := read_of_lexeme h'
  obtain ⟨cs, rfl⟩ := List.head?_eq_some_iff.mp hhead
  obtain ⟨cs', rfl⟩ := List.head?_eq_some_iff.mp hhead'
  obtain ⟨rfl, -⟩ := List.cons.inj heq
  rw [hfirst] at hfirst'
  cases hfirst'
  rw [heq, hread'] at hread
  obtain ⟨hlexeme, -, hafter, -⟩ := Scan.Reading.mk.inj hread
  exact ⟨hkind.symm.trans hkind', hlexeme.symm, hafter.symm⟩

lemma stuck_nil : Stuck [] where
  not_blank := by simp
  no_lexeme := by
    intro kind lexeme after heq h
    obtain ⟨c, cs, rfl, -⟩ := exists_first_of_lexeme h
    cases heq

lemma ne_nil_of_malformed {rest : List Char} {cause : LexError.Cause} (h : Malformed rest cause) :
    rest ≠ [] := by
  rintro rfl
  cases h

/-- What is wrong with a text depends on it alone. -/
theorem malformed_unique {rest : List Char} {cause cause' : LexError.Cause}
    (h : Malformed rest cause) (h' : Malformed rest cause') : cause = cause' := by
  obtain ⟨c, hc, hcase⟩ := read_of_malformed h
  obtain ⟨c', hc', hcase'⟩ := read_of_malformed h'
  rw [hc] at hc'
  obtain rfl := Option.some.inj hc'
  rcases hcase with ⟨hclass, rfl, -⟩ | ⟨first, hclass, hfault, -⟩
  · rcases hcase' with ⟨-, rfl, -⟩ | ⟨first', hclass', -⟩
    · rfl
    · rw [hclass] at hclass'
      cases hclass'
  · rcases hcase' with ⟨hclass', -⟩ | ⟨first', hclass', hfault', -⟩
    · rw [hclass] at hclass'
      cases hclass'
    · rw [hclass] at hclass'
      cases hclass'
      rw [hfault] at hfault'
      exact Option.some.inj hfault'

theorem stuck_of_malformed {rest : List Char} {cause : LexError.Cause}
    (h : Malformed rest cause) : Stuck rest where
  not_blank := by
    intro c hc
    obtain ⟨d, hd, hcase⟩ := read_of_malformed h
    rw [Option.mem_def.mp hc] at hd
    obtain rfl := Option.some.inj hd
    rcases hcase with ⟨hclass, rfl, -⟩ | ⟨first, hclass, -⟩
    · cases h with
      | loneSlash hrest => decide
      | unexpectedCharacter hblank => exact hblank
    · exact not_blank_of_classify hclass
  no_lexeme := by
    intro kind lexeme after heq hlexeme
    obtain ⟨c, first, text, stop, hhead, hfirst, -, hread, hstop, -⟩ := read_of_lexeme hlexeme
    obtain ⟨d, hd, hcase⟩ := read_of_malformed h
    obtain ⟨cs, rfl⟩ := List.head?_eq_some_iff.mp hhead
    rw [heq] at hd hcase
    obtain rfl := Option.some.inj hd
    rcases hcase with ⟨hclass, -⟩ | ⟨first', hclass, hfault, -⟩
    · rw [hfirst] at hclass
      cases hclass
    · rw [hfirst] at hclass
      cases hclass
      rw [hread, hstop] at hfault
      cases hfault

theorem malformed_of_stuck {rest : List Char} (hrest : rest ≠ []) (h : Stuck rest) :
    ∃ cause, Malformed rest cause := by
  obtain ⟨c, cs, rfl⟩ := List.exists_cons_of_ne_nil hrest
  rcases lexeme_or_malformed cs (h.not_blank c rfl) with
    ⟨kind, lexeme, after, heq, hlexeme⟩ | hcause
  · exact absurd hlexeme (h.no_lexeme kind lexeme after heq)
  · exact hcause

namespace Piece

lemma Factors.cons {p : Piece} {cs rest blanks : List Char} {pieces : List Piece}
    (h : Factors cs pieces blanks rest) (hblanks : ∀ c ∈ p.blanks, isBlank c)
    (hlexeme : Lexeme p.kind p.lexeme cs) :
    Factors (p.blanks ++ p.lexeme ++ cs) (p :: pieces) blanks rest where
  source_eq := by simp [h.source_eq]
  lexemes := by
    refine .cons hblanks ?_ h.lexemes
    rw [← List.append_assoc, ← h.source_eq]
    exact hlexeme
  blank := h.blank

lemma Factors.uncons {p : Piece} {cs rest blanks : List Char} {pieces : List Piece}
    (h : Factors cs (p :: pieces) blanks rest) :
    ∃ after, cs = p.blanks ++ (p.lexeme ++ after) ∧ (∀ c ∈ p.blanks, isBlank c) ∧
      Lexeme p.kind p.lexeme after ∧ Factors after pieces blanks rest := by
  cases h.lexemes with
  | cons hblanks hlexeme hpieces =>
    refine ⟨source pieces ++ (blanks ++ rest), ?_, hblanks, hlexeme, ?_, hpieces, h.blank⟩
    · rw [h.source_eq]
      simp
    · simp

lemma lexeme_not_blank {kind : Token.Kind} {lexeme after : List Char}
    (h : Lexeme kind lexeme after) : ∀ c ∈ (lexeme ++ after).head?, isBlank c = false := by
  obtain ⟨c, cs, rfl, hc⟩ := exists_first_of_lexeme h
  intro d hd
  obtain rfl : c = d := by simpa using hd
  exact hc

/-- Every text is cut into pieces up to a place where it is stuck. -/
theorem exists_factors (cs : List Char) :
    ∃ pieces blanks rest, Factors cs pieces blanks rest ∧ Stuck rest := by
  -- A piece is not empty, so the text behind it is shorter.
  induction hn : cs.length using Nat.strong_induction_on generalizing cs with
  | _ n ih =>
    obtain ⟨blanks, rest, rfl, hblanks, hrest⟩ := longest_run isBlank cs
    have hhere (hstuck : Stuck rest) : ∃ pieces blanks' rest',
        Factors (blanks ++ rest) pieces blanks' rest' ∧ Stuck rest' :=
      ⟨[], blanks, rest, ⟨rfl, .nil, hblanks⟩, hstuck⟩
    cases rest with
    | nil => exact hhere stuck_nil
    | cons c cs =>
      rcases lexeme_or_malformed cs (hrest c rfl) with
        ⟨kind, lexeme, after, heq, hlexeme⟩ | ⟨_, hcause⟩
      · obtain ⟨d, ds, hd, -⟩ := exists_first_of_lexeme hlexeme
        have hshorter : after.length < n := by
          rw [← hn, heq, hd, List.length_append, List.cons_append, List.length_cons,
            List.length_append]
          omega
        obtain ⟨pieces, blanks', rest', hfactors, hstuck⟩ := ih _ hshorter after rfl
        refine ⟨⟨blanks, kind, lexeme⟩ :: pieces, blanks', rest', ?_, hstuck⟩
        rw [heq, ← List.append_assoc]
        exact Factors.cons (p := ⟨blanks, kind, lexeme⟩) hfactors hblanks hlexeme
      · exact hhere (stuck_of_malformed hcause)

lemma blanks_unique {blanks blanks' rest rest' : List Char} (hblanks : ∀ c ∈ blanks, isBlank c)
    (hblanks' : ∀ c ∈ blanks', isBlank c) (hrest : ∀ c ∈ rest.head?, isBlank c = false)
    (hrest' : ∀ c ∈ rest'.head?, isBlank c = false) (heq : blanks ++ rest = blanks' ++ rest') :
    blanks = blanks' ∧ rest = rest' := by
  induction blanks generalizing blanks' with
  | nil =>
    cases blanks' with
    | nil => exact ⟨rfl, heq⟩
    | cons b blanks' =>
      have hb := hrest b (by rw [← List.nil_append rest, heq]; rfl)
      rw [hblanks' b List.mem_cons_self] at hb
      cases hb
  | cons b blanks ih =>
    cases blanks' with
    | nil =>
      have hb := hrest' b (by rw [← List.nil_append rest', ← heq]; rfl)
      rw [hblanks b List.mem_cons_self] at hb
      cases hb
    | cons b' blanks' =>
      obtain ⟨rfl, htail⟩ := List.cons.inj heq
      obtain ⟨rfl, hsame⟩ := ih (fun c hc => hblanks c (List.mem_cons_of_mem b hc))
        (fun c hc => hblanks' c (List.mem_cons_of_mem b hc)) htail
      exact ⟨rfl, hsame⟩

theorem factors_unique {cs : List Char} {pieces pieces' : List Piece}
    {blanks blanks' rest rest' : List Char} (h : Factors cs pieces blanks rest)
    (h' : Factors cs pieces' blanks' rest') (hstuck : Stuck rest) (hstuck' : Stuck rest') :
    pieces = pieces' ∧ blanks = blanks' ∧ rest = rest' := by
  induction pieces generalizing cs pieces' with
  | nil =>
    have hcs : cs = blanks ++ rest := h.source_eq
    cases pieces' with
    | nil =>
      have hcs' : cs = blanks' ++ rest' := h'.source_eq
      exact ⟨rfl, blanks_unique h.blank h'.blank hstuck.not_blank hstuck'.not_blank (hcs ▸ hcs')⟩
    | cons p' pieces' =>
      obtain ⟨after', hcs', hblanks', hlexeme', -⟩ := h'.uncons
      have hrest := (blanks_unique h.blank hblanks' hstuck.not_blank (lexeme_not_blank hlexeme')
        (hcs ▸ hcs')).2
      exact absurd hlexeme' (hstuck.no_lexeme _ _ _ hrest)
  | cons p pieces ih =>
    obtain ⟨after, hcs, hblanks, hlexeme, hfactors⟩ := h.uncons
    cases pieces' with
    | nil =>
      have hcs' : cs = blanks' ++ rest' := h'.source_eq
      have hrest := (blanks_unique h'.blank hblanks hstuck'.not_blank (lexeme_not_blank hlexeme)
        (hcs' ▸ hcs)).2
      exact absurd hlexeme (hstuck'.no_lexeme _ _ _ hrest)
    | cons p' pieces' =>
      obtain ⟨after', hcs', hblanks', hlexeme', hfactors'⟩ := h'.uncons
      obtain ⟨hsame, hlexemes⟩ := blanks_unique hblanks hblanks' (lexeme_not_blank hlexeme)
        (lexeme_not_blank hlexeme') (hcs ▸ hcs')
      obtain ⟨hkind, hraw, rfl⟩ := lexeme_unique hlexeme hlexeme' hlexemes
      obtain ⟨rfl, hrest⟩ := ih hfactors hfactors'
      have hp : p = p' := Piece.ext hsame hkind hraw
      exact ⟨hp ▸ rfl, hrest⟩

end Piece

end GrammarTokens
