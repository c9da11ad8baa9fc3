import GrammarTokens.Proofs.Drawing

/-!
# Runs under bounds

A lexer with bounds does what it would do without, up to the first scan that a bound refuses: one
whose number is too high or whose text grows too long. There it stops with an error at the place
where the scan began.
-/

namespace GrammarTokens

namespace Lexer

/-- The bytes that a scan of the text has gathered when it is over, by what it returned. -/
def scanSize (text : String) : Except LexError Token → Nat
  | .ok token => token.text.utf8ByteSize
  | .error e =>
    match e.cause with
    | .unterminatedLiteral _ | .unterminatedComment => text.utf8ByteSize - e.position.offset
    | .unterminatedAction _ => text.utf8ByteSize - (e.position.offset + 1)
    | .unexpectedCharacter c => if c = '/' then 1 else 0
    | .readFailed _ | .tokenTooLong _ | .tooManyTokens _ => 0

def scanStart : Except LexError Token → Position
  | .ok token => token.span.start
  | .error e => e.position

lemma scanSize_of_malformed {text : String} {before rest : List Char} {cause : LexError.Cause}
    (htext : text.toList = before ++ rest) (hrest : Malformed rest cause) :
    scanSize text (.error ⟨cause, .after before⟩) = utf8Length (cause.textBefore rest) := by
  have hsize : text.utf8ByteSize = utf8Length before + utf8Length rest := by
    rw [← utf8Length_toList, htext, utf8Length_append]
  have hbrace : '{'.utf8Size = 1 := rfl
  have hslash : '/'.utf8Size = 1 := rfl
  cases hrest with
  | unterminatedLiteral | unterminatedComment =>
    simp [scanSize, LexError.Cause.textBefore, Position.after, hsize]
  | unterminatedAction =>
    simp only [scanSize, LexError.Cause.textBefore, Position.after, hsize, utf8Length_cons, hbrace,
      List.tail_cons]
    omega
  | loneSlash => simp [scanSize, LexError.Cause.textBefore, hslash]
  | @unexpectedCharacter c _ _ _ _ _ hspecial =>
    have hc : c ≠ '/' := by
      rintro rfl
      simp at hspecial
    simp [scanSize, LexError.Cause.textBefore, hc]

/-- Whether neither bound refuses one of the first `n` scans of the run without bounds. -/
def Admits (options : Options) (text : String) (n : Nat) : Prop :=
  ∀ i < n, ∀ item, (ofText text).rest.1[i]? = some item →
    options.refusal? (i + 1) (scanSize text item) = none

lemma admits_of_all {options : Options} {text : String}
    (h : Admits options text (ofText text).rest.1.length) (n : Nat) : Admits options text n := by
  intro i _ item hitem
  exact h i (List.getElem?_eq_some_iff.mp hitem).1 item hitem

section

variable {text : String} {options : Options} {front : List Piece} {blanks rest : List Char}

lemma gives_of_pieces {later : List Char} {last : Except LexError Token}
    (htext : text.toList = Piece.source front ++ later) (hfront : Piece.InContext front later)
    (hroom : ∀ i p, front[i]? = some p → options.refusal? (i + 1) p.text.utf8ByteSize = none)
    (hlast : ∀ m : Lexer (List Char), m.StandsAt (Piece.source front) later .ended →
      m.options = options → m.count = front.length → ∃ final, m.Finishes last final) :
    (ofText text options).Gives (Piece.tokens [] front) last := by
  have hstands := standsAt_ofText text options
  rw [htext] at hstands
  have hadmitted : ∀ i p, front[i]? = some p → (ofText text options).options.refusal?
      ((ofText text options).count + i + 1) p.text.utf8ByteSize = none := by
    intro i p hp
    have hcount : (ofText text options).count + i = i := Nat.zero_add i
    rw [hcount]
    exact hroom i p hp
  obtain ⟨m, hpasses, hm, hoptions, hcount⟩ :=
    passes_pieces hstands hfront (fun _ _ _ _ => rfl) hadmitted
  obtain ⟨final, hfinal⟩ := hlast m hm hoptions (hcount.trans (Nat.zero_add _))
  exact gives_of_finishes hpasses hfinal

/-- The first scan that a bound refuses ends the run with an error where the scan began. -/
lemma gives_of_refusal {cause : LexError.Cause}
    (htext : text.toList = Piece.source front ++ (blanks ++ rest))
    (hfront : Piece.InContext front (blanks ++ rest)) (hblanks : ∀ c ∈ blanks, isBlank c)
    (hrest : ∃ c cs, rest = c :: cs ∧ isBlank c = false)
    (hroom : ∀ i p, front[i]? = some p → options.refusal? (i + 1) p.text.utf8ByteSize = none)
    (hrefusal : options.refusal? (front.length + 1) (utf8Length (Opening.textRead rest)) =
      some cause) :
    (ofText text options).Gives (Piece.tokens [] front)
      (.error ⟨cause, .after (Piece.source front ++ blanks)⟩) := by
  obtain ⟨c, cs, rfl, hc⟩ := hrest
  apply gives_of_pieces htext hfront hroom
  intro m hm hoptions hcount
  rw [← hoptions, ← hcount] at hrefusal
  exact finishes_of_refusal hm hblanks hc hrefusal

lemma gives_of_refused_piece {p : Piece} {back : List Piece} {later : List Char}
    {cause : LexError.Cause} (htext : text.toList = Piece.source (front ++ p :: back) ++ later)
    (hpieces : Piece.InContext (front ++ p :: back) later)
    (hroom : ∀ i q, front[i]? = some q → options.refusal? (i + 1) q.text.utf8ByteSize = none)
    (hrefusal : options.refusal? (front.length + 1) p.text.utf8ByteSize = some cause) :
    (ofText text options).Gives (Piece.tokens [] front)
      (.error ⟨cause, .after (Piece.source front ++ p.blanks)⟩) := by
  obtain ⟨hfront, hback⟩ := hpieces.append
  rw [Piece.source_append, List.append_assoc] at htext
  rw [Piece.source_cons, List.append_assoc, List.append_assoc] at htext hfront
  cases hback with
  | cons hblanks hlexeme _ =>
    obtain ⟨c, cs, hcs, hc⟩ := exists_first_of_lexeme hlexeme
    rw [← utf8Length_toList, ← textRead_of_lexeme hlexeme] at hrefusal
    exact gives_of_refusal htext hfront hblanks ⟨c, _, by rw [hcs]; rfl, hc⟩ hroom hrefusal

end

lemma scan_of_answerBehind {text : String} {before rest : List Char}
    {last : Except LexError Token} (htext : text.toList = before ++ rest)
    (hlast : AnswerBehind before rest last) :
    rest = [] ∧ itemOf last = none ∨ rest ≠ [] ∧ itemOf last = some last ∧
      scanStart last = .after before ∧
      scanSize text last = utf8Length (Opening.textRead rest) := by
  cases hlast with
  | ended => exact .inl ⟨rfl, rfl⟩
  | stuck hcause =>
    obtain ⟨c, hhead, -⟩ := read_of_malformed hcause
    obtain ⟨cs, rfl⟩ := List.head?_eq_some_iff.mp hhead
    rw [textRead_of_malformed hcause]
    exact .inr ⟨List.cons_ne_nil c cs, rfl, rfl, scanSize_of_malformed htext hcause⟩

section

variable {text : String} {options : Options} {pieces : List Piece} {blanks rest : List Char}
  {last : Except LexError Token}

lemma rest_ofText (h : Piece.Factors text.toList pieces blanks rest)
    (hlast : AnswerBehind (Piece.source pieces ++ blanks) rest last) :
    (ofText text).rest.1 = (Piece.tokens [] pieces).map .ok ++ (itemOf last).toList := by
  obtain ⟨m, final, hpasses, hfinal⟩ := run_of_factors h hlast
  exact rest_of_finishes hpasses hfinal

lemma length_map_tokens (pieces : List Piece) :
    ((Piece.tokens [] pieces).map (.ok : Token → Except LexError Token)).length =
      pieces.length := by
  rw [List.length_map, Piece.length_tokens]

lemma getElem?_rest_behind (h : Piece.Factors text.toList pieces blanks rest)
    (hlast : AnswerBehind (Piece.source pieces ++ blanks) rest last) (j : Nat) :
    (ofText text).rest.1[pieces.length + j]? = (itemOf last).toList[j]? := by
  rw [rest_ofText h hlast, ← length_map_tokens pieces,
    List.getElem?_append_right (Nat.le_add_right _ _), Nat.add_sub_cancel_left]

lemma take_rest {front : List Piece} (h : Piece.Factors text.toList pieces blanks rest)
    (hlast : AnswerBehind (Piece.source pieces ++ blanks) rest last) (hfront : front <+: pieces) :
    (ofText text).rest.1.take front.length = (Piece.tokens [] front).map .ok := by
  obtain ⟨back, rfl⟩ := hfront
  rw [rest_ofText h hlast, Piece.tokens_append, List.map_append, List.append_assoc,
    ← length_map_tokens front, List.take_left]

lemma getElem?_rest {front back : List Piece} {p : Piece}
    (h : Piece.Factors text.toList (front ++ p :: back) blanks rest)
    (hlast : AnswerBehind (Piece.source (front ++ p :: back) ++ blanks) rest last) :
    (ofText text).rest.1[front.length]? = some (.ok (p.token (Piece.source front))) := by
  rw [rest_ofText h hlast, Piece.tokens_append, List.map_append, List.append_assoc,
    ← length_map_tokens front, List.getElem?_append_right (Nat.le_refl _), Nat.sub_self]
  rfl

lemma split_at {i : Nat} {p : Piece} (h : pieces[i]? = some p) :
    ∃ front back, pieces = front ++ p :: back ∧ i = front.length := by
  obtain ⟨hi, rfl⟩ := List.getElem?_eq_some_iff.mp h
  refine ⟨pieces.take i, pieces.drop (i + 1), ?_, ?_⟩
  · rw [← List.drop_eq_getElem_cons hi, List.take_append_drop]
  · rw [List.length_take, Nat.min_eq_left (Nat.le_of_lt hi)]

lemma room_of_admits (h : Piece.Factors text.toList pieces blanks rest)
    (hlast : AnswerBehind (Piece.source pieces ++ blanks) rest last) {n : Nat}
    (hadmits : Admits options text n) {i : Nat} (hi : i < n) {p : Piece}
    (hp : pieces[i]? = some p) : options.refusal? (i + 1) p.text.utf8ByteSize = none := by
  obtain ⟨front, back, rfl, rfl⟩ := split_at hp
  exact hadmits front.length hi _ (getElem?_rest h hlast)

theorem gives_of_admits (h : Piece.Factors text.toList pieces blanks rest)
    (hlast : AnswerBehind (Piece.source pieces ++ blanks) rest last)
    (hadmits : ∀ n, Admits options text n) :
    (ofText text options).Gives (Piece.tokens [] pieces) last := by
  have htext : text.toList = Piece.source pieces ++ (blanks ++ rest) := by
    rw [h.source_eq, List.append_assoc]
  apply gives_of_pieces htext h.lexemes
  · intro i p hp
    exact room_of_admits h hlast (hadmits (i + 1)) (Nat.lt_succ_self i) hp
  · intro m hm hoptions hcount
    apply finishes_of_answerBehind hm h.blank hlast
    intro hne
    obtain ⟨hnil, -⟩ | ⟨-, hitem, -, hsize⟩ := scan_of_answerBehind h.source_eq hlast
    · exact absurd hnil hne
    · have hscan := getElem?_rest_behind h hlast 0
      rw [hitem] at hscan
      rw [hoptions, hcount, ← hsize]
      exact hadmits (pieces.length + 1) pieces.length (Nat.lt_succ_self _) last hscan

theorem gives_of_first_refused (h : Piece.Factors text.toList pieces blanks rest)
    (hstuck : Stuck rest) (hlast : AnswerBehind (Piece.source pieces ++ blanks) rest last) {k : Nat}
    {item : Except LexError Token} {cause : LexError.Cause}
    (hitem : (ofText text).rest.1[k]? = some item)
    (hrefusal : options.refusal? (k + 1) (scanSize text item) = some cause)
    (hadmits : Admits options text k) :
    ∃ tokens, (ofText text).rest.1.take k = tokens.map .ok ∧
      (ofText text options).Gives tokens (.error ⟨cause, scanStart item⟩) := by
  have htext : text.toList = Piece.source pieces ++ (blanks ++ rest) := by
    rw [h.source_eq, List.append_assoc]
  cases hk : pieces[k]? with
  | some p =>
    -- The scan returned the token of a piece.
    obtain ⟨front, back, rfl, rfl⟩ := split_at hk
    rw [getElem?_rest h hlast] at hitem
    cases hitem
    refine ⟨_, take_rest h hlast (List.prefix_append _ _), ?_⟩
    apply gives_of_refused_piece htext h.lexemes _ hrefusal
    intro i q hq
    have hi := (List.getElem?_eq_some_iff.mp hq).1
    apply room_of_admits h hlast hadmits hi
    rw [List.getElem?_append_left hi, hq]
  | none =>
    -- The scan found no token.
    obtain ⟨j, rfl⟩ := Nat.exists_eq_add_of_le (List.getElem?_eq_none_iff.mp hk)
    rw [getElem?_rest_behind h hlast] at hitem
    obtain ⟨-, hnone⟩ | ⟨hne, hsome, hstart, hsize⟩ := scan_of_answerBehind h.source_eq hlast
    · rw [hnone] at hitem
      cases hitem
    rw [hsome] at hitem
    obtain ⟨rfl, rfl⟩ : j = 0 ∧ last = item := by cases j <;> simp_all
    obtain ⟨c, cs, rfl⟩ := List.exists_cons_of_ne_nil hne
    rw [hsize] at hrefusal
    rw [hstart]
    refine ⟨_, take_rest h hlast List.prefix_rfl, ?_⟩
    apply gives_of_refusal htext h.lexemes h.blank ⟨c, cs, rfl, hstuck.not_blank c rfl⟩ _ hrefusal
    intro i q hq
    exact room_of_admits h hlast hadmits (List.getElem?_eq_some_iff.mp hq).1 hq

end

/-- If the bounds refuse no scan of the run without bounds, they change no answer. Otherwise the run
under the bounds returns the tokens in front of the first refused scan, and then for ever an error
at the place where that scan began: there are too many tokens if the number of the scan is too high,
and else its text is too long. -/
theorem answers_under_bounds (text : String) (options : Options) :
    (Admits options text (ofText text).rest.1.length →
      ∀ n, answers nextToken n (ofText text options) = answers nextToken n (ofText text)) ∧
    ∀ k item cause, (ofText text).rest.1[k]? = some item → Admits options text k →
      options.refusal? (k + 1) (scanSize text item) = some cause →
      ∃ tokens, (ofText text).rest.1.take k = tokens.map .ok ∧
        (ofText text options).Gives tokens (.error ⟨cause, scanStart item⟩) := by
  obtain ⟨pieces, blanks, rest, hfactors, hstuck⟩ := Piece.exists_factors text.toList
  obtain ⟨last, hlast⟩ := exists_answerBehind hstuck (Piece.source pieces ++ blanks)
  constructor
  · intro hall n
    obtain ⟨m, final, hpasses, hfinal⟩ := run_of_factors hfactors hlast
    have hgives := gives_of_finishes hpasses hfinal
    rw [(gives_of_admits hfactors hlast (admits_of_all hall)).answers_eq, hgives.answers_eq]
  · intro k item cause hitem hadmits hrefusal
    exact gives_of_first_refused hfactors hstuck hlast hitem hrefusal hadmits

/-- The second identifier has three bytes. With two tokens of two bytes each allowed, the literal
behind it is not reached; with three tokens of three bytes, everything is as without bounds. -/
theorem answers_under_bounds_two_bytes :
    (ofText "a bé ''").rest.1[1]? = some (.ok ⟨.identifier, "bé", ⟨⟨1, 3, 2⟩, ⟨1, 5, 5⟩⟩⟩) ∧
    Admits ⟨some 2, some 2, 0⟩ "a bé ''" 1 ∧
    Options.refusal? ⟨some 2, some 2, 0⟩ 2
      (scanSize "a bé ''" (.ok ⟨.identifier, "bé", ⟨⟨1, 3, 2⟩, ⟨1, 5, 5⟩⟩⟩)) =
        some (.tokenTooLong 2) ∧
    (ofText "a bé ''" ⟨some 2, some 2, 0⟩).Gives [⟨.identifier, "a", ⟨⟨1, 1, 0⟩, ⟨1, 2, 1⟩⟩⟩]
      (.error ⟨.tokenTooLong 2, ⟨1, 3, 2⟩⟩) ∧
    Admits ⟨some 3, some 3, 0⟩ "a bé ''" (ofText "a bé ''").rest.1.length ∧
    ∀ n, answers nextToken n (ofText "a bé ''" ⟨some 3, some 3, 0⟩) =
      answers nextToken n (ofText "a bé ''") := by
  have hrest : (ofText "a bé ''").rest.1 = [.ok ⟨.identifier, "a", ⟨⟨1, 1, 0⟩, ⟨1, 2, 1⟩⟩⟩,
      .ok ⟨.identifier, "bé", ⟨⟨1, 3, 2⟩, ⟨1, 5, 5⟩⟩⟩,
      .ok ⟨.quotedLiteral, "''", ⟨⟨1, 6, 6⟩, ⟨1, 8, 8⟩⟩⟩] := by
    decide +kernel
  have hsecond : (ofText "a bé ''").rest.1[1]? =
      some (.ok ⟨.identifier, "bé", ⟨⟨1, 3, 2⟩, ⟨1, 5, 5⟩⟩⟩) := by
    rw [hrest]
    rfl
  have hfirst : Admits ⟨some 2, some 2, 0⟩ "a bé ''" 1 := by
    intro i hi item hitem
    obtain rfl : i = 0 := by omega
    rw [hrest] at hitem
    cases hitem
    decide
  have hall : Admits ⟨some 3, some 3, 0⟩ "a bé ''" (ofText "a bé ''").rest.1.length := by
    intro i hi item hitem
    rw [hrest] at hi hitem
    obtain rfl | rfl | rfl : i = 0 ∨ i = 1 ∨ i = 2 := by
      simp only [List.length_cons, List.length_nil] at hi
      omega
    · cases hitem
      decide
    · cases hitem
      decide
    · cases hitem
      decide
  have hrefusal : Options.refusal? ⟨some 2, some 2, 0⟩ 2
      (scanSize "a bé ''" (.ok ⟨.identifier, "bé", ⟨⟨1, 3, 2⟩, ⟨1, 5, 5⟩⟩⟩)) =
        some (.tokenTooLong 2) := by
    decide
  obtain ⟨tokens, htokens, hgives⟩ := (answers_under_bounds "a bé ''" ⟨some 2, some 2, 0⟩).2 1 _ _
    hsecond hfirst hrefusal
  obtain rfl : tokens = [⟨.identifier, "a", ⟨⟨1, 1, 0⟩, ⟨1, 2, 1⟩⟩⟩] := by
    rw [hrest] at htokens
    simpa using htokens.symm
  exact ⟨hsecond, hfirst, hrefusal, hgives, hall,
    (answers_under_bounds "a bé ''" ⟨some 3, some 3, 0⟩).1 hall⟩

end Lexer

end GrammarTokens
