import GrammarTokens.Proofs.Factorization
import GrammarTokens.Proofs.Runs

/-!
# Drawing tokens from what lies ahead

One call of a lexer is computed from the characters ahead of its source: it skips the blanks in
front and then meets the end, a lexeme, a malformed text, a bound or a failure. By induction over
the pieces of a text this gives the tokens of a run.
-/

namespace GrammarTokens

/-- The cause for which the bounds refuse a lexeme: its number is too high, or its text too long. -/
def Options.refusal? (o : Options) (number size : Nat) : Option LexError.Cause :=
  match o.maxTokens.filter (· < number), o.maxTokenLength.filter (· < size) with
  | some limit, _ => some (.tooManyTokens limit)
  | none, some limit => some (.tokenTooLong limit)
  | none, none => none

lemma filter_lt_eq_none_iff {limit : Option Nat} {n : Nat} :
    limit.filter (· < n) = none ↔ ∀ bound ∈ limit, n ≤ bound := by
  simp [Option.filter_eq_none_iff]

lemma refusal?_eq_none_iff {o : Options} {number size : Nat} :
    o.refusal? number size = none ↔
      (∀ bound ∈ o.maxTokens, number ≤ bound) ∧ ∀ bound ∈ o.maxTokenLength, size ≤ bound := by
  rw [← filter_lt_eq_none_iff, ← filter_lt_eq_none_iff, Options.refusal?]
  cases o.maxTokens.filter (· < number) <;> cases o.maxTokenLength.filter (· < size) <;> simp

/-- The bound on the number goes before the one on the text. -/
lemma refusal?_cases {o : Options} {number size : Nat} {cause : LexError.Cause}
    (h : o.refusal? number size = some cause) :
    (∃ bound, o.maxTokens = some bound ∧ bound < number ∧ cause = .tooManyTokens bound) ∨
      (∀ bound ∈ o.maxTokens, number ≤ bound) ∧
        ∃ bound, o.maxTokenLength = some bound ∧ bound < size ∧ cause = .tokenTooLong bound := by
  rw [Options.refusal?] at h
  cases hnumber : o.maxTokens.filter (· < number) with
  | some bound =>
    rw [hnumber] at h
    obtain ⟨hbound, hlt⟩ := Option.filter_eq_some_iff.mp hnumber
    exact .inl ⟨bound, hbound, of_decide_eq_true hlt, (Option.some.inj h).symm⟩
  | none =>
    right
    refine ⟨filter_lt_eq_none_iff.mp hnumber, ?_⟩
    cases hsize : o.maxTokenLength.filter (· < size) with
    | none =>
      rw [hnumber, hsize] at h
      cases h
    | some bound =>
      rw [hnumber, hsize] at h
      obtain ⟨hbound, hlt⟩ := Option.filter_eq_some_iff.mp hsize
      exact ⟨bound, hbound, of_decide_eq_true hlt, (Option.some.inj h).symm⟩

/-- The text that a lexeme at the front of the characters has when its reading stops. -/
def Opening.textRead (cs : List Char) : List Char :=
  match classify cs.head? with
  | .lexeme first => (first.read cs).text
  | .endOfStream | .unexpected _ => []

lemma textRead_of_lexeme {p : Piece} {after : List Char} (h : Lexeme p.kind p.lexeme after) :
    Opening.textRead (p.lexeme ++ after) = p.text.toList := by
  obtain ⟨c, first, text, stop, hhead, hfirst, -, hread, -, hraw, -⟩ := read_of_lexeme h
  obtain ⟨cs, hcs⟩ := List.head?_eq_some_iff.mp hhead
  have hopening : (p.lexeme ++ after).head? = some c := by rw [hcs]; rfl
  rw [Opening.textRead, hopening, hfirst, Piece.text_of_raw hraw, String.toList_ofList]
  exact congrArg Scan.Reading.text hread

lemma textRead_of_malformed {rest : List Char} {cause : LexError.Cause} (h : Malformed rest cause) :
    Opening.textRead rest = cause.textBefore rest := by
  obtain ⟨c, hhead, hcase⟩ := read_of_malformed h
  rw [Opening.textRead, hhead]
  rcases hcase with ⟨hunexpected, rfl, hc⟩ | ⟨first, hfirst, -, htext, -⟩
  · rw [hunexpected]
    simp only [LexError.Cause.textBefore, if_neg hc]
  · rw [hfirst]
    exact htext

/-- The answer behind the pieces of a text and some blanks: the text ends there, or it is stuck. -/
inductive AnswerBehind (before : List Char) : List Char → Except LexError Token → Prop where
  | ended : AnswerBehind before [] (.ok (.endOfStream (.after before)))
  | stuck {rest : List Char} {cause : LexError.Cause} :
    Malformed rest cause → AnswerBehind before rest (.error ⟨cause, .after before⟩)

lemma exists_answerBehind {rest : List Char} (h : Stuck rest) (before : List Char) :
    ∃ last, AnswerBehind before rest last := by
  by_cases hrest : rest = []
  · subst hrest
    exact ⟨_, .ended⟩
  · obtain ⟨cause, hcause⟩ := malformed_of_stuck hrest h
    exact ⟨_, .stuck hcause⟩

namespace Lexer

variable {ρ : Type} [CharFeed ρ]

omit [CharFeed ρ] in
lemma filter_maxTokens {l : Lexer ρ} (hcount : ∀ bound ∈ l.options.maxTokens, l.count + 1 ≤ bound) :
    l.options.maxTokens.filter (· ≤ l.count) = none := by
  simpa only [Nat.lt_succ_iff] using filter_lt_eq_none_iff.mpr hcount

section Scanning

variable {l : Lexer ρ} {blanks cs : List Char} {c : Char} {ending : Ending}

/-- The token of a lexeme ahead, its fault, or the failure that it reads on to, if neither bound
is met on the way. -/
theorem scanToken_of_opening {first : Scan} (hs : l.source.Yields (blanks ++ c :: cs) ending)
    (hblanks : ∀ d ∈ blanks, isBlank d) (hfirst : Opening.classify (some c) = .lexeme first)
    (hroom : l.options.refusal? (l.count + 1) (utf8Length (first.read (c :: cs)).text) = none) :
    ∃ t, l.scanToken = (((first.read (c :: cs)).answerBefore ending
          (l.source.position.advanceBy blanks)
          ((l.source.position.advanceBy blanks).advanceBy (first.read (c :: cs)).taken) "").map
        fun text => ⟨first.kind, text, ⟨l.source.position.advanceBy blanks, t.position⟩⟩, t) ∧
      t.position = (l.source.position.advanceBy blanks).advanceBy (first.read (c :: cs)).taken ∧
      ((first.read (c :: cs)).Halts ending → t.Yields (first.read (c :: cs)).rest ending) := by
  obtain ⟨hcount, hfits⟩ := refusal?_eq_none_iff.mp hroom
  obtain ⟨s, hskip, hposition, hyields⟩ := Source.skipBlanks_of_yields hblanks
    (fun d hd => by cases hd; exact not_blank_of_classify hfirst) (by simp) hs
  obtain ⟨t, hscan, ht, hrest⟩ := Source.scan_of_yields l.options.maxTokenLength s.position first ""
    hyields (by simpa using hfits)
  refine ⟨t, ?_, by rw [ht, hposition], hrest⟩
  rw [scanToken, hskip]
  simp only [List.head?_cons, hfirst, filter_maxTokens hcount, hscan, ← hposition]
  cases (first.read (c :: cs)).answerBefore ending s.position _ "" <;> rfl

theorem scanToken_of_unexpected (hs : l.source.Yields (blanks ++ c :: cs) ending)
    (hblanks : ∀ d ∈ blanks, isBlank d) (hc : isBlank c = false)
    (hunexpected : Opening.classify (some c) = .unexpected c)
    (hcount : ∀ bound ∈ l.options.maxTokens, l.count + 1 ≤ bound) :
    ∃ t, l.scanToken =
      (.error ⟨.unexpectedCharacter c, l.source.position.advanceBy blanks⟩, t) := by
  obtain ⟨s, hskip, hposition, -⟩ := Source.skipBlanks_of_yields hblanks
    (fun d hd => by cases hd; exact hc) (by simp) hs
  refine ⟨s, ?_⟩
  rw [scanToken, hskip]
  simp only [List.head?_cons, hunexpected, filter_maxTokens hcount, ← hposition]

theorem scanToken_of_blanks (hs : l.source.Yields blanks .ended)
    (hblanks : ∀ d ∈ blanks, isBlank d) :
    ∃ t, l.scanToken = (.ok (.endOfStream (l.source.position.advanceBy blanks)), t) := by
  rw [← List.append_nil blanks] at hs
  obtain ⟨s, hskip, hposition, -⟩ :=
    Source.skipBlanks_of_yields hblanks (by simp) (by simp) hs
  refine ⟨s, ?_⟩
  rw [scanToken, hskip]
  simp only [List.head?_nil, Opening.classify, ← hposition]

theorem scanToken_of_too_many {bound : Nat} (hs : l.source.Yields (blanks ++ c :: cs) ending)
    (hblanks : ∀ d ∈ blanks, isBlank d) (hc : isBlank c = false)
    (hbound : l.options.maxTokens = some bound) (hcount : bound < l.count + 1) :
    ∃ t, l.scanToken =
      (.error ⟨.tooManyTokens bound, l.source.position.advanceBy blanks⟩, t) := by
  obtain ⟨s, hskip, hposition, -⟩ := Source.skipBlanks_of_yields hblanks
    (fun d hd => by cases hd; exact hc) (by simp) hs
  have hmet : l.options.maxTokens.filter (· ≤ l.count) = some bound := by
    rw [hbound, Option.filter_some, if_pos (decide_eq_true (Nat.le_of_lt_succ hcount))]
  refine ⟨s, ?_⟩
  rw [scanToken, hskip]
  obtain ⟨first, hclass⟩ | hclass := Opening.classify_char c
  · simp only [List.head?_cons, hclass, hmet, ← hposition]
  · simp only [List.head?_cons, hclass, hmet, ← hposition]

theorem scanToken_of_too_long {first : Scan} {bound : Nat}
    (hs : l.source.Yields (blanks ++ c :: cs) ending) (hblanks : ∀ d ∈ blanks, isBlank d)
    (hfirst : Opening.classify (some c) = .lexeme first)
    (hcount : ∀ bound ∈ l.options.maxTokens, l.count + 1 ≤ bound)
    (hbound : l.options.maxTokenLength = some bound)
    (hlong : bound < utf8Length (first.read (c :: cs)).text) :
    ∃ t, l.scanToken = (.error ⟨.tokenTooLong bound, l.source.position.advanceBy blanks⟩, t) := by
  obtain ⟨s, hskip, hposition, hyields⟩ := Source.skipBlanks_of_yields hblanks
    (fun d hd => by cases hd; exact not_blank_of_classify hfirst) (by simp) hs
  obtain ⟨t, hscan⟩ := Source.scan_of_yields_too_long s.position first "" hyields (Nat.zero_le _)
    (by simpa using hlong)
  refine ⟨t, ?_⟩
  rw [scanToken, hskip]
  simp only [List.head?_cons, hfirst, filter_maxTokens hcount, hbound, hscan, ← hposition]

end Scanning

/-- A lexer that runs behind the text `before`, with the text `ahead` to come and then `ending`. -/
structure StandsAt (l : Lexer ρ) (before ahead : List Char) (ending : Ending) : Prop where
  running : l.status = .running
  position : l.source.position = .after before
  yields : l.source.Yields ahead ending

lemma standsAt_ofText (text : String) (options : Options) :
    (ofText text options).StandsAt [] text.toList .ended where
  running := rfl
  position := rfl
  yields := Source.yields_ofFeed (list_yields text.toList)

lemma kind_ne_endOfStream {kind : Token.Kind} {lexeme after : List Char}
    (h : Lexeme kind lexeme after) : kind ≠ .endOfStream := by
  rintro rfl
  cases h

section Standing

variable {l : Lexer ρ} {before blanks rest : List Char} {ending : Ending}

lemma StandsAt.start (h : l.StandsAt before rest ending) (blanks : List Char) :
    l.source.position.advanceBy blanks = .after (before ++ blanks) := by
  rw [h.position, advanceBy_after]

lemma nextToken_of_scanToken {token : Token} {s : Source ρ} (hrun : l.status = .running)
    (hscan : l.scanToken = (.ok token, s)) (htoken : token.isEndOfStream = false) :
    l.nextToken = (.ok token, { l with
      source := s, count := l.count + 1, log := l.log.push (.scanned token.kind token.span) }) := by
  simp [nextToken, hrun, hscan, htoken]

lemma finishes_of_error {e : LexError} {s : Source ρ} (hrun : l.status = .running)
    (hscan : l.scanToken = (.error e, s)) : ∃ final, l.Finishes (.error e) final := by
  refine ⟨{ l with source := s, status := .failed e, log := l.log.push (.failed e l.count) }, ?_,
    hrun, rfl⟩
  simp only [nextToken, hrun, hscan]

/-- A lexeme is returned as a token if neither bound refuses it and it does not read on to a
failure behind the text. -/
theorem nextToken_of_lexeme {after : List Char} {p : Piece}
    (h : l.StandsAt before (p.blanks ++ (p.lexeme ++ after)) ending)
    (hblanks : ∀ c ∈ p.blanks, isBlank c) (hlexeme : Lexeme p.kind p.lexeme after)
    (hafter : after = [] → p.kind.runsOn p.lexeme → ending = .ended)
    (hroom : l.options.refusal? (l.count + 1) p.text.utf8ByteSize = none) :
    ∃ m, l.nextToken = (.ok (p.token before), m) ∧
      m.StandsAt (before ++ p.blanks ++ p.lexeme) after ending ∧
      m.options = l.options ∧ m.count = l.count + 1 := by
  obtain ⟨c, first, text, stop, hhead, hfirst, hkind, hread, hfault, hraw, hstop⟩ :=
    read_of_lexeme hlexeme
  obtain ⟨cs, hcs⟩ := List.head?_eq_some_iff.mp hhead
  have htext : p.text = String.ofList text := Piece.text_of_raw hraw
  have hyields := h.yields
  rw [hcs, List.cons_append] at hyields hread
  have hfits : l.options.refusal? (l.count + 1)
      (utf8Length (first.read (c :: (cs ++ after))).text) = none := by
    rw [hread, ← hroom, htext, utf8ByteSize_ofList]
  have hhalts : (first.read (c :: (cs ++ after))).Halts ending := by
    intro last hlast
    rw [hread] at hlast
    obtain ⟨hnil, hruns⟩ := hstop.mp ⟨last, hlast⟩
    exact hafter hnil hruns
  obtain ⟨t, hscan, ht, hrest⟩ := scanToken_of_opening hyields hblanks hfirst hfits
  rw [Scan.Reading.answerBefore_of_halts hhalts] at hscan
  have hahead := hrest hhalts
  rw [hread, h.start] at hscan ht
  rw [hread] at hahead
  have hposition : t.position = .after (before ++ p.blanks ++ p.lexeme) := by
    rw [ht, advanceBy_after, hcs]
  have htoken : l.scanToken = (.ok (p.token before), t) := by
    rw [hscan, hposition, Piece.token, htext, hkind]
    simp [Scan.Reading.answer, hfault, Except.map]
  have hproper : (p.token before).isEndOfStream = false := by
    simp [Token.isEndOfStream, Piece.token, kind_ne_endOfStream hlexeme]
  have hnext := nextToken_of_scanToken h.running htoken hproper
  exact ⟨_, hnext, ⟨h.running, hposition, hahead⟩, rfl, rfl⟩

/-- The fault of a malformed text is reported if neither bound is met before it shows, and no
failure takes the place of the end where it shows. -/
theorem finishes_of_malformed {cause : LexError.Cause}
    (h : l.StandsAt before (blanks ++ rest) ending) (hblanks : ∀ c ∈ blanks, isBlank c)
    (hrest : Malformed rest cause)
    (hend : cause.ShowsAtEnd rest → ending = .ended)
    (hroom : l.options.refusal? (l.count + 1) (utf8Length (cause.textBefore rest)) = none) :
    ∃ final, l.Finishes (.error ⟨cause, .after (before ++ blanks)⟩) final := by
  obtain ⟨c, hhead, hcase⟩ := read_of_malformed hrest
  obtain ⟨cs, rfl⟩ := List.head?_eq_some_iff.mp hhead
  rcases hcase with ⟨hunexpected, rfl, -⟩ | ⟨first, hfirst, hfault, htext, hstop, -⟩
  · have hc : isBlank c = false := (stuck_of_malformed hrest).not_blank c rfl
    obtain ⟨t, hscan⟩ := scanToken_of_unexpected h.yields hblanks hc hunexpected
      (refusal?_eq_none_iff.mp hroom).1
    rw [h.start] at hscan
    exact finishes_of_error h.running hscan
  · have hhalts : (first.read (c :: cs)).Halts ending :=
      fun last hlast => hend (hstop.mp ⟨last, hlast⟩)
    obtain ⟨t, hscan, -⟩ := scanToken_of_opening h.yields hblanks hfirst (by rw [htext, hroom])
    rw [Scan.Reading.answerBefore_of_halts hhalts, h.start] at hscan
    have herror : l.scanToken = (.error ⟨cause, .after (before ++ blanks)⟩, t) := by
      rw [hscan]
      simp [Scan.Reading.answer, hfault, Except.map]
    exact finishes_of_error h.running herror

theorem finishes_of_blanks (h : l.StandsAt before blanks .ended)
    (hblanks : ∀ c ∈ blanks, isBlank c) :
    ∃ final, l.Finishes (.ok (.endOfStream (.after (before ++ blanks)))) final := by
  obtain ⟨t, hscan⟩ := scanToken_of_blanks h.yields hblanks
  rw [h.start] at hscan
  refine ⟨{ l with source := t, status := .ended, log := l.log.push (.ended l.count) }, ?_,
    h.running, rfl⟩
  simp only [nextToken, h.running, hscan, Token.isEndOfStream_endOfStream, if_true]

theorem finishes_of_answerBehind {last : Except LexError Token}
    (h : l.StandsAt before (blanks ++ rest) .ended) (hblanks : ∀ c ∈ blanks, isBlank c)
    (hlast : AnswerBehind (before ++ blanks) rest last)
    (hroom : rest ≠ [] →
      l.options.refusal? (l.count + 1) (utf8Length (Opening.textRead rest)) = none) :
    ∃ final, l.Finishes last final := by
  cases hlast with
  | ended =>
    rw [List.append_nil] at h
    exact finishes_of_blanks h hblanks
  | stuck hcause =>
    obtain ⟨c, hhead, -⟩ := read_of_malformed hcause
    have hrest : rest ≠ [] := by
      rintro rfl
      cases hhead
    rw [textRead_of_malformed hcause] at hroom
    exact finishes_of_malformed h hblanks hcause (fun _ => rfl) (hroom hrest)

/-- A bound is met before a lexeme is complete, or before a fault shows. -/
theorem finishes_of_refusal {cs : List Char} {c : Char} {cause : LexError.Cause}
    (h : l.StandsAt before (blanks ++ c :: cs) ending) (hblanks : ∀ d ∈ blanks, isBlank d)
    (hc : isBlank c = false)
    (hrefusal : l.options.refusal? (l.count + 1) (utf8Length (Opening.textRead (c :: cs))) =
      some cause) :
    ∃ final, l.Finishes (.error ⟨cause, .after (before ++ blanks)⟩) final := by
  obtain ⟨bound, hbound, hcount, rfl⟩ | ⟨hcount, bound, hbound, hlong, rfl⟩ :=
    refusal?_cases hrefusal
  · obtain ⟨t, hscan⟩ := scanToken_of_too_many h.yields hblanks hc hbound hcount
    rw [h.start] at hscan
    exact finishes_of_error h.running hscan
  · obtain ⟨first, hfirst⟩ | hunexpected := Opening.classify_char c
    · simp only [Opening.textRead, List.head?_cons, hfirst] at hlong
      obtain ⟨t, hscan⟩ := scanToken_of_too_long h.yields hblanks hfirst hcount hbound hlong
      rw [h.start] at hscan
      exact finishes_of_error h.running hscan
    · simp [Opening.textRead, hunexpected] at hlong

/-- A failure behind blanks is met in the search for a lexeme. -/
theorem finishes_of_failed_blanks {failure : ReadFailure}
    (h : l.StandsAt before blanks (.failed failure)) (hblanks : ∀ c ∈ blanks, isBlank c) :
    ∃ final, l.Finishes (.error ⟨.readFailed failure, .after (before ++ blanks)⟩) final := by
  obtain ⟨s, hskip⟩ := Source.skipBlanks_of_yields_failed hblanks h.yields
  rw [h.start] at hskip
  have hscan : l.scanToken = (.error ⟨.readFailed failure, .after (before ++ blanks)⟩, s) := by
    rw [scanToken, hskip]
  exact finishes_of_error h.running hscan

/-- A failure behind the text is met by a lexeme that takes all of it. -/
theorem finishes_of_failed_reading {cs : List Char} {c : Char} {first last : Scan}
    {failure : ReadFailure} (h : l.StandsAt before (blanks ++ c :: cs) (.failed failure))
    (hblanks : ∀ d ∈ blanks, isBlank d) (hfirst : Opening.classify (some c) = .lexeme first)
    (hlast : (first.read (c :: cs)).stop = .exhausted last)
    (hroom : l.options.refusal? (l.count + 1) (utf8Length (first.read (c :: cs)).text) = none) :
    ∃ final, l.Finishes
      (.error ⟨.readFailed failure, .after (before ++ blanks ++ c :: cs)⟩) final := by
  obtain ⟨t, hscan, -⟩ := scanToken_of_opening h.yields hblanks hfirst hroom
  have htaken := first.taken_append_rest (c :: cs)
  rw [Scan.rest_of_exhausted hlast, List.append_nil] at htaken
  have herror : l.scanToken =
      (.error ⟨.readFailed failure, .after (before ++ blanks ++ c :: cs)⟩, t) := by
    rw [hscan, htaken, h.start, advanceBy_after]
    simp [Scan.Reading.answerBefore, hlast, Except.map]
  exact finishes_of_error h.running herror

end Standing

/-- Pieces that neither bound refuses are returned as tokens. A failure behind the text leaves them
alone, unless the last one runs on to the end of the text. -/
theorem passes_pieces {l : Lexer ρ} {before after : List Char} {pieces : List Piece}
    {ending : Ending} (h : l.StandsAt before (Piece.source pieces ++ after) ending)
    (hpieces : Piece.InContext pieces after)
    (hafter : after = [] → ∀ p ∈ pieces.getLast?, p.kind.runsOn p.lexeme → ending = .ended)
    (hroom : ∀ i p, pieces[i]? = some p →
      l.options.refusal? (l.count + i + 1) p.text.utf8ByteSize = none) :
    ∃ m, l.Passes (Piece.tokens before pieces) m ∧
      m.StandsAt (before ++ Piece.source pieces) after ending ∧
      m.options = l.options ∧ m.count = l.count + pieces.length := by
  induction hpieces generalizing l before with
  | nil => exact ⟨l, .nil, by simpa using h, rfl, rfl⟩
  | @cons p pieces after hblanks hlexeme hpieces ih =>
    rw [Piece.source_cons, List.append_assoc, List.append_assoc] at h
    have hend : Piece.source pieces ++ after = [] → p.kind.runsOn p.lexeme → ending = .ended := by
      intro hnil
      obtain ⟨hsource, hnone⟩ := List.append_eq_nil_iff.mp hnil
      rw [hpieces.eq_nil hsource] at hafter
      exact hafter hnone p rfl
    obtain ⟨m, hnext, hm, hoptions, hcount⟩ :=
      nextToken_of_lexeme h hblanks hlexeme hend (hroom 0 p rfl)
    have hlast : after = [] → ∀ q ∈ pieces.getLast?, q.kind.runsOn q.lexeme → ending = .ended := by
      intro hnil q hq
      apply hafter hnil q
      rw [List.getLast?_cons, Option.mem_def.mp hq]
      rfl
    have hlater : ∀ i q, pieces[i]? = some q →
        m.options.refusal? (m.count + i + 1) q.text.utf8ByteSize = none := by
      intro i q hq
      have hrefusal := hroom (i + 1) q hq
      rw [hoptions, hcount, ← hrefusal]
      congr 1
      omega
    obtain ⟨n, hpasses, hn, hoptions', hcount'⟩ := ih hm hlast hlater
    refine ⟨n, ?_, by simpa using hn, hoptions'.trans hoptions, ?_⟩
    · rw [Piece.tokens_cons]
      refine .cons hnext ?_ hpasses
      simp [Token.isEndOfStream, Piece.token, kind_ne_endOfStream hlexeme]
    · rw [hcount', hcount, List.length_cons]
      omega

/-- Without bounds all pieces of a text are returned, and then what the text has behind them. -/
theorem run_of_factors {text : String} {pieces : List Piece} {blanks rest : List Char}
    {last : Except LexError Token} (h : Piece.Factors text.toList pieces blanks rest)
    (hlast : AnswerBehind (Piece.source pieces ++ blanks) rest last) :
    ∃ m final, (ofText text).Passes (Piece.tokens [] pieces) m ∧ m.Finishes last final := by
  have hstands := standsAt_ofText text {}
  rw [h.source_eq, List.append_assoc] at hstands
  obtain ⟨m, hpasses, hm, hoptions, -⟩ :=
    passes_pieces hstands h.lexemes (fun _ _ _ _ => rfl) (fun _ _ _ => rfl)
  obtain ⟨final, hfinal⟩ :=
    finishes_of_answerBehind hm h.blank hlast (fun _ => by rw [hoptions]; rfl)
  exact ⟨m, final, hpasses, hfinal⟩

end Lexer

end GrammarTokens
