import GrammarTokens.Proofs.Calls
import GrammarTokens.Proofs.Factorization
import GrammarTokens.Proofs.Taking

/-!
# Where an error leaves the source

A scan that ends in an error has taken blanks, and then characters of the lexeme at fault. Each
cause leaves the source at a place of its own. What a scan can take is bounded by the bound on the
text of a token, in a text of any length.
-/

namespace GrammarTokens

/-- The text of a lexeme of which some characters have been taken: the opening brace of an action
block is not part of it. -/
def textTaken (cs : List Char) : List Char :=
  if cs.head? = some '{' then cs.tail else cs

namespace Source

variable {ρ : Type} [CharFeed ρ]

/-- Where the source `s` is left by an error. But for failures, the error is at the first character
that is not blank. -/
inductive LeftBy (o : Options) (s : Source ρ) : LexError → Source ρ → Prop where
  | tooManyTokens {c : Char} {bound : Nat} {t : Source ρ} :
    s.Finds c t → o.maxTokens = some bound → LeftBy o s ⟨.tooManyTokens bound, t.position⟩ t
  | unexpectedCharacter {c : Char} {t : Source ρ} :
    s.Finds c t → c ≠ '/' → LeftBy o s ⟨.unexpectedCharacter c, t.position⟩ t
  | loneSlash {next : Option Char} {t u : Source ρ} :
    s.Finds '/' t → t.Takes ['/'] u → u.peek = (.ok next, u) → next ≠ some '*' →
    LeftBy o s ⟨.unexpectedCharacter '/', t.position⟩ u
  | unterminated {c : Char} {cs : List Char} {cause : LexError.Cause} {t u : Source ρ} :
    s.Finds c t → t.Takes (c :: cs) u → u.peek = (.ok none, u) → Malformed (c :: cs) cause →
    (∀ d, cause ≠ .unexpectedCharacter d) → LeftBy o s ⟨cause, t.position⟩ u
  | tokenTooLong {c d : Char} {front : List Char} {bound : Nat} {t u : Source ρ} :
    s.Finds c t → t.Takes (front ++ [d]) u → o.maxTokenLength = some bound →
    utf8Length (textTaken front) ≤ bound → bound < utf8Length (textTaken (front ++ [d])) →
    utf8Length (textTaken (front ++ [d])) ≤ bound + 4 →
    LeftBy o s ⟨.tokenTooLong bound, t.position⟩ u
  | readFailed {taken : List Char} {failure : ReadFailure} {t u : Source ρ} :
    s.Takes taken t → t.peek = (.error ⟨.readFailed failure, u.position⟩, u) →
    LeftBy o s ⟨.readFailed failure, u.position⟩ u

lemma error_of_peek {s t : Source ρ} {e : LexError} (h : s.peek = (.error e, t)) :
    ∃ failure, e = ⟨.readFailed failure, t.position⟩ := by
  obtain ⟨feed, position, lookahead⟩ := s
  cases lookahead with
  | char c => cases h
  | ended => cases h
  | unread =>
    simp only [peek] at h
    split at h
    · cases h
    · cases h
    · cases h
      exact ⟨_, rfl⟩

namespace Takes

lemma peek_of_nil {s t u : Source ρ} {found : Option Char} (h : s.Takes [] u)
    (hpeek : s.peek = (.ok found, t)) : ∃ v, u.peek = (.ok found, v) := by
  generalize hnil : ([] : List Char) = cs at h
  induction h generalizing t with
  | nil => exact ⟨t, hpeek⟩
  | look hlook _ ih =>
    rw [hpeek] at hlook
    cases hlook
    exact ih (peek_of_peek hpeek) hnil
  | char => cases hnil

lemma head_eq {s t u : Source ρ} {c : Char} {cs : List Char} (h : s.Takes cs u)
    (hpeek : s.peek = (.ok (some c), t)) : ∀ d ∈ cs.head?, d = c := by
  induction h generalizing t with
  | nil => simp
  | look hlook _ ih =>
    rw [hpeek] at hlook
    cases hlook
    exact ih (peek_of_peek hpeek)
  | char hchar _ _ =>
    rw [hpeek] at hchar
    cases hchar
    simp

end Takes

end Source

/-- The states for braces and slashes belong to these characters. -/
lemma Opening.first_cases {c : Char} {first : Scan} (h : classify (some c) = .lexeme first) :
    (first = .openingBrace ↔ c = '{') ∧ (first = .openingSlash → c = '/') ∧
      first ≠ .openingStar := by
  have hbrace : c = '{' → first = .openingBrace := by
    rintro rfl
    cases h
    rfl
  simp only [classify] at h
  repeat' split at h
  all_goals grind

lemma utf8Length_le_textTaken (cs : List Char) :
    utf8Length cs ≤ utf8Length (textTaken cs) + 1 := by
  unfold textTaken
  split
  · next hhead =>
    obtain ⟨ds, rfl⟩ := List.head?_eq_some_iff.mp hhead
    have hbrace : '{'.utf8Size = 1 := rfl
    rw [utf8Length_cons, List.tail_cons]
    omega
  · exact Nat.le_succ _

lemma textTaken_concat {cs : List Char} (hcs : cs ≠ []) (d : Char) :
    textTaken (cs ++ [d]) = textTaken cs ++ [d] := by
  obtain ⟨c, cs, rfl⟩ := List.exists_cons_of_ne_nil hcs
  by_cases hc : c = '{'
  · simp [textTaken, hc]
  · simp [textTaken, hc]

namespace Scan

/-- Behind the opening brace, if there is one, everything belongs to the text. -/
lemma text_of_exhausted {state last : Scan} {cs : List Char} (hstate : state ≠ .openingBrace)
    (h : (state.read cs).stop = .exhausted last) : (state.read cs).text = cs := by
  induction cs generalizing state with
  | nil => rfl
  | cons c cs ih =>
    obtain ⟨next, hnext, ⟨hstep, htext⟩ | ⟨hstep, -⟩⟩ := exhausted_cons h
    · rw [htext, ih (step_goes_on (.inl hstep)).2.1 hnext]
    · exact absurd (eq_openingBrace_of_strip hstep) hstate

lemma text_of_first {first last : Scan} {c : Char} {cs : List Char}
    (hfirst : Opening.classify (some c) = .lexeme first) (hhead : ∀ d ∈ cs.head?, d = c)
    (h : (first.read cs).stop = .exhausted last) : (first.read cs).text = textTaken cs := by
  cases cs with
  | nil => rfl
  | cons d cs =>
    obtain rfl := hhead d rfl
    by_cases hbrace : d = '{'
    · subst hbrace
      obtain rfl := (Opening.first_cases hfirst).1.mpr rfl
      have htext : ((action 0 none).read cs).text = cs := text_of_exhausted (by simp) h
      exact htext
    · have hne : first ≠ .openingBrace :=
        fun heq => hbrace ((Opening.first_cases hfirst).1.mp heq)
      rw [text_of_exhausted hne h, textTaken, if_neg (by simpa using hbrace)]

/-- Only a `/` leads to the state in which its `*` is due. -/
lemma slash_of_openingStar {state : Scan} {cs : List Char}
    (h : (state.read cs).stop = .exhausted .openingStar) :
    state = .openingStar ∧ cs = [] ∨ state = .openingSlash ∧ ∃ c, cs = [c] := by
  induction cs generalizing state with
  | nil => cases h; exact .inl ⟨rfl, rfl⟩
  | cons c cs ih =>
    obtain ⟨next, hnext, hstep⟩ := exhausted_cons h
    obtain ⟨-, -, hslash, hstar⟩ := step_goes_on (hstep.imp And.left And.left)
    rcases ih hnext with ⟨heq, rfl⟩ | ⟨heq, -⟩
    · exact .inr ⟨hstar heq, c, rfl⟩
    · exact absurd heq hslash

end Scan

/-- A lexeme that is not complete where the text ends is malformed. It is a `/` alone, or it is not
terminated. -/
lemma malformed_of_cut {c : Char} {cs : List Char} {first last : Scan} {cause : LexError.Cause}
    (hc : isBlank c = false) (hfirst : Opening.classify (some c) = .lexeme first)
    (hlast : (first.read (c :: cs)).stop = .exhausted last) (hend : last.atEnd? = some cause) :
    Malformed (c :: cs) cause ∧
      ((∀ d, cause ≠ .unexpectedCharacter d) ∨
        cause = .unexpectedCharacter '/' ∧ c = '/' ∧ cs = []) := by
  have hfault : (first.read (c :: cs)).stop.fault? = some cause := by rw [hlast]; exact hend
  rcases lexeme_or_malformed cs hc with ⟨kind, lexeme, after, heq, hlexeme⟩ | ⟨cause', hmalformed⟩
  · obtain ⟨d, first', text, stop, hhead, hfirst', -, hread, hcomplete, -⟩ := read_of_lexeme hlexeme
    obtain ⟨ds, rfl⟩ := List.head?_eq_some_iff.mp hhead
    obtain ⟨rfl, -⟩ := List.cons.inj heq
    rw [hfirst] at hfirst'
    cases hfirst'
    rw [heq, hread, hcomplete] at hfault
    cases hfault
  · obtain ⟨d, hhead, hcase⟩ := read_of_malformed hmalformed
    cases hhead
    rcases hcase with ⟨hunexpected, -⟩ | ⟨first', hfirst', hfault', -, hstop, hslash⟩
    · rw [hfirst] at hunexpected
      cases hunexpected
    · rw [hfirst] at hfirst'
      cases hfirst'
      rw [hfault] at hfault'
      cases hfault'
      refine ⟨hmalformed, ?_⟩
      by_cases hcause : ∃ d, cause = .unexpectedCharacter d
      · right
        cases hstop.mp ⟨last, hlast⟩ hcause
        obtain ⟨d, rfl⟩ := hcause
        rw [hslash d rfl]
        exact ⟨rfl, rfl, rfl⟩
      · left
        exact fun d hd => hcause ⟨d, hd⟩

namespace Source

variable {ρ : Type} [CharFeed ρ] {o : Options} {s t v : Source ρ} {c : Char} {first : Scan}
  {e : LexError}

/-- A lexeme that ends in an error leaves the source at the place that belongs to the error. -/
theorem leftBy_of_scanned (hfinds : s.Finds c t)
    (hfirst : Opening.classify (some c) = .lexeme first)
    (h : Scanned o.maxTokenLength t.position first "" t (.error e) v) : s.LeftBy o e v := by
  obtain ⟨cs, u, last, htaken, hlast, hfits, hend⟩ := h
  have hhead := htaken.head_eq hfinds.peek_eq
  have htext := Scan.text_of_first hfirst hhead hlast
  cases hend with
  | failed hfailed =>
    obtain ⟨blanks, -, htakes⟩ := hfinds.takesBlanks
    obtain ⟨failure, rfl⟩ := error_of_peek hfailed
    exact .readFailed (htakes.trans htaken) hfailed
  | cut hended hcause =>
    cases cs with
    | nil =>
      obtain ⟨w, hw⟩ := htaken.peek_of_nil hfinds.peek_eq
      rw [hended] at hw
      cases hw
    | cons d cs =>
      obtain rfl := hhead d rfl
      obtain ⟨hmalformed, hcause | ⟨rfl, rfl, rfl⟩⟩ :=
        malformed_of_cut hfinds.not_blank hfirst hlast hcause
      · exact .unterminated hfinds (htaken.peeked hended) (peek_of_peek hended) hmalformed hcause
      · exact .loneSlash hfinds (htaken.peeked hended) (peek_of_peek hended) (by simp)
  | @rejected d cause _ hfound hstep =>
    obtain ⟨rfl, hd, rfl⟩ := Scan.reject_cases hstep
    obtain ⟨-, hslash, hstar⟩ := Opening.first_cases hfirst
    rcases Scan.slash_of_openingStar hlast with ⟨rfl, -⟩ | ⟨rfl, d', rfl⟩
    · exact absurd rfl hstar
    · obtain rfl := hhead d' rfl
      obtain rfl := hslash rfl
      exact .loneSlash hfinds (htaken.peeked hfound) (peek_of_peek hfound) (by simpa using hd)
  | @tooLong d next? bound w hfound hstep hlimit hlong =>
    have hlonger : textTaken (cs ++ [d]) = textTaken cs ++ [d] := by
      cases cs with
      | cons c' cs => exact textTaken_concat (List.cons_ne_nil c' cs) d
      | nil =>
        cases hlast
        obtain ⟨w, hw⟩ := htaken.peek_of_nil hfinds.peek_eq
        rw [hfound] at hw
        cases hw
        by_cases hbrace : c = '{'
        · obtain rfl := (Opening.first_cases hfirst).1.mpr hbrace
          cases hstep
        · simp [textTaken, hbrace]
    have hle := hfits bound hlimit
    have hsize := d.utf8Size_le_four
    rw [htext, String.utf8ByteSize_empty, Nat.zero_add] at hle
    rw [htext, String.empty_append, String.utf8ByteSize_push, utf8ByteSize_ofList] at hlong
    refine .tokenTooLong hfinds (htaken.concat hfound) hlimit hle ?_ ?_
    · rw [hlonger, utf8Length_append, utf8Length_cons, utf8Length_nil]
      omega
    · rw [hlonger, utf8Length_append, utf8Length_cons, utf8Length_nil]
      omega

end Source

namespace Lexer

variable {ρ : Type} [CharFeed ρ]

theorem leftBy_of_scanToken {l : Lexer ρ} {e : LexError} {t : Source ρ}
    (h : l.scanToken = (.error e, t)) : l.source.LeftBy l.options e t := by
  have hscan := l.tokenScan_scanToken
  simp only [h] at hscan
  cases hscan with
  | failed hblanks hpeek =>
    obtain ⟨blanks, -, htakes⟩ := hblanks
    obtain ⟨failure, rfl⟩ := Source.error_of_peek hpeek
    exact .readFailed htakes hpeek
  | tooMany hfinds hbound hcount => exact .tooManyTokens hfinds hbound
  | unexpected hfinds hclass =>
    refine .unexpectedCharacter hfinds ?_
    rintro rfl
    cases hclass
  | fault hfinds hfirst hscanned => exact Source.leftBy_of_scanned hfinds hfirst hscanned

end Lexer

namespace Source

variable {ρ : Type} [CharFeed ρ] {s t v : Source ρ} {c : Char} {first : Scan} {limit : Option Nat}

/-- On the way from `s` to `t` blanks are taken, and behind them no more than `bound + 5` bytes. If
the way ends with a look ahead, then it is no more than `bound + 1` bytes that are taken. -/
def WithinBound (bound : Nat) (s t : Source ρ) : Prop :=
  ∃ v taken u, s.TakesBlanks v ∧ v.Takes taken u ∧
    (t = u ∧ utf8Length taken ≤ bound + 5 ∨ t = u.peek.2 ∧ utf8Length taken ≤ bound + 1)

lemma Scanned.size_le {start : Position} {state : Scan} {text result : String}
    (h : Scanned limit start state text s (.ok result) t) :
    ∀ bound ∈ limit, result.utf8ByteSize ≤ bound := by
  obtain ⟨cs, u, last, -, -, hfits, hend⟩ := h
  have hread : ∀ bound ∈ limit,
      (text ++ String.ofList (state.read cs).text).utf8ByteSize ≤ bound := by
    simpa only [String.utf8ByteSize_append, utf8ByteSize_ofList] using hfits
  cases hend with
  | ended => exact hread
  | stopped => exact hread
  | stripped => exact hread
  | kept _ _ hroom => exact hroom

lemma withinBound_of_scanned {o : Options} {answer : Except LexError String} {bound : Nat}
    (hfinds : s.Finds c t) (hfirst : Opening.classify (some c) = .lexeme first)
    (hbound : bound ∈ o.maxTokenLength)
    (h : Scanned o.maxTokenLength t.position first "" t answer v) : s.WithinBound bound v := by
  obtain ⟨cs, u, last, htaken, hlast, hfits, hend⟩ := h
  have hsize := hfits bound hbound
  rw [Scan.text_of_first hfirst (htaken.head_eq hfinds.peek_eq) hlast,
    String.utf8ByteSize_empty, Nat.zero_add] at hsize
  have hle := utf8Length_le_textTaken cs
  have hlooked {w : Source ρ} {found : Except LexError (Option Char)} (hw : u.peek = (found, w)) :
      s.WithinBound bound w :=
    ⟨t, cs, u, hfinds.takesBlanks, htaken, .inr ⟨by rw [hw], by omega⟩⟩
  have htook {w : Source ρ} {d : Char} (hw : u.peek = (.ok (some d), w)) :
      s.WithinBound bound (w.take d) := by
    have hchar := d.utf8Size_le_four
    refine ⟨t, cs ++ [d], w.take d, hfinds.takesBlanks, htaken.concat hw, .inl ⟨rfl, ?_⟩⟩
    rw [utf8Length_append, utf8Length_cons, utf8Length_nil]
    omega
  cases hend with
  | failed hw => exact hlooked hw
  | ended hw => exact hlooked hw
  | cut hw => exact hlooked hw
  | stopped hw => exact hlooked hw
  | rejected hw => exact hlooked hw
  | stripped hw => exact htook hw
  | kept hw => exact htook hw
  | tooLong hw => exact htook hw

end Source

namespace Lexer

variable {ρ : Type} [CharFeed ρ] {l m : Lexer ρ} {bound : Nat}

theorem withinBound_scanToken (hbound : bound ∈ l.options.maxTokenLength) :
    l.source.WithinBound bound l.scanToken.2 := by
  have hscan := l.tokenScan_scanToken
  have hblanks {u : Source ρ} (h : l.source.TakesBlanks u) : l.source.WithinBound bound u :=
    ⟨u, [], u, h, .nil, .inl ⟨rfl, Nat.zero_le _⟩⟩
  generalize l.scanToken.1 = answer, l.scanToken.2 = t at hscan
  cases hscan with
  | @failed e u t h hpeek => exact ⟨u, [], u, h, .nil, .inr ⟨by rw [hpeek], Nat.zero_le _⟩⟩
  | ended h hpeek => exact hblanks (h.peeked hpeek)
  | tooMany hfinds => exact hblanks hfinds.takesBlanks
  | unexpected hfinds => exact hblanks hfinds.takesBlanks
  | token hfinds hfirst hcount hscanned =>
    exact Source.withinBound_of_scanned hfinds hfirst hbound hscanned
  | fault hfinds hfirst hscanned =>
    exact Source.withinBound_of_scanned hfinds hfirst hbound hscanned

lemma bounds_of_scanToken {token : Token} {s : Source ρ} (h : l.scanToken = (.ok token, s)) :
    (∀ bound ∈ l.options.maxTokenLength, token.text.utf8ByteSize ≤ bound) ∧
      (token.isEndOfStream = false → ∀ bound ∈ l.options.maxTokens, l.count + 1 ≤ bound) := by
  have hscan := l.tokenScan_scanToken
  simp only [h] at hscan
  cases hscan with
  | ended => exact ⟨fun bound _ => Nat.zero_le bound, by simp⟩
  | token hfinds hfirst hcount hscanned => exact ⟨hscanned.size_le, fun _ => hcount⟩

/-- A lexer with these options that has not counted more tokens than they allow. -/
structure InBounds (o : Options) (l : Lexer ρ) : Prop where
  options : l.options = o
  count : ∀ bound ∈ o.maxTokens, l.count ≤ bound

lemma nextToken_of_finished (h : l.isFinished) :
    ∃ answer, l.nextToken = (answer, l) ∧
      (answer = .ok (.endOfStream l.source.position) ∨ ∃ e, answer = .error e) := by
  cases hstatus : l.status with
  | running => rw [isFinished, hstatus] at h; cases h
  | ended => exact ⟨_, by rw [nextToken, hstatus], .inl rfl⟩
  | failed e => exact ⟨_, by rw [nextToken, hstatus], .inr ⟨e, rfl⟩⟩

/-- One call keeps to the bounds with the count, with the text of a token, and with what it takes
of the source. -/
theorem inBounds_nextToken {o : Options} (h : l.InBounds o) : l.nextToken.2.InBounds o ∧
    (∀ token, l.nextToken.1 = .ok token →
      ∀ bound ∈ o.maxTokenLength, token.text.utf8ByteSize ≤ bound) ∧
    ∀ bound ∈ o.maxTokenLength, l.source.WithinBound bound l.nextToken.2.source := by
  obtain ⟨rfl, hcount⟩ := h
  cases hrun : l.isFinished with
  | true =>
    obtain ⟨answer, hnext, hanswer⟩ := nextToken_of_finished hrun
    rw [hnext]
    refine ⟨⟨rfl, hcount⟩, ?_, ?_⟩
    · rintro token rfl bound -
      rcases hanswer with hend | ⟨e, he⟩
      · cases hend
        exact Nat.zero_le bound
      · cases he
    · intro bound _
      exact ⟨l.source, [], l.source, .refl _, .nil, .inl ⟨rfl, Nat.zero_le _⟩⟩
  | false =>
    have hdrawn := drawn_nextToken (isFinished_eq_false_iff.mp hrun)
    have hwithin {answer : Except LexError Token} {s : Source ρ}
        (hscan : l.scanToken = (answer, s)) :
        ∀ bound ∈ l.options.maxTokenLength, l.source.WithinBound bound s := by
      intro bound hbound
      simpa only [hscan] using withinBound_scanToken hbound
    generalize l.nextToken.1 = answer, l.nextToken.2 = m at hdrawn
    cases hdrawn with
    | token hscan htoken =>
      obtain ⟨hsize, hnumber⟩ := bounds_of_scanToken hscan
      exact ⟨⟨rfl, hnumber htoken⟩, by rintro _ ⟨⟩; exact hsize, hwithin hscan⟩
    | ended hscan =>
      exact ⟨⟨rfl, hcount⟩, by rintro _ ⟨⟩; exact (bounds_of_scanToken hscan).1, hwithin hscan⟩
    | failed hscan => exact ⟨⟨rfl, hcount⟩, by simp, hwithin hscan⟩

/-- The iterator does what `nextToken` does, or nothing. -/
lemma call_run_cases (call : Call) (l : Lexer ρ) :
    ((call.run l).2 = l ∨ (call.run l).2 = l.nextToken.2) ∧
      ∀ answer, (call.run l).1 = some answer → answer = l.nextToken.1 := by
  cases call with
  | nextToken => exact ⟨.inr rfl, by rintro _ ⟨⟩; rfl⟩
  | next =>
    simp only [Call.run, next?]
    cases l.isFinished with
    | true => simp
    | false =>
      rcases l.nextToken with ⟨e | token, m⟩
      · simp
      · by_cases hend : token.isEndOfStream
        · simp [hend]
        · simp [hend]

theorem inBounds_respond {o : Options} (h : l.InBounds o) (calls : List Call) :
    (respond calls l).2.InBounds o ∧ ∀ token, some (.ok token) ∈ (respond calls l).1 →
      ∀ bound ∈ o.maxTokenLength, token.text.utf8ByteSize ≤ bound := by
  induction calls generalizing l with
  | nil => exact ⟨h, by simp [respond]⟩
  | cons call calls ih =>
    obtain ⟨hnext, hsize, -⟩ := inBounds_nextToken h
    obtain ⟨hstate, hanswer⟩ := call_run_cases call l
    have hafter : (call.run l).2.InBounds o := by
      rcases hstate with hsame | hmoved
      · rwa [hsame]
      · rwa [hmoved]
    obtain ⟨hlast, hlater⟩ := ih hafter
    refine ⟨hlast, ?_⟩
    intro token htoken
    rcases List.mem_cons.mp htoken with hfirst | hmem
    · exact hsize token (hanswer _ hfirst.symm).symm
    · exact hlater token hmem

lemma position_of_passes {tokens : List Token} (h : l.Passes tokens m) :
    m.source.position = tokens.getLast?.elim l.source.position fun token => token.span.stop := by
  induction h with
  | nil => rfl
  | @cons l m n token tokens hnext htoken _ ih =>
    rw [ih, List.getLast?_cons, ← stop_of_nextToken hnext]
    cases tokens.getLast? <;> rfl

/-- Whatever calls there were: if the next answer is an error, the lexer is finished, has counted no
token, and has left the source at the place that belongs to the error. The count and the texts of
the tokens keep to their bounds. Behind blanks, no call takes more than five bytes beyond the bound
on a text. -/
theorem respond_halts {source : Source ρ} {options : Options} {calls : List Call}
    {responses : List (Option (Except LexError Token))}
    (h : respond calls (ofSource source options) = (responses, l)) :
    (∀ e m, l.isFinished = false → l.nextToken = (.error e, m) →
      m.count = l.count ∧ m.isFinished ∧
      l.source.position = (tokensAmong responses.reduceOption).getLast?.elim source.position
        (fun token => token.span.stop) ∧
      l.source.LeftBy options e m.source) ∧
    (∀ bound ∈ options.maxTokens, l.count ≤ bound) ∧
    ∀ bound ∈ options.maxTokenLength,
      (∀ token, some (.ok token) ∈ responses → token.text.utf8ByteSize ≤ bound) ∧
      l.source.WithinBound bound l.nextToken.2.source := by
  have hstart : (ofSource source options).InBounds options :=
    ⟨rfl, fun bound _ => Nat.zero_le bound⟩
  obtain ⟨hbounds, hsize⟩ := inBounds_respond hstart calls
  have hpasses := @passes_of_running _ _ (ofSource source options) rfl calls
  rw [h] at hbounds hsize hpasses
  refine ⟨?_, hbounds.count, ?_⟩
  · intro e m hrun herror
    have hposition := position_of_passes (hpasses hrun)
    have hdrawn := drawn_nextToken (isFinished_eq_false_iff.mp hrun)
    simp only [herror] at hdrawn
    cases hdrawn with
    | failed hscan =>
      have hleft := leftBy_of_scanToken hscan
      rw [hbounds.options] at hleft
      exact ⟨rfl, rfl, hposition, hleft⟩
  · intro bound hbound
    refine ⟨fun token htoken => hsize token htoken bound hbound, ?_⟩
    exact (inBounds_nextToken hbounds).2.2 bound hbound

/-- An action block that grows too long with a character of two bytes, which has been taken. -/
theorem respond_halts_long_action :
    ∃ (responses : List (Option (Except LexError Token))) (l m : Lexer (List Char)),
      respond [.next] (ofSource (.ofFeed "x \x7baéb".toList) { maxTokenLength := some 2 }) =
        (responses, l) ∧
      l.isFinished = false ∧ l.nextToken = (.error ⟨.tokenTooLong 2, ⟨1, 3, 2⟩⟩, m) ∧
      m.count = 1 ∧ m.isFinished ∧ m.source.position = ⟨1, 6, 6⟩ ∧
      l.source.LeftBy { maxTokenLength := some 2 } ⟨.tokenTooLong 2, ⟨1, 3, 2⟩⟩ m.source := by
  have hrun : (respond [.next] (ofSource (.ofFeed "x \x7baéb".toList)
      { maxTokenLength := some 2 })).2.isFinished = false := by
    decide +kernel
  have herror : (respond [.next] (ofSource (.ofFeed "x \x7baéb".toList)
      { maxTokenLength := some 2 })).2.nextToken.1 = .error ⟨.tokenTooLong 2, ⟨1, 3, 2⟩⟩ := by
    decide +kernel
  have hposition : (respond [.next] (ofSource (.ofFeed "x \x7baéb".toList)
      { maxTokenLength := some 2 })).2.nextToken.2.source.position = ⟨1, 6, 6⟩ := by
    decide +kernel
  have hone : (respond [.next] (ofSource (.ofFeed "x \x7baéb".toList)
      { maxTokenLength := some 2 })).2.count = 1 := by
    decide +kernel
  obtain ⟨hcount, hfinished, -, hleft⟩ :=
    (respond_halts (Prod.ext rfl rfl)).1 _ _ hrun (Prod.ext herror rfl)
  exact ⟨_, _, _, rfl, hrun, Prod.ext herror rfl, hcount.trans hone, hfinished, hposition, hleft⟩

end Lexer

end GrammarTokens
