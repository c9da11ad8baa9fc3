import GrammarTokens.Proofs.LexemeReading
import GrammarTokens.Proofs.Runs

/-!
# Taking characters from a source

`Takes` says which characters are taken on the way from one source to another, whatever the feed
may answer behind them. Skipping blanks and scanning come to a stop in a few ways. For each of them
the characters taken until then are known, and so is the state of the lexeme.
-/

namespace GrammarTokens

namespace Scan

lemma action_of_actionStep {nested : Nat} {c : Char} {next : Scan}
    (h : actionStep nested c = some next) : ∃ nested' quote, next = action nested' quote := by
  unfold actionStep at h
  repeat' split at h
  all_goals cases h
  all_goals exact ⟨_, _, rfl⟩

/-- A lexeme that goes on keeps its kind. The states for first characters are behind it, but for the
`*` that is due behind a `/`. -/
theorem step_goes_on {state next : Scan} {c : Char}
    (h : state.step c = .keep (some next) ∨ state.step c = .strip (some next)) :
    next.kind = state.kind ∧ next ≠ .openingBrace ∧ next ≠ .openingSlash ∧
      (next = .openingStar → state = .openingSlash) := by
  cases state with
  | action nested quote => cases quote <;> grind [step, kind, action_of_actionStep]
  | _ => grind [step, kind]

lemma eq_openingBrace_of_strip {state next : Scan} {c : Char}
    (h : state.step c = .strip (some next)) : state = .openingBrace := by
  cases state with
  | action nested quote => cases quote <;> grind [step]
  | _ => grind [step]

lemma kind_of_stop {state : Scan} {c : Char} (h : state.step c = .stop) :
    state.kind = .identifier := by
  cases state with
  | identifier => rfl
  | action nested quote => cases quote <;> grind [step]
  | _ => grind [step]

/-- Only what follows an identifier shows its end. -/
lemma kind_of_complete {state : Scan} {c : Char}
    (h : state.step c = .keep none ∨ state.step c = .strip none) : state.kind ≠ .identifier := by
  cases state with
  | identifier => grind [step]
  | _ => simp [kind]

/-- Only a `/` without its `*` is found to begin no lexeme. -/
lemma reject_cases {state : Scan} {c : Char} {cause : LexError.Cause}
    (h : state.step c = .reject cause) :
    state = .openingStar ∧ c ≠ '*' ∧ cause = .unexpectedCharacter '/' := by
  cases state with
  | action nested quote => cases quote <;> grind [step]
  | _ => grind [step]

lemma exhausted_cons {state last : Scan} {c : Char} {cs : List Char}
    (h : (state.read (c :: cs)).stop = .exhausted last) :
    ∃ next, (next.read cs).stop = .exhausted last ∧
      (state.step c = .keep (some next) ∧ (state.read (c :: cs)).text = c :: (next.read cs).text ∨
        state.step c = .strip (some next) ∧ (state.read (c :: cs)).text = (next.read cs).text) := by
  rw [read] at h ⊢
  cases hstep : state.step c with
  | stop => rw [hstep] at h; cases h
  | reject cause => rw [hstep] at h; cases h
  | keep next? =>
    cases next? with
    | none => rw [hstep] at h; cases h
    | some next =>
      rw [hstep] at h
      exact ⟨next, h, .inl ⟨rfl, rfl⟩⟩
  | strip next? =>
    cases next? with
    | none => rw [hstep] at h; cases h
    | some next =>
      rw [hstep] at h
      exact ⟨next, h, .inr ⟨rfl, rfl⟩⟩

lemma kind_of_exhausted {state last : Scan} {cs : List Char}
    (h : (state.read cs).stop = .exhausted last) : last.kind = state.kind := by
  induction cs generalizing state with
  | nil => cases h; rfl
  | cons c cs ih =>
    obtain ⟨next, hnext, ⟨hstep, -⟩ | ⟨hstep, -⟩⟩ := exhausted_cons h
    · rw [ih hnext, (step_goes_on (.inl hstep)).1]
    · rw [ih hnext, (step_goes_on (.inr hstep)).1]

end Scan

namespace Source

variable {ρ : Type} [CharFeed ρ]

/-- The characters taken on the way from one source to another. Looking ahead takes none. -/
inductive Takes : Source ρ → List Char → Source ρ → Prop where
  | nil {s : Source ρ} : Takes s [] s
  | look {s t u : Source ρ} {answer : Option Char} {cs : List Char} :
    s.peek = (.ok answer, t) → Takes t cs u → Takes s cs u
  | char {s t u : Source ρ} {c : Char} {cs : List Char} :
    s.peek = (.ok (some c), t) → Takes (t.take c) cs u → Takes s (c :: cs) u

lemma position_of_peek {s t : Source ρ} {answer : Except LexError (Option Char)}
    (h : s.peek = (answer, t)) : t.position = s.position := by
  obtain ⟨feed, position, lookahead⟩ := s
  cases lookahead with
  | char c => cases h; rfl
  | ended => cases h; rfl
  | unread =>
    simp only [peek] at h
    split at h
    all_goals
      cases h
      rfl

namespace Takes

variable {s t u : Source ρ} {cs ds : List Char}

lemma trans (h : s.Takes cs t) (h' : t.Takes ds u) : s.Takes (cs ++ ds) u := by
  induction h with
  | nil => exact h'
  | look hpeek _ ih => exact .look hpeek (ih h')
  | char hpeek _ ih => exact .char hpeek (ih h')

lemma concat {c : Char} (h : s.Takes cs t) (hpeek : t.peek = (.ok (some c), u)) :
    s.Takes (cs ++ [c]) (u.take c) :=
  h.trans (.char hpeek .nil)

lemma peeked {answer : Option Char} (h : s.Takes cs t) (hpeek : t.peek = (.ok answer, u)) :
    s.Takes cs u := by
  simpa using h.trans (.look hpeek .nil)

lemma position_eq (h : s.Takes cs t) : t.position = s.position.advanceBy cs := by
  induction h with
  | nil => rfl
  | look hpeek _ ih => rw [ih, position_of_peek hpeek]
  | @char s t u c cs hpeek _ ih =>
    rw [ih, Position.advanceBy_cons, ← position_of_peek hpeek]
    rfl

end Takes

/-- The characters ahead can be taken, and those behind them are ahead then. -/
lemma takes_of_yields {s : Source ρ} {cs rest : List Char} {ending : Ending}
    (h : s.Yields (cs ++ rest) ending) : ∃ t, s.Takes cs t ∧ t.Yields rest ending := by
  induction cs generalizing s with
  | nil => exact ⟨s, .nil, h⟩
  | cons c cs ih =>
    obtain ⟨t, hpeek, -, -, htake⟩ := peek_of_yields_char h
    obtain ⟨u, htakes, hu⟩ := ih htake
    exact ⟨u, .char hpeek htakes, hu⟩

/-- Nothing but blanks is taken on the way from one source to another. -/
def TakesBlanks (s t : Source ρ) : Prop :=
  ∃ blanks, (∀ b ∈ blanks, isBlank b) ∧ s.Takes blanks t

/-- Behind blanks a source has looked at a character that is not blank. -/
structure Finds (s : Source ρ) (c : Char) (t : Source ρ) : Prop where
  takesBlanks : s.TakesBlanks t
  peek_eq : t.peek = (.ok (some c), t)
  not_blank : isBlank c = false

namespace TakesBlanks

variable {s t u : Source ρ}

lemma refl (s : Source ρ) : s.TakesBlanks s := ⟨[], by simp, .nil⟩

lemma blank {c : Char} (h : (t.take c).TakesBlanks u) (hpeek : s.peek = (.ok (some c), t))
    (hc : isBlank c) : s.TakesBlanks u := by
  obtain ⟨blanks, hblanks, htakes⟩ := h
  exact ⟨c :: blanks, List.forall_mem_cons.mpr ⟨hc, hblanks⟩, .char hpeek htakes⟩

lemma peeked {answer : Option Char} (h : s.TakesBlanks t) (hpeek : t.peek = (.ok answer, u)) :
    s.TakesBlanks u := by
  obtain ⟨blanks, hblanks, htakes⟩ := h
  exact ⟨blanks, hblanks, htakes.peeked hpeek⟩

lemma finds {c : Char} (h : s.TakesBlanks t) (hpeek : t.peek = (.ok (some c), u))
    (hc : isBlank c = false) : s.Finds c u :=
  ⟨h.peeked hpeek, peek_of_peek hpeek, hc⟩

end TakesBlanks

/-- Skipping blanks takes some, and then answers as a look ahead does. -/
theorem exists_takesBlanks (s : Source ρ) :
    ∃ u, s.TakesBlanks u ∧ u.peek = s.skipBlanks ∧
      ∀ c, s.skipBlanks.1 = .ok (some c) → isBlank c = false := by
  fun_induction skipBlanks s with
  | case1 s c t hpeek hc ih =>
    obtain ⟨u, hblanks, hu, hstop⟩ := ih
    exact ⟨u, hblanks.blank hpeek hc, hu, hstop⟩
  | case2 s c t hpeek hc =>
    refine ⟨s, .refl s, hpeek, ?_⟩
    intro d hd
    cases hd
    exact Bool.eq_false_iff.mpr hc
  | case3 s t hpeek => exact ⟨s, .refl s, hpeek, by simp⟩
  | case4 s e t hpeek => exact ⟨s, .refl s, hpeek, by simp⟩

/-- How a scan comes to its end in a source where the lexeme is in the state `last` and has come
to `text`, with the answer and the source that is left. -/
inductive ScanEnd (limit : Option Nat) (start : Position) (last : Scan) (text : String)
    (u : Source ρ) : Except LexError String → Source ρ → Prop where
  | failed {e : LexError} {t : Source ρ} :
    u.peek = (.error e, t) → ScanEnd limit start last text u (.error e) t
  | ended {t : Source ρ} :
    u.peek = (.ok none, t) → last.atEnd? = none → ScanEnd limit start last text u (.ok text) t
  | cut {cause : LexError.Cause} {t : Source ρ} :
    u.peek = (.ok none, t) → last.atEnd? = some cause →
    ScanEnd limit start last text u (.error ⟨cause, start⟩) t
  | stopped {c : Char} {t : Source ρ} :
    u.peek = (.ok (some c), t) → last.step c = .stop →
    ScanEnd limit start last text u (.ok text) t
  | rejected {c : Char} {cause : LexError.Cause} {t : Source ρ} :
    u.peek = (.ok (some c), t) → last.step c = .reject cause →
    ScanEnd limit start last text u (.error ⟨cause, start⟩) t
  | stripped {c : Char} {t : Source ρ} :
    u.peek = (.ok (some c), t) → last.step c = .strip none →
    ScanEnd limit start last text u (.ok text) (t.take c)
  | kept {c : Char} {t : Source ρ} :
    u.peek = (.ok (some c), t) → last.step c = .keep none →
    (∀ bound ∈ limit, (text.push c).utf8ByteSize ≤ bound) →
    ScanEnd limit start last text u (.ok (text.push c)) (t.take c)
  | tooLong {c : Char} {next? : Option Scan} {bound : Nat} {t : Source ρ} :
    u.peek = (.ok (some c), t) → last.step c = .keep next? → limit = some bound →
    bound < (text.push c).utf8ByteSize →
    ScanEnd limit start last text u (.error ⟨.tokenTooLong bound, start⟩) (t.take c)

/-- What a scan does to a source: it takes characters that the lexeme reads on through, and that
the text has room for, and comes to its end behind them. -/
def Scanned (limit : Option Nat) (start : Position) (state : Scan) (text : String) (s : Source ρ)
    (answer : Except LexError String) (t : Source ρ) : Prop :=
  ∃ cs u last, s.Takes cs u ∧ (state.read cs).stop = .exhausted last ∧
    (∀ bound ∈ limit, text.utf8ByteSize + utf8Length (state.read cs).text ≤ bound) ∧
    ScanEnd limit start last (text ++ String.ofList (state.read cs).text) u answer t

lemma push_append_ofList (text : String) (c : Char) (cs : List Char) :
    text.push c ++ String.ofList cs = text ++ String.ofList (c :: cs) := by
  apply String.toList_injective
  simp

section Scanned

variable {limit : Option Nat} {start : Position} {state next : Scan} {text : String}
  {s t u : Source ρ} {answer : Except LexError String} {c : Char}

lemma ScanEnd.scanned (h : ScanEnd limit start state text s answer t)
    (hfits : ∀ bound ∈ limit, text.utf8ByteSize ≤ bound) :
    Scanned limit start state text s answer t :=
  ⟨[], s, state, .nil, rfl, by simpa [Scan.read] using hfits, by simpa [Scan.read] using h⟩

lemma Scanned.strip (h : Scanned limit start next text (t.take c) answer u)
    (hpeek : s.peek = (.ok (some c), t)) (hstep : state.step c = .strip (some next)) :
    Scanned limit start state text s answer u := by
  obtain ⟨cs, v, last, htakes, hlast, hfits, hend⟩ := h
  have hread : state.read (c :: cs) = (next.read cs).strip c := by rw [Scan.read, hstep]
  refine ⟨c :: cs, v, last, .char hpeek htakes, ?_, ?_, ?_⟩
  · rw [hread]
    exact hlast
  · rw [hread]
    exact hfits
  · rw [hread]
    exact hend

lemma Scanned.keep (h : Scanned limit start next (text.push c) (t.take c) answer u)
    (hpeek : s.peek = (.ok (some c), t)) (hstep : state.step c = .keep (some next)) :
    Scanned limit start state text s answer u := by
  obtain ⟨cs, v, last, htakes, hlast, hfits, hend⟩ := h
  have hread : state.read (c :: cs) = (next.read cs).keep c := by rw [Scan.read, hstep]
  refine ⟨c :: cs, v, last, .char hpeek htakes, ?_, ?_, ?_⟩
  · rw [hread]
    exact hlast
  · intro bound hbound
    have hle := hfits bound hbound
    rw [String.utf8ByteSize_push] at hle
    rw [hread, Scan.Reading.keep, utf8Length_cons]
    omega
  · rw [hread, Scan.Reading.keep, ← push_append_ofList]
    exact hend

end Scanned

theorem scanned_scan (s : Source ρ) (limit : Option Nat) (start : Position) (state : Scan)
    (text : String) (hfits : ∀ bound ∈ limit, text.utf8ByteSize ≤ bound) :
    Scanned limit start state text s (s.scan limit start state text).1
      (s.scan limit start state text).2 := by
  fun_induction scan s limit start state text with
  | case1 s state text e t hpeek => exact (ScanEnd.failed hpeek).scanned hfits
  | case2 s state text t hpeek hend => exact (ScanEnd.ended hpeek hend).scanned hfits
  | case3 s state text t hpeek cause hend => exact (ScanEnd.cut hpeek hend).scanned hfits
  | case4 s state text c t hpeek hstep => exact (ScanEnd.stopped hpeek hstep).scanned hfits
  | case5 s state text c t hpeek cause hstep => exact (ScanEnd.rejected hpeek hstep).scanned hfits
  | case6 s state text c t hpeek hstep => exact (ScanEnd.stripped hpeek hstep).scanned hfits
  | case7 s state text c t hpeek next hstep ih => exact (ih hfits).strip hpeek hstep
  | case8 s state text c t hpeek next? hstep longer bound hbound =>
    obtain ⟨hlimit, hlong⟩ := Option.filter_eq_some_iff.mp hbound
    exact (ScanEnd.tooLong hpeek hstep hlimit (of_decide_eq_true hlong)).scanned hfits
  | case9 s state text c t hpeek longer hroom hstep =>
    have hlonger : ∀ bound ∈ limit, longer.utf8ByteSize ≤ bound := by
      simpa [Option.filter_eq_none_iff] using hroom
    exact (ScanEnd.kept hpeek hstep hlonger).scanned hfits
  | case10 s state text c t hpeek longer next hroom hstep ih =>
    have hlonger : ∀ bound ∈ limit, longer.utf8ByteSize ≤ bound := by
      simpa [Option.filter_eq_none_iff] using hroom
    exact (ih hlonger).keep hpeek hstep

lemma scan_of_peek {s t : Source ρ} {found : Option Char} (h : s.peek = (.ok found, t))
    (limit : Option Nat) (start : Position) (state : Scan) (text : String) :
    s.scan limit start state text = t.scan limit start state text := by
  cases found with
  | none => rw [scan_of_none h, scan_of_none (peek_of_peek h)]
  | some c => rw [scan_of_char h, scan_of_char (peek_of_peek h)]

/-- A scan goes on behind the characters that the lexeme reads on through, if there is room for
them. -/
theorem scan_of_takes {s t : Source ρ} {cs : List Char} {limit : Option Nat} {state last : Scan}
    {text : String} (start : Position) (h : s.Takes cs t)
    (hlast : (state.read cs).stop = .exhausted last)
    (hfits : ∀ bound ∈ limit, text.utf8ByteSize + utf8Length (state.read cs).text ≤ bound) :
    s.scan limit start state text =
      t.scan limit start last (text ++ String.ofList (state.read cs).text) := by
  induction h generalizing state text with
  | nil =>
    cases hlast
    simp [Scan.read]
  | look hpeek _ ih => rw [scan_of_peek hpeek, ih hlast hfits]
  | @char s t u c cs hpeek _ ih =>
    obtain ⟨next, hnext, ⟨hstep, htext⟩ | ⟨hstep, htext⟩⟩ := Scan.exhausted_cons hlast
    · rw [htext] at hfits ⊢
      have hlonger : ∀ bound ∈ limit,
          (text.push c).utf8ByteSize + utf8Length (next.read cs).text ≤ bound := by
        intro bound hbound
        have hle := hfits bound hbound
        rw [utf8Length_cons] at hle
        rw [String.utf8ByteSize_push]
        omega
      have hroom : limit.filter (· < (text.push c).utf8ByteSize) = none := by
        rw [Option.filter_eq_none_iff]
        intro bound hbound
        have hle := hlonger bound hbound
        simp only [decide_eq_true_eq]
        omega
      rw [scan_of_char hpeek]
      simp only [hstep, hroom]
      rw [ih hnext hlonger, push_append_ofList]
    · rw [htext] at hfits ⊢
      rw [scan_of_char hpeek]
      simp only [hstep]
      exact ih hnext hfits

end Source

namespace Lexer

variable {ρ : Type} [CharFeed ρ]

/-- What a scan for a token does: it takes blanks, and behind them it meets a failure, the end, the
bound on the number of tokens, a character that begins no lexeme, or a lexeme. -/
inductive TokenScan (l : Lexer ρ) : Except LexError Token → Source ρ → Prop where
  | failed {e : LexError} {u t : Source ρ} :
    l.source.TakesBlanks u → u.peek = (.error e, t) → TokenScan l (.error e) t
  | ended {u t : Source ρ} :
    l.source.TakesBlanks u → u.peek = (.ok none, t) →
    TokenScan l (.ok (.endOfStream t.position)) t
  | tooMany {c : Char} {bound : Nat} {t : Source ρ} :
    l.source.Finds c t → l.options.maxTokens = some bound → bound ≤ l.count →
    TokenScan l (.error ⟨.tooManyTokens bound, t.position⟩) t
  | unexpected {c : Char} {t : Source ρ} :
    l.source.Finds c t → Opening.classify (some c) = .unexpected c →
    TokenScan l (.error ⟨.unexpectedCharacter c, t.position⟩) t
  | token {c : Char} {first : Scan} {text : String} {t v : Source ρ} :
    l.source.Finds c t → Opening.classify (some c) = .lexeme first →
    (∀ bound ∈ l.options.maxTokens, l.count < bound) →
    Source.Scanned l.options.maxTokenLength t.position first "" t (.ok text) v →
    TokenScan l (.ok ⟨first.kind, text, ⟨t.position, v.position⟩⟩) v
  | fault {c : Char} {first : Scan} {e : LexError} {t v : Source ρ} :
    l.source.Finds c t → Opening.classify (some c) = .lexeme first →
    Source.Scanned l.options.maxTokenLength t.position first "" t (.error e) v →
    TokenScan l (.error e) v

theorem tokenScan_scanToken (l : Lexer ρ) : l.TokenScan l.scanToken.1 l.scanToken.2 := by
  obtain ⟨u, hblanks, hpeek, hstop⟩ := l.source.exists_takesBlanks
  unfold scanToken
  rcases hskip : l.source.skipBlanks with ⟨e | lookahead, t⟩
  · rw [hskip] at hpeek
    exact .failed hblanks hpeek
  · rw [hskip] at hpeek hstop
    cases lookahead with
    | none => exact .ended hblanks hpeek
    | some c =>
      have hfinds : l.source.Finds c t := hblanks.finds hpeek (hstop c rfl)
      cases hmet : l.options.maxTokens.filter (· ≤ l.count) with
      | some bound =>
        obtain ⟨hbound, hcount⟩ := Option.filter_eq_some_iff.mp hmet
        have hmany := TokenScan.tooMany hfinds hbound (of_decide_eq_true hcount)
        obtain ⟨first, hclass⟩ | hclass := Opening.classify_char c
        · simpa only [hclass, hmet] using hmany
        · simpa only [hclass, hmet] using hmany
      | none =>
        obtain ⟨first, hclass⟩ | hclass := Opening.classify_char c
        · have hcount : ∀ bound ∈ l.options.maxTokens, l.count < bound := by
            simpa [Option.filter_eq_none_iff] using hmet
          have hscanned :=
            Source.scanned_scan t l.options.maxTokenLength t.position first "" (by simp)
          simp only [hclass]
          rcases hscan : t.scan l.options.maxTokenLength t.position first "" with ⟨e | text, v⟩
          · rw [hscan] at hscanned
            exact .fault hfinds hclass hscanned
          · rw [hscan] at hscanned
            exact .token hfinds hclass hcount hscanned
        · simpa only [hclass] using TokenScan.unexpected hfinds hclass

lemma stop_of_scanToken {l : Lexer ρ} {token : Token} {s : Source ρ}
    (h : l.scanToken = (.ok token, s)) : token.span.stop = s.position := by
  have hscan := l.tokenScan_scanToken
  simp only [h] at hscan
  cases hscan with
  | ended => rfl
  | token => rfl

/-- The source stands where the last token ends. -/
lemma stop_of_nextToken {l m : Lexer ρ} {token : Token} (h : l.nextToken = (.ok token, m)) :
    token.span.stop = m.source.position := by
  cases hrun : l.status with
  | ended => rw [nextToken, hrun] at h; cases h; rfl
  | failed e => rw [nextToken, hrun] at h; cases h
  | running =>
    have hdrawn := drawn_nextToken hrun
    simp only [h] at hdrawn
    cases hdrawn with
    | token hscan htoken => exact stop_of_scanToken hscan
    | ended hscan => exact stop_of_scanToken hscan

end Lexer

end GrammarTokens
