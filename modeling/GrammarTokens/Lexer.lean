import GrammarTokens.ByteReader
import GrammarTokens.Event
import GrammarTokens.Opening
import GrammarTokens.Options

/-!
# The lexer

A lexer draws tokens from a source, one per call. It runs until the end of the stream or the
first error and gives that answer for ever after. What it did is kept in a log. `rest_eq` says
how the remaining items follow from the next one.
-/

namespace GrammarTokens

/-- Where a lexer stands in its stream. -/
inductive Status where
  | running
  | ended
  | failed (e : LexError)
deriving DecidableEq, Repr, Inhabited

/-- A lexer over a source. The count leaves out the mark of the end. -/
structure Lexer (ρ : Type) where
  source : Source ρ
  options : Options := {}
  status : Status := .running
  count : Nat := 0
  log : Array Event := #[]

namespace Lexer

/-- A lexer that begins where a source stands. -/
def ofSource {ρ : Type} (source : Source ρ) (options : Options := {}) : Lexer ρ :=
  { source, options }

/-- A lexer over a text in memory. -/
def ofText (text : String) (options : Options := {}) : Lexer (List Char) :=
  ofSource (.ofFeed text.toList) options

/-- A lexer over a device, read through a buffer, unless memory has no room for the buffer. -/
def ofReader? (script : List ReadEvent) (options : Options := {}) : Option (Lexer ByteReader) :=
  (ByteReader.buffered? options.bufferSize script).map fun reader =>
    ofSource (.ofFeed reader) options

/-- A lexer over a file, unless the file cannot be opened. -/
def ofFile (contents : Except ReadFailure (List UInt8)) :
    Except ReadFailure (Lexer ByteReader) :=
  contents.map fun bytes =>
    ofSource (.ofFeed (.buffered ({} : Options).bufferSize [.data bytes]))

variable {ρ : Type} [CharFeed ρ]

/-- Whether the end of the stream or an error was met. -/
def isFinished (l : Lexer ρ) : Bool := l.status != .running

/-- Draws the next token from the source. The number of tokens is checked first, as soon as
there is a character that is not blank. -/
def scanToken (l : Lexer ρ) : Except LexError Token × Source ρ :=
  match l.source.skipBlanks with
  | (.error e, s) => (.error e, s)
  | (.ok lookahead, s) =>
    let start := s.position
    match Opening.classify lookahead, l.options.maxTokens.filter (· ≤ l.count) with
    | .endOfStream, _ => (.ok (.endOfStream start), s)
    | _, some limit => (.error ⟨.tooManyTokens limit, start⟩, s)
    | .unexpected c, none => (.error ⟨.unexpectedCharacter c, start⟩, s)
    | .lexeme first, none =>
      match s.scan l.options.maxTokenLength start first "" with
      | (.error e, t) => (.error e, t)
      | (.ok text, t) => (.ok ⟨first.kind, text, ⟨start, t.position⟩⟩, t)

/-- The next token. A finished lexer repeats its last answer and leaves the source alone. -/
def nextToken (l : Lexer ρ) : Except LexError Token × Lexer ρ :=
  match l.status with
  | .ended => (.ok (.endOfStream l.source.position), l)
  | .failed e => (.error e, l)
  | .running =>
    match l.scanToken with
    | (.error e, source) =>
      (.error e, { l with source, status := .failed e, log := l.log.push (.failed e l.count) })
    | (.ok token, source) =>
      if token.isEndOfStream then
        (.ok token, { l with source, status := .ended, log := l.log.push (.ended l.count) })
      else
        (.ok token, { l with
          source, count := l.count + 1, log := l.log.push (.scanned token.kind token.span) })

/-- The next item of the stream, a token or an error; `none` behind the last token and behind
an error. -/
def next? (l : Lexer ρ) : Option (Except LexError Token) × Lexer ρ :=
  if l.isFinished then (none, l)
  else
    match l.nextToken with
    | (.error e, l) => (some (.error e), l)
    | (.ok token, l) => if token.isEndOfStream then (none, l) else (some (.ok token), l)

/-- A bound on the number of items to come. -/
def size (l : Lexer ρ) : Nat :=
  if l.isFinished then 0 else l.source.size + 1

theorem size_scanToken_lt {l : Lexer ρ} {token : Token} {s : Source ρ}
    (h : l.scanToken = (.ok token, s)) (htoken : token.isEndOfStream = false) :
    s.size < l.source.size := by
  have hle := l.source.size_skipBlanks_le
  unfold scanToken at h
  split at h
  · simp at h
  · next lookahead t hskip =>
    rw [hskip] at hle
    simp only at h
    split at h
    · simp only [Prod.mk.injEq, Except.ok.injEq] at h
      simp [← h.1] at htoken
    · simp at h
    · simp at h
    · next first hopening hlimit =>
      cases lookahead with
      | none => simp [Opening.classify] at hopening
      | some c =>
        obtain ⟨next, hstep⟩ := Opening.exists_step_first hopening
        have hlt := Source.size_scan_lt (Source.peek_of_skipBlanks hskip) hstep
          l.options.maxTokenLength t.position ""
        split at h
        · cases h
        · next hscan =>
          rw [hscan] at hlt
          cases h
          exact Nat.lt_of_lt_of_le hlt hle

theorem size_next?_lt {l m : Lexer ρ} {item : Except LexError Token}
    (h : l.next? = (some item, m)) : m.size < l.size := by
  cases hrun : l.isFinished with
  | true => simp [next?, hrun] at h
  | false =>
    have hstatus : l.status = .running := by simpa [isFinished] using hrun
    rcases hscan : l.scanToken with ⟨answer, s⟩
    cases answer with
    | error e =>
      simp only [next?, hrun, nextToken, hstatus, hscan] at h
      obtain ⟨-, rfl⟩ := Prod.mk.inj h
      simp [size, isFinished, hstatus]
    | ok token =>
      cases hend : token.isEndOfStream with
      | true => simp [next?, hrun, nextToken, hstatus, hscan, hend] at h
      | false =>
        have hlt := size_scanToken_lt hscan hend
        simp only [next?, hrun, nextToken, hstatus, hscan, hend, Bool.false_eq_true, if_false,
          Prod.mk.injEq] at h
        obtain ⟨-, rfl⟩ := h
        simpa [size, isFinished, hstatus] using hlt

/-- Appends all items to come. -/
def restInto (l : Lexer ρ) (items : Array (Except LexError Token)) :
    Array (Except LexError Token) × Lexer ρ :=
  match _h : l.next? with
  | (none, m) => (items, m)
  | (some item, m) => m.restInto (items.push item)
termination_by l.size
decreasing_by exact size_next?_lt _h

/-- All items to come. -/
def rest (l : Lexer ρ) : List (Except LexError Token) × Lexer ρ :=
  let (items, m) := l.restInto #[]
  (items.toList, m)

/-- All tokens to come, or the error that they end in. -/
def collect (l : Lexer ρ) : Except LexError (List Token) × Lexer ρ :=
  let (items, m) := l.rest
  (items.mapM id, m)

theorem restInto_of_none {l m : Lexer ρ} (h : l.next? = (none, m))
    (items : Array (Except LexError Token)) : l.restInto items = (items, m) := by
  rw [restInto.eq_def]
  split <;> simp_all

theorem restInto_of_some {l m : Lexer ρ} {item : Except LexError Token}
    (h : l.next? = (some item, m)) (items : Array (Except LexError Token)) :
    l.restInto items = m.restInto (items.push item) := by
  rw [restInto.eq_def]
  split <;> simp_all

theorem restInto_eq (l : Lexer ρ) (items : Array (Except LexError Token)) :
    l.restInto items = (items ++ l.rest.1.toArray, l.rest.2) := by
  induction hn : l.size using Nat.strongRecOn generalizing l items with
  | ind n ih =>
    subst hn
    rcases hnext : l.next? with ⟨_ | item, m⟩
    · simp [rest, restInto_of_none hnext]
    · have hm := fun before => ih m.size (size_next?_lt hnext) m before rfl
      have hrest : l.rest = (item :: m.rest.1, m.rest.2) := by
        rw [rest, restInto_of_some hnext, hm]
        simp
      rw [restInto_of_some hnext, hm, hrest]
      simp

/-- The items to come are the next one and those behind it. -/
theorem rest_eq (l : Lexer ρ) :
    l.rest = match l.next? with
      | (none, m) => ([], m)
      | (some item, m) => (item :: m.rest.1, m.rest.2) := by
  rcases hnext : l.next? with ⟨_ | item, m⟩
  · simp [rest, restInto_of_none hnext]
  · rw [rest, restInto_of_some hnext, restInto_eq]
    simp

end Lexer

/-- All tokens of a text, or the error that they end in. -/
def tokenize (text : String) : Except LexError (List Token) :=
  (Lexer.ofText text).collect.1

end GrammarTokens
