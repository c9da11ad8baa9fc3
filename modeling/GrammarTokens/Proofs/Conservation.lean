import GrammarTokens.Proofs.Calls
import GrammarTokens.Proofs.Delivery
import GrammarTokens.Proofs.Pending
import GrammarTokens.Proofs.Positions
import GrammarTokens.Proofs.Taking

/-!
# Conservation of bytes

Every byte that leaves a reader is accounted for: it belongs to a character that was handed out, to
a sequence that turned out faulty, or to one that a failed read broke off. This file keeps the
account along calls of a source in any order, also behind errors, and draws from it how far a lexer
has read when it returns a token.
-/

namespace GrammarTokens

namespace Spent

/-- What the caller of a source gets to know of it. -/
def outcome : Spent → Except LexError.Cause Char
  | char c => .ok c
  | faulty fault _ => .error (.readFailed fault.failure)
  | failed failure _ => .error (.readFailed failure)

lemma outcome_of_answer_error {e : Spent} {failure : ReadFailure} (h : e.answer = .error failure) :
    e.outcome = .error (.readFailed failure) := by
  cases e with
  | char c => cases h
  | faulty fault bytes => cases h; rfl
  | failed failure bytes => cases h; rfl

lemma eq_char_of_outcome {e : Spent} {c : Char} (h : e.outcome = .ok c) : e = char c := by
  cases e with
  | char d => cases h; rfl
  | faulty fault bytes => cases h
  | failed failure bytes => cases h

lemma bytes_chars (cs : List Char) : (cs.map char).flatMap bytes = utf8Bytes cs := by
  rw [List.flatMap_map]
  rfl

end Spent

namespace ByteReader

lemma delivers_script {script : List ReadEvent} (h : ∀ event ∈ script, event.Flows) :
    ReadEvent.Delivers script (script.flatMap ReadEvent.bytes) := by
  induction script with
  | nil => exact .ended
  | cons event script ih =>
    have hscript := ih fun e he => h e (List.mem_cons_of_mem event he)
    have hevent := h event List.mem_cons_self
    cases event with
    | data bytes => exact .data hevent hscript
    | failed failure => exact .interrupted hevent hscript

lemma readToEnd_of_handsOut {r : ByteReader} {bytes : List UInt8} (h : r.HandsOut bytes .ended) :
    ∃ s, r.readToEnd = (bytes, none, s) := by
  induction bytes generalizing r with
  | nil =>
    obtain ⟨s, hnext⟩ := nextByte_of_ended h
    refine ⟨s, ?_⟩
    rw [readToEnd.eq_def]
    split <;> simp_all
  | cons b bytes ih =>
    obtain ⟨s, hnext, hs⟩ := nextByte_of_byte h
    obtain ⟨t, hrest⟩ := ih hs
    refine ⟨t, ?_⟩
    rw [readToEnd.eq_def]
    split <;> simp_all

/-- A reader without errors yields all that is pending in it. -/
theorem readToEnd_of_flows {r : ByteReader} (h : r.Flows) :
    ∃ s, r.readToEnd = (r.pending, none, s) := by
  have hdelivers : r.Delivers r.pending := ⟨h.capacity, _, rfl, delivers_script h.script⟩
  exact readToEnd_of_handsOut hdelivers.handsOut

end ByteReader

/-- The character that has been looked at, but not taken. -/
def Lookahead.held : Lookahead → List Char
  | .char c => [c]
  | .unread | .ended => []

lemma Lookahead.length_held_le (lookahead : Lookahead) : lookahead.held.length ≤ 1 := by
  cases lookahead <;> simp [held]

lemma Lookahead.toList_head?_held (lookahead : Lookahead) :
    lookahead.held.head?.toList = lookahead.held := by
  cases lookahead <;> rfl

namespace Source

inductive Call where
  | peek
  | advance
deriving DecidableEq, Repr

namespace Call

variable {ρ : Type} [CharFeed ρ]

def run : Call → Source ρ → Except LexError (Option Char) × Source ρ
  | peek, s => s.peek
  | advance, s => s.advance

lemma run_of_none {s t : Source ρ} (h : s.peek = (.ok none, t)) (call : Call) :
    call.run s = (.ok none, t) := by
  cases call with
  | peek => exact h
  | advance => rw [run, Source.advance, h]

lemma run_of_error {s t : Source ρ} {e : LexError} (h : s.peek = (.error e, t)) (call : Call) :
    call.run s = (.error e, t) := by
  cases call with
  | peek => exact h
  | advance => rw [run, Source.advance, h]

/-- What the answer to a call tells of bytes that are spent: an error, or a character taken. -/
def outcome? : Call → Except LexError (Option Char) → Option (Except LexError.Cause Char)
  | _, .error e => some (.error e.cause)
  | advance, .ok (some c) => some (.ok c)
  | peek, .ok _ | advance, .ok none => none

lemma char_of_outcome? {call : Call} {found : Option Char} {outcome : Except LexError.Cause Char}
    (h : call.outcome? (.ok found) = some outcome) : ∃ c, outcome = .ok c := by
  cases call with
  | peek => simp [outcome?] at h
  | advance =>
    cases found with
    | none => simp [outcome?] at h
    | some c => exact ⟨c, by simpa [outcome?] using h.symm⟩

end Call

def respond {ρ : Type} [CharFeed ρ] :
    List Call → Source ρ → List (Except LexError (Option Char)) × Source ρ
  | [], s => ([], s)
  | call :: calls, s =>
    let (answer, t) := call.run s
    let (answers, u) := respond calls t
    (answer :: answers, u)

def outcomes (calls : List Call) (answers : List (Except LexError (Option Char))) :
    List (Except LexError.Cause Char) :=
  (calls.zip answers).filterMap fun (call, answer) => call.outcome? answer

lemma pending_eq_held (s : Source ByteReader) :
    s.pending = utf8Bytes s.lookahead.held ++ s.feed.pending := by
  unfold pending Lookahead.held
  cases s.lookahead <;> simp

/-- What is spent on the way from one source to another. -/
structure Spends (s : Source ByteReader) (spent : List Spent) (t : Source ByteReader) : Prop where
  pending_eq : s.pending = spent.flatMap Spent.bytes ++ t.pending
  failures_eq : s.feed.failures = spent.flatMap Spent.passedOn ++ t.feed.failures
  position_eq : t.position = s.position.advanceBy (spent.filterMap Spent.char?)
  sound : ∀ e ∈ spent, e.Sound
  flows : s.feed.Flows → t.feed.Flows

lemma Spends.refl (s : Source ByteReader) : s.Spends [] s := ⟨rfl, rfl, rfl, by simp, id⟩

lemma Spends.trans {s t u : Source ByteReader} {spent spent' : List Spent} (h : s.Spends spent t)
    (h' : t.Spends spent' u) : s.Spends (spent ++ spent') u where
  pending_eq := by rw [h.pending_eq, h'.pending_eq, List.flatMap_append, List.append_assoc]
  failures_eq := by rw [h.failures_eq, h'.failures_eq, List.flatMap_append, List.append_assoc]
  position_eq := by rw [h'.position_eq, h.position_eq, List.filterMap_append,
    Position.advanceBy_append]
  sound := List.forall_mem_append.mpr ⟨h.sound, h'.sound⟩
  flows := h'.flows ∘ h.flows

lemma spends_take {s : Source ByteReader} {c : Char} (h : s.lookahead = .char c) :
    s.Spends [.char c] (s.take c) where
  pending_eq := by simp [pending, h, take, Spent.bytes]
  failures_eq := by simp [Spent.passedOn, take]
  position_eq := rfl
  sound := by simp [Spent.Sound]
  flows := id

/-- What a look ahead does: it keeps what it finds, and a failure spends something. -/
inductive Peeked (s : Source ByteReader) :
    Except LexError (Option Char) → Source ByteReader → Prop where
  | char {c : Char} {t : Source ByteReader} : t.lookahead = .char c → s.Spends [] t →
    Peeked s (.ok (some c)) t
  | ended {t : Source ByteReader} : t.lookahead = .ended → s.Spends [] t → Peeked s (.ok none) t
  | failed {e : Spent} {failure : ReadFailure} {t : Source ByteReader} :
    e.answer = .error failure → s.Spends [e] t →
    Peeked s (.error ⟨.readFailed failure, s.position⟩) t

theorem peek_cases (s : Source ByteReader) : s.Peeked s.peek.1 s.peek.2 := by
  obtain ⟨feed, position, lookahead⟩ := s
  cases lookahead with
  | char c => exact .char rfl (.refl _)
  | ended => exact .ended rfl (.refl _)
  | unread =>
    have hnext := feed.nextChar_cases
    have hpeek : feed.nextChar = CharFeed.next feed := rfl
    rcases hfeed : CharFeed.next feed with ⟨answer, feed'⟩
    rw [hpeek, hfeed] at hnext
    simp only [peek, hfeed]
    cases hnext with
    | ended hgives =>
      exact .ended rfl ⟨hgives.pending_eq, hgives.failures_eq, rfl, by simp, hgives.flows⟩
    | @spent e _ hsound hgives =>
      have hpending : feed.pending = [e].flatMap Spent.bytes ++ feed'.pending := by
        simpa using hgives.pending_eq
      have hfailures : feed.failures = [e].flatMap Spent.passedOn ++ feed'.failures := by
        simpa using hgives.failures_eq
      have hspends : Spends ⟨feed, position, .unread⟩ [e]
          ⟨feed', position.advanceBy ([e].filterMap Spent.char?), .unread⟩ :=
        ⟨hpending, hfailures, rfl, by simpa, hgives.flows⟩
      cases e with
      | char c =>
        have hkept : feed.pending = String.utf8EncodeChar c ++ feed'.pending := hgives.pending_eq
        exact .char rfl ⟨hkept, hgives.failures_eq, rfl, by simp, hgives.flows⟩
      | faulty fault bytes => exact .failed rfl hspends
      | failed failure bytes => exact .failed rfl hspends

theorem call_spends (call : Call) (s : Source ByteReader) :
    ∃ spent, s.Spends spent (call.run s).2 ∧
      spent.map Spent.outcome = (call.outcome? (call.run s).1).toList := by
  have hpeeked := s.peek_cases
  rcases hpeek : s.peek with ⟨answer, t⟩
  rw [hpeek] at hpeeked
  cases hpeeked with
  | @char c _ hheld hspends =>
    cases call with
    | peek =>
      rw [Call.run, hpeek]
      exact ⟨[], hspends, rfl⟩
    | advance =>
      rw [Call.run, advance_of_char hpeek]
      exact ⟨[.char c], hspends.trans (spends_take hheld), rfl⟩
  | ended hended hspends =>
    rw [call.run_of_none hpeek]
    exact ⟨[], hspends, by cases call <;> rfl⟩
  | @failed e failure _ hanswer hspends =>
    rw [call.run_of_error hpeek]
    refine ⟨[e], hspends, ?_⟩
    rw [List.map_singleton, Spent.outcome_of_answer_error hanswer]
    cases call <;> rfl

theorem respond_spends (calls : List Call) (s : Source ByteReader) :
    ∃ spent, s.Spends spent (respond calls s).2 ∧
      spent.map Spent.outcome = outcomes calls (respond calls s).1 := by
  induction calls generalizing s with
  | nil => exact ⟨[], .refl s, rfl⟩
  | cons call calls ih =>
    obtain ⟨first, hfirst, houtcome⟩ := call_spends call s
    obtain ⟨later, hlater, houtcomes⟩ := ih (call.run s).2
    refine ⟨first ++ later, hfirst.trans hlater, ?_⟩
    rw [List.map_append, houtcome, houtcomes]
    simp only [respond, outcomes, List.zip_cons_cons, List.filterMap_cons]
    cases call.outcome? (call.run s).1 <;> rfl

lemma bytes_of_chars {spent : List Spent} (h : ∀ e ∈ spent, ∃ c, e = .char c) :
    spent.flatMap Spent.bytes = utf8Bytes (spent.filterMap Spent.char?) := by
  have hchars : spent = (spent.filterMap Spent.char?).map .char := by
    induction spent with
    | nil => rfl
    | cons e spent ih =>
      obtain ⟨c, rfl⟩ := h e List.mem_cons_self
      exact congrArg (.char c :: ·) (ih fun e he => h e (List.mem_cons_of_mem _ he))
  rw [← Spent.bytes_chars, ← hchars]

lemma chars_of_outcomes {calls : List Call} {answers : List (Except LexError (Option Char))}
    {spent : List Spent} (h : spent.map Spent.outcome = outcomes calls answers)
    (hanswers : ∀ e, .error e ∉ answers) : ∀ e ∈ spent, ∃ c, e = .char c := by
  intro e he
  have hmem : e.outcome ∈ outcomes calls answers := h ▸ List.mem_map_of_mem he
  obtain ⟨⟨call, answer⟩, hzip, houtcome⟩ := List.mem_filterMap.mp hmem
  cases answer with
  | error e' => exact absurd (List.of_mem_zip hzip).2 (hanswers e')
  | ok found =>
    obtain ⟨c, hc⟩ := Call.char_of_outcome? houtcome
    exact ⟨c, Spent.eq_char_of_outcome hc⟩

/-- The account of calls in a row on a source over a reader. What they took from the reader is, in
order, what was spent and the character that is held. What was spent is told by the answers, one
for one: a character for each that was taken, and for each error the bytes that it cost. The
position counts the characters alone. -/
structure Account (r : ByteReader) (calls : List Call)
    (answers : List (Except LexError (Option Char))) (s : Source ByteReader)
    (spent : List Spent) : Prop where
  pending_eq : r.pending =
    spent.flatMap Spent.bytes ++ utf8Bytes s.lookahead.held ++ s.feed.pending
  outcomes_eq : spent.map Spent.outcome = outcomes calls answers
  failures_eq : r.failures = spent.flatMap Spent.passedOn ++ s.feed.failures
  sound : ∀ e ∈ spent, e.Sound
  position_eq : s.position = .after (spent.filterMap Spent.char?)
  without_error : (∀ e, .error e ∉ answers) → s.lookahead.held.length ≤ 1 ∧
    r.pending = utf8Bytes (spent.filterMap Spent.char? ++ s.lookahead.held) ++ s.feed.pending
  left : r.Flows → ∃ t, s.feed.readToEnd = (s.feed.pending, none, t)

theorem exists_account (r : ByteReader) (calls : List Call) :
    ∃ spent, Account r calls (respond calls (.ofFeed r)).1 (respond calls (.ofFeed r)).2 spent := by
  obtain ⟨spent, hspends, houtcomes⟩ := respond_spends calls (.ofFeed r)
  have hpending : r.pending = spent.flatMap Spent.bytes ++ (respond calls (.ofFeed r)).2.pending :=
    hspends.pending_eq
  rw [pending_eq_held, ← List.append_assoc] at hpending
  refine ⟨spent, hpending, houtcomes, hspends.failures_eq, hspends.sound, ?_, ?_, ?_⟩
  · exact hspends.position_eq.trans (advanceBy_start _)
  · intro hanswers
    refine ⟨Lookahead.length_held_le _, ?_⟩
    rw [hpending, bytes_of_chars (chars_of_outcomes houtcomes hanswers), utf8Bytes_append]
  · exact fun hflows => ByteReader.readToEnd_of_flows (hspends.flows hflows)

theorem takes_spends {s t : Source ByteReader} {cs : List Char} (h : s.Takes cs t) :
    s.Spends (cs.map .char) t := by
  induction h with
  | @nil s => exact .refl s
  | @look s t u answer cs hpeek _ ih =>
    have hpeeked := s.peek_cases
    rw [hpeek] at hpeeked
    cases hpeeked with
    | char _ hspends => exact hspends.trans ih
    | ended _ hspends => exact hspends.trans ih
  | @char s t u c cs hpeek _ ih =>
    have hpeeked := s.peek_cases
    rw [hpeek] at hpeeked
    cases hpeeked with
    | char hheld hspends => exact (hspends.trans (spends_take hheld)).trans ih

end Source

namespace Source

variable {ρ : Type} [CharFeed ρ]

/-- Whether a source has looked ahead as it has to for a token of the kind: only the end of an
identifier shows in the character behind it. -/
def LooksAhead (kind : Token.Kind) (s : Source ρ) : Prop :=
  if kind = .identifier then s.peek.1 = .ok s.lookahead.held.head? else s.lookahead.held = []

lemma held_of_peek {s t : Source ρ} {found : Option Char} (h : s.peek = (.ok found, t)) :
    t.lookahead.held = found.toList := by
  obtain ⟨feed, position, lookahead⟩ := s
  cases lookahead with
  | char c => cases h; rfl
  | ended => cases h; rfl
  | unread =>
    simp only [peek] at h
    split at h
    all_goals cases h
    all_goals rfl

lemma looksAhead_of_peek {s t : Source ρ} {found : Option Char} (h : s.peek = (.ok found, t))
    {kind : Token.Kind} (hfound : kind ≠ .identifier → found = none) : t.LooksAhead kind := by
  have hheld := held_of_peek h
  unfold LooksAhead
  split
  · rw [hheld, peek_of_peek h]
    cases found <;> rfl
  · next hkind => rw [hheld, hfound hkind]; rfl

lemma looksAhead_take (s : Source ρ) (c : Char) {kind : Token.Kind} (hkind : kind ≠ .identifier) :
    (s.take c).LooksAhead kind := by
  unfold LooksAhead
  rw [if_neg hkind]
  rfl

lemma looksAhead_of_scanEnd {limit : Option Nat} {start : Position} {last : Scan}
    {text text' : String} {u v : Source ρ} (h : ScanEnd limit start last text u (.ok text') v) :
    (∃ cs, u.Takes cs v) ∧ v.LooksAhead last.kind := by
  cases h with
  | ended hpeek hend => exact ⟨⟨[], .look hpeek .nil⟩, looksAhead_of_peek hpeek fun _ => rfl⟩
  | stopped hpeek hstep =>
    have hkind := Scan.kind_of_stop hstep
    exact ⟨⟨[], .look hpeek .nil⟩, looksAhead_of_peek hpeek fun hne => absurd hkind hne⟩
  | stripped hpeek hstep =>
    exact ⟨⟨_, .char hpeek .nil⟩, looksAhead_take _ _ (Scan.kind_of_complete (.inr hstep))⟩
  | kept hpeek hstep hroom =>
    exact ⟨⟨_, .char hpeek .nil⟩, looksAhead_take _ _ (Scan.kind_of_complete (.inl hstep))⟩

end Source

namespace Lexer

variable {ρ : Type} [CharFeed ρ]

lemma looksAhead_of_scanToken {l : Lexer ρ} {token : Token} {s : Source ρ}
    (h : l.scanToken = (.ok token, s)) :
    (∃ cs, l.source.Takes cs s) ∧ s.LooksAhead token.kind := by
  have hscan := l.tokenScan_scanToken
  simp only [h] at hscan
  cases hscan with
  | ended hblanks hpeek =>
    obtain ⟨blanks, -, htakes⟩ := hblanks.peeked hpeek
    exact ⟨⟨blanks, htakes⟩, Source.looksAhead_of_peek hpeek fun _ => rfl⟩
  | token hfinds hfirst hcount hscanned =>
    obtain ⟨blanks, -, htakes⟩ := hfinds.takesBlanks
    obtain ⟨cs, v, last, htaken, hlast, hfits, hend⟩ := hscanned
    obtain ⟨⟨ds, hds⟩, hlooks⟩ := Source.looksAhead_of_scanEnd hend
    rw [Scan.kind_of_exhausted hlast] at hlooks
    exact ⟨⟨_, (htakes.trans htaken).trans hds⟩, hlooks⟩

lemma looksAhead_of_nextToken {l m : Lexer ρ} {token : Token} (hrun : l.status = .running)
    (h : l.nextToken = (.ok token, m)) :
    (∃ cs, l.source.Takes cs m.source) ∧ m.source.LooksAhead token.kind := by
  have hdrawn := drawn_nextToken hrun
  simp only [h] at hdrawn
  cases hdrawn with
  | token hscan htoken => exact looksAhead_of_scanToken hscan
  | ended hscan => exact looksAhead_of_scanToken hscan

/-- What tokens take of a source are characters. -/
lemma takes_of_passes {l m : Lexer ρ} {tokens : List Token} (h : l.Passes tokens m) :
    ∃ cs, l.source.Takes cs m.source := by
  induction h with
  | nil => exact ⟨[], .nil⟩
  | cons hnext htoken _ ih =>
    obtain ⟨⟨cs, hcs⟩, -⟩ := looksAhead_of_nextToken (running_of_token hnext htoken) hnext
    obtain ⟨ds, hds⟩ := ih
    exact ⟨cs ++ ds, hcs.trans hds⟩

end Lexer

/-- The bytes of a reader are accounted for along any calls of a source. Over a source that has had
no errors, a lexer that returns a token has taken the bytes up to the end of the token and no more,
but for the character behind an identifier, if there is one. The reader yields the others. -/
theorem bytes_conserved (r : ByteReader) :
    (∀ calls, ∃ spent, Source.Account r calls (Source.respond calls (.ofFeed r)).1
      (Source.respond calls (.ofFeed r)).2 spent) ∧
    ∀ reads, (∀ e, .error e ∉ (Source.respond reads (.ofFeed r)).1) →
      ∀ options calls token m,
        (Lexer.respond calls (.ofSource (Source.respond reads (.ofFeed r)).2 options)).2.nextToken =
          (.ok token, m) →
        ∃ (before : List Char) (ahead : Option Char),
          r.pending = utf8Bytes (before ++ ahead.toList) ++ m.source.feed.pending ∧
          token.span.stop = .after before ∧
          (utf8Bytes before).length = token.span.stop.offset ∧
          (if token.kind = .identifier then m.source.peek.1 = .ok ahead else ahead = none) ∧
          (r.Flows → ∃ t, m.source.feed.readToEnd = (m.source.feed.pending, none, t)) := by
  refine ⟨Source.exists_account r, ?_⟩
  intro reads hreads options calls token m h
  obtain ⟨spent, hspends, houtcomes⟩ := Source.respond_spends reads (.ofFeed r)
  obtain ⟨tokens, k, hpasses, hrun, hnext⟩ := Lexer.exists_passes_of_respond rfl h
  obtain ⟨cs, hcs⟩ := Lexer.takes_of_passes hpasses
  obtain ⟨⟨ds, hds⟩, hlooks⟩ := Lexer.looksAhead_of_nextToken hrun hnext
  have hall := hspends.trans (Source.takes_spends (hcs.trans hds))
  have hchars : ∀ e ∈ spent ++ (cs ++ ds).map .char, ∃ c, e = Spent.char c :=
    List.forall_mem_append.mpr ⟨Source.chars_of_outcomes houtcomes hreads,
      List.forall_mem_map.mpr fun c _ => ⟨c, rfl⟩⟩
  have hpending : r.pending = _ := hall.pending_eq
  rw [Source.bytes_of_chars hchars, m.source.pending_eq_held, ← List.append_assoc,
    ← utf8Bytes_append, ← Lookahead.toList_head?_held] at hpending
  have hposition :=
    (Lexer.stop_of_nextToken hnext).trans (hall.position_eq.trans (advanceBy_start _))
  refine ⟨_, _, hpending, hposition, ?_, ?_, ?_⟩
  · rw [hposition, length_utf8Bytes]
    rfl
  · unfold Source.LooksAhead at hlooks
    split
    · next hkind => rwa [if_pos hkind] at hlooks
    · next hkind =>
      rw [if_neg hkind] at hlooks
      rw [hlooks]
      rfl
  · exact fun hflows => ByteReader.readToEnd_of_flows (hall.flows hflows)

/-- An identifier of one character that comes in two reads, with an interruption between them. The
blank behind it has been taken and the symbol has not. -/
theorem bytes_conserved_cut_identifier :
    ∃ (r : ByteReader) (m : Lexer ByteReader),
      r = .buffered 1 [.data [0xC3], .failed ⟨.interrupted, "signal"⟩, .data [0xA9, 0x20, 0x3A]] ∧
      r.Flows ∧ (∀ e, .error e ∉ (Source.respond [.peek] (.ofFeed r)).1) ∧
      (Lexer.respond [] (.ofSource (Source.respond [.peek] (.ofFeed r)).2 {})).2.nextToken =
        (.ok ⟨.identifier, "é", ⟨⟨1, 1, 0⟩, ⟨1, 2, 2⟩⟩⟩, m) ∧
      ∃ (before : List Char) (ahead : Option Char),
        r.pending = utf8Bytes (before ++ ahead.toList) ++ m.source.feed.pending ∧
        .after before = (⟨1, 2, 2⟩ : Position) ∧ m.source.peek.1 = .ok ahead ∧
        ∃ t, m.source.feed.readToEnd = (m.source.feed.pending, none, t) := by
  have hflows : (ByteReader.buffered 1
      [.data [0xC3], .failed ⟨.interrupted, "signal"⟩, .data [0xA9, 0x20, 0x3A]]).Flows :=
    ⟨by decide, by simp [ByteReader.buffered, ReadEvent.Flows, ReadFailure.isInterruption]⟩
  have hpeek : (Source.respond [.peek] (.ofFeed (ByteReader.buffered 1
      [.data [0xC3], .failed ⟨.interrupted, "signal"⟩, .data [0xA9, 0x20, 0x3A]]))).1 =
        [.ok (some 'é')] := by
    decide +kernel
  have htoken : (Lexer.ofSource (Source.respond [.peek] (.ofFeed (ByteReader.buffered 1
      [.data [0xC3], .failed ⟨.interrupted, "signal"⟩,
        .data [0xA9, 0x20, 0x3A]]))).2 {}).nextToken.1 =
      .ok ⟨.identifier, "é", ⟨⟨1, 1, 0⟩, ⟨1, 2, 2⟩⟩⟩ := by
    decide +kernel
  have hreads : ∀ e, .error e ∉ (Source.respond [.peek] (.ofFeed (ByteReader.buffered 1
      [.data [0xC3], .failed ⟨.interrupted, "signal"⟩, .data [0xA9, 0x20, 0x3A]]))).1 := by
    rw [hpeek]
    simp
  obtain ⟨before, ahead, hpending, hstop, -, hahead, hleft⟩ :=
    (bytes_conserved _).2 [.peek] hreads {} [] _ _ (Prod.ext htoken rfl)
  exact ⟨_, _, rfl, hflows, hreads, Prod.ext htoken rfl, before, ahead, hpending, hstop.symm,
    hahead, hleft hflows⟩

end GrammarTokens
