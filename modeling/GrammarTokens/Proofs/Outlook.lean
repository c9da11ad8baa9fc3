import GrammarTokens.Source
import GrammarTokens.Proofs.Reading

/-!
# What lies ahead in a source

A feed is known by the characters that it hands out before its first answer that is none, and
by that answer. This file computes the loops of a source from them: skipping blanks takes the
blanks in front, and scanning takes what the lexeme reads.
-/

namespace GrammarTokens

/-- How the characters of a feed come to an end. -/
inductive Ending where
  | ended
  | failed (failure : ReadFailure)
deriving DecidableEq, Repr

/-- The answer behind the last character, at a position. -/
def Ending.answer (position : Position) : Ending → Except LexError (Option Char)
  | .ended => .ok none
  | .failed failure => .error ⟨.readFailed failure, position⟩

namespace Scan.Reading

/-- Whether what stands behind the characters leaves the reading alone: a lexeme that takes all of
them looks for more. -/
def Halts (r : Reading) (ending : Ending) : Prop :=
  ∀ last, r.stop = .exhausted last → ending = .ended

/-- The text of a lexeme or its fault, or the failure that it reads on to, which is met `here`. -/
def answerBefore (r : Reading) (ending : Ending) (start here : Position) (text : String) :
    Except LexError String :=
  match r.stop, ending with
  | .exhausted _, .failed failure => .error ⟨.readFailed failure, here⟩
  | _, _ => r.answer start text

lemma answerBefore_keep (c : Char) (r : Reading) (ending : Ending) (start here : Position)
    (text : String) : (r.keep c).answerBefore ending start here text =
      r.answerBefore ending start here (text.push c) := by
  unfold answerBefore
  rw [answer_keep]
  rfl

lemma answerBefore_of_halts {r : Reading} {ending : Ending} (h : r.Halts ending)
    (start here : Position) (text : String) :
    r.answerBefore ending start here text = r.answer start text := by
  unfold answerBefore
  cases hstop : r.stop with
  | complete => rfl
  | rejected cause => rfl
  | exhausted last => rw [h last hstop]

end Scan.Reading

/-- The characters that a feed hands out, and the answer behind them. -/
inductive CharFeed.Yields {ρ : Type} [CharFeed ρ] : ρ → List Char → Ending → Prop where
  | ended {feed feed' : ρ} : next feed = (.ok none, feed') → Yields feed [] .ended
  | failed {feed feed' : ρ} {failure : ReadFailure} :
    next feed = (.error failure, feed') → Yields feed [] (.failed failure)
  | char {feed feed' : ρ} {c : Char} {cs : List Char} {ending : Ending} :
    next feed = (.ok (some c), feed') → Yields feed' cs ending → Yields feed (c :: cs) ending

lemma list_yields (cs : List Char) : CharFeed.Yields cs cs .ended := by
  induction cs with
  | nil => exact .ended rfl
  | cons c cs ih => exact .char rfl ih

theorem yields_unique {ρ : Type} [CharFeed ρ] {feed : ρ} {cs ds : List Char}
    {ending ending' : Ending} (h : CharFeed.Yields feed cs ending)
    (h' : CharFeed.Yields feed ds ending') : cs = ds ∧ ending = ending' := by
  induction h generalizing ds with
  | ended hnext =>
    cases h' with
    | ended _ => exact ⟨rfl, rfl⟩
    | failed hnext' => rw [hnext] at hnext'; cases hnext'
    | char hnext' _ => rw [hnext] at hnext'; cases hnext'
  | failed hnext =>
    cases h' with
    | ended hnext' => rw [hnext] at hnext'; cases hnext'
    | failed hnext' => rw [hnext] at hnext'; cases hnext'; exact ⟨rfl, rfl⟩
    | char hnext' _ => rw [hnext] at hnext'; cases hnext'
  | char hnext _ ih =>
    cases h' with
    | ended hnext' => rw [hnext] at hnext'; cases hnext'
    | failed hnext' => rw [hnext] at hnext'; cases hnext'
    | char hnext' htail =>
      rw [hnext] at hnext'
      cases hnext'
      obtain ⟨rfl, rfl⟩ := ih htail
      exact ⟨rfl, rfl⟩

def answers {σ α : Type} (call : σ → α × σ) : Nat → σ → List α
  | 0, _ => []
  | n + 1, s => (call s).1 :: answers call n (call s).2

namespace Source

variable {ρ : Type} [CharFeed ρ]

/-- The characters that can be taken from a source, and the answer behind them. -/
def Yields (s : Source ρ) (cs : List Char) (ending : Ending) : Prop :=
  match s.lookahead with
  | .unread => CharFeed.Yields s.feed cs ending
  | .char c => ∃ ds, cs = c :: ds ∧ CharFeed.Yields s.feed ds ending
  | .ended => cs = [] ∧ ending = .ended

lemma yields_ofFeed {feed : ρ} {cs : List Char} {ending : Ending}
    (h : CharFeed.Yields feed cs ending) : (ofFeed feed).Yields cs ending := h

theorem peek_of_yields_char {s : Source ρ} {c : Char} {cs : List Char} {ending : Ending}
    (hs : s.Yields (c :: cs) ending) :
    ∃ t, s.peek = (.ok (some c), t) ∧ t.position = s.position ∧ t.Yields (c :: cs) ending ∧
      (t.take c).Yields cs ending := by
  obtain ⟨feed, position, lookahead⟩ := s
  cases lookahead with
  | char d =>
    obtain ⟨ds, hd, hfeed⟩ := hs
    obtain ⟨rfl, rfl⟩ := List.cons.inj hd
    exact ⟨_, rfl, rfl, ⟨cs, rfl, hfeed⟩, hfeed⟩
  | ended => exact absurd hs.1 (List.cons_ne_nil c cs)
  | unread =>
    cases hs with
    | @char _ feed' _ _ _ hnext hfeed =>
      refine ⟨⟨feed', position, .char c⟩, ?_, rfl, ⟨cs, rfl, hfeed⟩, hfeed⟩
      simp only [peek, hnext]

theorem peek_of_yields_ended {s : Source ρ} (hs : s.Yields [] .ended) :
    ∃ t, s.peek = (.ok none, t) ∧ t.position = s.position ∧ t.Yields [] .ended := by
  obtain ⟨feed, position, lookahead⟩ := s
  cases lookahead with
  | char d =>
    obtain ⟨ds, hd, -⟩ := hs
    exact absurd hd.symm (List.cons_ne_nil d ds)
  | ended => exact ⟨_, rfl, rfl, rfl, rfl⟩
  | unread =>
    cases hs with
    | @ended _ feed' hnext =>
      refine ⟨⟨feed', position, .ended⟩, ?_, rfl, rfl, rfl⟩
      simp only [peek, hnext]

theorem peek_of_yields_failed {s : Source ρ} {failure : ReadFailure}
    (hs : s.Yields [] (.failed failure)) :
    ∃ t, s.peek = (.error ⟨.readFailed failure, s.position⟩, t) ∧ t.position = s.position := by
  obtain ⟨feed, position, lookahead⟩ := s
  cases lookahead with
  | char d =>
    obtain ⟨ds, hd, -⟩ := hs
    exact absurd hd.symm (List.cons_ne_nil d ds)
  | ended => cases hs.2
  | unread =>
    cases hs with
    | @failed _ feed' _ hnext =>
      refine ⟨⟨feed', position, .unread⟩, ?_, rfl⟩
      simp only [peek, hnext]

lemma advance_of_char {s t : Source ρ} {c : Char} (h : s.peek = (.ok (some c), t)) :
    s.advance = (.ok (some c), t.take c) := by
  rw [advance, h]

theorem answers_advance_of_yields {s : Source ρ} {cs : List Char} {ending : Ending}
    (hs : s.Yields cs ending) :
    answers advance (cs.length + 1) s =
      cs.map (fun c => .ok (some c)) ++ [ending.answer (s.position.advanceBy cs)] := by
  induction cs generalizing s with
  | nil =>
    have hlast : s.advance.1 = ending.answer s.position := by
      cases ending with
      | ended =>
        obtain ⟨t, hpeek, -⟩ := peek_of_yields_ended hs
        rw [advance, hpeek]
        rfl
      | failed failure =>
        obtain ⟨t, hpeek, -⟩ := peek_of_yields_failed hs
        rw [advance, hpeek]
        rfl
    simp only [List.length_nil, answers, hlast]
    rfl
  | cons c cs ih =>
    obtain ⟨t, hpeek, hposition, -, htake⟩ := peek_of_yields_char hs
    have htaken : (t.take c).position = s.position.advance c := by rw [← hposition]; rfl
    rw [List.length_cons, answers, advance_of_char hpeek, ih htake, htaken]
    rfl

lemma skipBlanks_of_char {s t : Source ρ} {c : Char} (h : s.peek = (.ok (some c), t)) :
    s.skipBlanks = if isBlank c then (t.take c).skipBlanks else (.ok (some c), t) := by
  rw [skipBlanks.eq_def]
  split
  · next d u hu => rw [h] at hu; cases hu; rfl
  · next u hu => rw [h] at hu; cases hu
  · next e u hu => rw [h] at hu; cases hu

lemma skipBlanks_of_none {s t : Source ρ} (h : s.peek = (.ok none, t)) :
    s.skipBlanks = (.ok none, t) := by
  rw [skipBlanks.eq_def]
  split
  · next d u hu => rw [h] at hu; cases hu
  · next u hu => rw [h] at hu; cases hu; rfl
  · next e u hu => rw [h] at hu; cases hu

lemma skipBlanks_of_error {s t : Source ρ} {e : LexError} (h : s.peek = (.error e, t)) :
    s.skipBlanks = (.error e, t) := by
  rw [skipBlanks.eq_def]
  split
  · next d u hu => rw [h] at hu; cases hu
  · next u hu => rw [h] at hu; cases hu
  · next e u hu => rw [h] at hu; cases hu; rfl

lemma scan_of_none {s t : Source ρ} (h : s.peek = (.ok none, t)) (limit : Option Nat)
    (start : Position) (state : Scan) (text : String) :
    s.scan limit start state text =
      match state.atEnd? with
      | none => (.ok text, t)
      | some cause => (.error ⟨cause, start⟩, t) := by
  rw [scan.eq_def]
  split
  · next e u hu => rw [h] at hu; cases hu
  · next u hu => rw [h] at hu; cases hu; rfl
  · next d u hu => rw [h] at hu; cases hu

lemma scan_of_error {s t : Source ρ} {e : LexError} (h : s.peek = (.error e, t))
    (limit : Option Nat) (start : Position) (state : Scan) (text : String) :
    s.scan limit start state text = (.error e, t) := by
  rw [scan.eq_def]
  split
  · next e u hu => rw [h] at hu; cases hu; rfl
  · next u hu => rw [h] at hu; cases hu
  · next d u hu => rw [h] at hu; cases hu

lemma scan_of_char {s t : Source ρ} {c : Char} (h : s.peek = (.ok (some c), t))
    (limit : Option Nat) (start : Position) (state : Scan) (text : String) :
    s.scan limit start state text =
      match state.step c with
      | .stop => (.ok text, t)
      | .reject cause => (.error ⟨cause, start⟩, t)
      | .strip none => (.ok text, t.take c)
      | .strip (some next) => (t.take c).scan limit start next text
      | .keep next? =>
        match limit.filter (· < (text.push c).utf8ByteSize), next? with
        | some bound, _ => (.error ⟨.tokenTooLong bound, start⟩, t.take c)
        | none, none => (.ok (text.push c), t.take c)
        | none, some next => (t.take c).scan limit start next (text.push c) := by
  rw [scan.eq_def]
  split
  · next e u hu => rw [h] at hu; cases hu
  · next u hu => rw [h] at hu; cases hu
  · next d u hu => rw [h] at hu; cases hu; rfl

lemma skipBlanks_blanks {s : Source ρ} {blanks cs : List Char} {ending : Ending}
    (hblanks : ∀ c ∈ blanks, isBlank c) (hs : s.Yields (blanks ++ cs) ending) :
    ∃ t : Source ρ, s.skipBlanks = t.skipBlanks ∧ t.position = s.position.advanceBy blanks ∧
      t.Yields cs ending := by
  induction blanks generalizing s with
  | nil => exact ⟨s, rfl, rfl, hs⟩
  | cons b blanks ih =>
    obtain ⟨t, hpeek, hposition, -, htake⟩ := peek_of_yields_char hs
    obtain ⟨u, hskip, hu, hyields⟩ := ih (fun c hc => hblanks c (List.mem_cons_of_mem b hc)) htake
    refine ⟨u, ?_, ?_, hyields⟩
    · rw [skipBlanks_of_char hpeek, if_pos (hblanks b List.mem_cons_self), hskip]
    · rw [hu, Position.advanceBy_cons, ← hposition]
      rfl

theorem skipBlanks_of_yields {s : Source ρ} {blanks cs : List Char} {ending : Ending}
    (hblanks : ∀ c ∈ blanks, isBlank c) (hcs : ∀ c ∈ cs.head?, isBlank c = false)
    (hend : cs = [] → ending = .ended) (hs : s.Yields (blanks ++ cs) ending) :
    ∃ t, s.skipBlanks = (.ok cs.head?, t) ∧ t.position = s.position.advanceBy blanks ∧
      t.Yields cs ending := by
  obtain ⟨t, hskip, hposition, ht⟩ := skipBlanks_blanks hblanks hs
  rw [hskip, ← hposition]
  cases cs with
  | nil =>
    rw [hend rfl] at ht ⊢
    obtain ⟨u, hpeek, hu, hyields⟩ := peek_of_yields_ended ht
    exact ⟨u, skipBlanks_of_none hpeek, hu, hyields⟩
  | cons c cs =>
    obtain ⟨u, hpeek, hu, hyields, -⟩ := peek_of_yields_char ht
    refine ⟨u, ?_, hu, hyields⟩
    rw [skipBlanks_of_char hpeek, hcs c rfl]
    rfl

lemma skipBlanks_of_yields_failed {s : Source ρ} {blanks : List Char} {failure : ReadFailure}
    (hblanks : ∀ c ∈ blanks, isBlank c) (hs : s.Yields blanks (.failed failure)) :
    ∃ t, s.skipBlanks = (.error ⟨.readFailed failure, s.position.advanceBy blanks⟩, t) := by
  rw [← List.append_nil blanks] at hs
  obtain ⟨t, hskip, hposition, ht⟩ := skipBlanks_blanks hblanks hs
  obtain ⟨u, hpeek, -⟩ := peek_of_yields_failed ht
  exact ⟨u, by rw [hskip, skipBlanks_of_error hpeek, hposition]⟩

/-- Scanning takes what the lexeme reads, if the text has room for it. A lexeme that takes all
characters meets what stands behind them. -/
theorem scan_of_yields {s : Source ρ} {cs : List Char} {ending : Ending} (limit : Option Nat)
    (start : Position) (state : Scan) (text : String) (hs : s.Yields cs ending)
    (hfits : ∀ bound ∈ limit, text.utf8ByteSize + utf8Length (state.read cs).text ≤ bound) :
    ∃ t, s.scan limit start state text = ((state.read cs).answerBefore ending start
        (s.position.advanceBy (state.read cs).taken) text, t) ∧
      t.position = s.position.advanceBy (state.read cs).taken ∧
      ((state.read cs).Halts ending → t.Yields (state.read cs).rest ending) := by
  induction cs generalizing s state text with
  | nil =>
    cases ending with
    | ended =>
      obtain ⟨t, hpeek, hposition, ht⟩ := peek_of_yields_ended hs
      refine ⟨t, ?_, hposition, fun _ => ht⟩
      rw [scan_of_none hpeek]
      simp only [Scan.read, Scan.Reading.answerBefore, Scan.Reading.answer, Scan.Stop.fault?]
      cases state.atEnd? <;> simp
    | failed failure =>
      obtain ⟨t, hpeek, hposition⟩ := peek_of_yields_failed hs
      refine ⟨t, ?_, hposition, ?_⟩
      · rw [scan_of_error hpeek]
        rfl
      · intro hhalts
        cases hhalts state rfl
  | cons c cs ih =>
    obtain ⟨t, hpeek, hposition, hyields, htake⟩ := peek_of_yields_char hs
    have htaken : (t.take c).position = s.position.advance c := by rw [← hposition]; rfl
    rw [scan_of_char hpeek]
    rw [Scan.read] at hfits ⊢
    cases hstep : state.step c with
    | stop =>
      refine ⟨t, ?_, hposition, fun _ => hyields⟩
      simp [Scan.Reading.answerBefore, Scan.Reading.answer, Scan.Stop.fault?]
    | reject cause =>
      refine ⟨t, ?_, hposition, fun _ => hyields⟩
      simp [Scan.Reading.answerBefore, Scan.Reading.answer, Scan.Stop.fault?]
    | strip next? =>
      cases next? with
      | none =>
        refine ⟨t.take c, ?_, htaken, fun _ => htake⟩
        simp [Scan.Reading.answerBefore, Scan.Reading.answer, Scan.Stop.fault?]
      | some next =>
        simp only [hstep] at hfits ⊢
        obtain ⟨u, hscan, hu, hrest⟩ := ih next text htake hfits
        refine ⟨u, ?_, ?_, hrest⟩
        · rw [hscan, htaken]
          rfl
        · rw [hu, htaken]
          rfl
    | keep next? =>
      have hroom : limit.filter (· < (text.push c).utf8ByteSize) = none := by
        rw [Option.filter_eq_none_iff]
        intro bound hbound
        have hle := hfits bound hbound
        rw [hstep] at hle
        have hlonger : (text.push c).utf8ByteSize ≤ bound := by
          cases next? with
          | none => simpa [Scan.Reading.keep] using hle
          | some next =>
            simp only [Scan.Reading.keep, utf8Length_cons, String.utf8ByteSize_push] at hle ⊢
            omega
        simpa using hlonger
      simp only [hroom]
      cases next? with
      | none =>
        refine ⟨t.take c, ?_, htaken, fun _ => htake⟩
        simp [Scan.Reading.answerBefore, Scan.Reading.answer, Scan.Stop.fault?]
      | some next =>
        simp only [hstep] at hfits ⊢
        have hpush : ∀ bound ∈ limit,
            (text.push c).utf8ByteSize + utf8Length (next.read cs).text ≤ bound := by
          intro bound hbound
          have hle := hfits bound hbound
          simp only [Scan.Reading.keep, utf8Length_cons, String.utf8ByteSize_push] at hle ⊢
          omega
        obtain ⟨u, hscan, hu, hrest⟩ := ih next (text.push c) htake hpush
        refine ⟨u, ?_, ?_, hrest⟩
        · rw [hscan, htaken, Scan.Reading.answerBefore_keep]
          rfl
        · rw [hu, htaken]
          rfl

/-- A text without room for what the lexeme reads is refused, whatever stands behind it. -/
theorem scan_of_yields_too_long {s : Source ρ} {cs : List Char} {ending : Ending} {bound : Nat}
    (start : Position) (state : Scan) (text : String) (hs : s.Yields cs ending)
    (htext : text.utf8ByteSize ≤ bound)
    (hlong : bound < text.utf8ByteSize + utf8Length (state.read cs).text) :
    ∃ t, s.scan (some bound) start state text = (.error ⟨.tokenTooLong bound, start⟩, t) := by
  induction cs generalizing s state text with
  | nil =>
    rw [Scan.read, utf8Length_nil] at hlong
    omega
  | cons c cs ih =>
    obtain ⟨t, hpeek, hposition, hyields, htake⟩ := peek_of_yields_char hs
    rw [scan_of_char hpeek]
    rw [Scan.read] at hlong
    cases hstep : state.step c with
    | stop =>
      simp only [hstep, utf8Length_nil] at hlong
      omega
    | reject cause =>
      simp only [hstep, utf8Length_nil] at hlong
      omega
    | strip next? =>
      cases next? with
      | none =>
        simp only [hstep, utf8Length_nil] at hlong
        omega
      | some next =>
        simp only [hstep] at hlong ⊢
        exact ih next text htake htext hlong
    | keep next? =>
      by_cases hroom : bound < (text.push c).utf8ByteSize
      · have hfull : (some bound).filter (· < (text.push c).utf8ByteSize) = some bound := by
          rw [Option.filter_some, if_pos (decide_eq_true hroom)]
        exact ⟨t.take c, by simp only [hfull]⟩
      · have hnone : (some bound).filter (· < (text.push c).utf8ByteSize) = none := by
          rw [Option.filter_some, if_neg (by simpa using hroom)]
        rw [String.utf8ByteSize_push] at hroom
        cases next? with
        | none =>
          simp only [hstep, utf8Length_cons, utf8Length_nil] at hlong
          omega
        | some next =>
          simp only [hnone]
          simp only [hstep, Scan.Reading.keep, utf8Length_cons] at hlong
          apply ih next (text.push c) htake
          · rw [String.utf8ByteSize_push]
            omega
          · rw [String.utf8ByteSize_push]
            omega

end Source

end GrammarTokens
