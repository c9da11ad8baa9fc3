import GrammarTokens.Proofs.Calls

/-!
# Maps of feeds

A feed may carry more than it needs for its answers. A map that forgets the rest and keeps the
answers can be applied before or after whatever is done with a source or a lexer over the feed: the
answers are the same, and so is what is left. So what a feed keeps from answer to answer, it keeps
under a lexer.
-/

namespace GrammarTokens

variable {ρ τ : Type} [CharFeed ρ] [CharFeed τ]

def CharFeed.KeepsAnswers (f : ρ → τ) : Prop :=
  ∀ feed, next (f feed) = ((next feed).1, f (next feed).2)

namespace Source

def map {ρ τ : Type} (f : ρ → τ) (s : Source ρ) : Source τ := { s with feed := f s.feed }

variable {f : ρ → τ}

lemma peek_map (hf : CharFeed.KeepsAnswers f) {s t : Source ρ}
    {answer : Except LexError (Option Char)} (h : s.peek = (answer, t)) :
    (s.map f).peek = (answer, t.map f) := by
  obtain ⟨feed, position, lookahead⟩ := s
  cases lookahead with
  | char c => cases h; rfl
  | ended => cases h; rfl
  | unread =>
    have hnext := hf feed
    simp only [peek] at h
    split at h
    all_goals
      next hfeed =>
        cases h
        rw [hfeed] at hnext
        simp only [map, peek, hnext]

lemma skipBlanks_map (hf : CharFeed.KeepsAnswers f) (s : Source ρ) :
    (s.map f).skipBlanks = (s.skipBlanks.1, s.skipBlanks.2.map f) := by
  fun_induction skipBlanks s with
  | case1 s c t hpeek hc ih =>
    rw [skipBlanks_of_char (peek_map hf hpeek), if_pos hc]
    exact ih
  | case2 s c t hpeek hc => rw [skipBlanks_of_char (peek_map hf hpeek), if_neg hc]
  | case3 s t hpeek => rw [skipBlanks_of_none (peek_map hf hpeek)]
  | case4 s e t hpeek => rw [skipBlanks_of_error (peek_map hf hpeek)]

lemma scan_map (hf : CharFeed.KeepsAnswers f) (s : Source ρ) (limit : Option Nat)
    (start : Position) (state : Scan) (text : String) :
    (s.map f).scan limit start state text =
      ((s.scan limit start state text).1, (s.scan limit start state text).2.map f) := by
  fun_induction scan s limit start state text with
  | case1 s state text e t hpeek => rw [scan_of_error (peek_map hf hpeek)]
  | case2 s state text t hpeek hend => simp only [scan_of_none (peek_map hf hpeek), hend]
  | case3 s state text t hpeek cause hend => simp only [scan_of_none (peek_map hf hpeek), hend]
  | case4 s state text c t hpeek hstep => simp only [scan_of_char (peek_map hf hpeek), hstep]
  | case5 s state text c t hpeek cause hstep =>
    simp only [scan_of_char (peek_map hf hpeek), hstep]
  | case6 s state text c t hpeek hstep =>
    simp only [scan_of_char (peek_map hf hpeek), hstep]
    rfl
  | case7 s state text c t hpeek next hstep ih =>
    simp only [scan_of_char (peek_map hf hpeek), hstep]
    exact ih
  | case8 s state text c t hpeek next? hstep longer bound hbound =>
    simp only [scan_of_char (peek_map hf hpeek), hstep, hbound, longer]
    rfl
  | case9 s state text c t hpeek longer hroom hstep =>
    simp only [scan_of_char (peek_map hf hpeek), hstep, hroom, longer]
    rfl
  | case10 s state text c t hpeek longer next hroom hstep ih =>
    simp only [scan_of_char (peek_map hf hpeek), hstep, hroom, longer]
    exact ih

end Source

namespace Lexer

def map {ρ τ : Type} (f : ρ → τ) (l : Lexer ρ) : Lexer τ := { l with source := l.source.map f }

variable {f : ρ → τ}

lemma scanToken_map (hf : CharFeed.KeepsAnswers f) (l : Lexer ρ) :
    (l.map f).scanToken = (l.scanToken.1, l.scanToken.2.map f) := by
  have hsource : (l.map f).source = l.source.map f := rfl
  have hoptions : (l.map f).options = l.options := rfl
  have hcount : (l.map f).count = l.count := rfl
  unfold scanToken
  rw [hsource, hoptions, hcount, Source.skipBlanks_map hf]
  rcases l.source.skipBlanks with ⟨e | lookahead, s⟩
  · rfl
  · dsimp only
    cases Opening.classify lookahead with
    | endOfStream => rfl
    | unexpected c => cases l.options.maxTokens.filter (· ≤ l.count) <;> rfl
    | lexeme first =>
      cases l.options.maxTokens.filter (· ≤ l.count) with
      | some limit => rfl
      | none =>
        have hscan :=
          Source.scan_map hf s l.options.maxTokenLength s.position first ""
        have hposition : (s.map f).position = s.position := rfl
        simp only [hposition, hscan]
        rcases s.scan l.options.maxTokenLength s.position first "" with ⟨e | text, t⟩ <;> rfl

lemma nextToken_map (hf : CharFeed.KeepsAnswers f) (l : Lexer ρ) :
    (l.map f).nextToken = (l.nextToken.1, l.nextToken.2.map f) := by
  have hscan := scanToken_map hf l
  have hstatus : (l.map f).status = l.status := rfl
  unfold nextToken
  rw [hstatus]
  cases l.status with
  | ended => rfl
  | failed e => rfl
  | running =>
    dsimp only
    rw [hscan]
    rcases l.scanToken with ⟨e | token, s⟩
    · rfl
    · dsimp only
      split <;> rfl

lemma next?_map (hf : CharFeed.KeepsAnswers f) (l : Lexer ρ) :
    (l.map f).next? = (l.next?.1, l.next?.2.map f) := by
  have hnext := nextToken_map hf l
  have hfinished : (l.map f).isFinished = l.isFinished := rfl
  unfold next?
  rw [hfinished, hnext]
  split
  · rfl
  · rcases l.nextToken with ⟨e | token, m⟩
    · rfl
    · dsimp only
      split <;> rfl

theorem respond_map (hf : CharFeed.KeepsAnswers f) (calls : List Call) (l : Lexer ρ) :
    respond calls (l.map f) = ((respond calls l).1, (respond calls l).2.map f) := by
  induction calls generalizing l with
  | nil => rfl
  | cons call calls ih =>
    have hrun : call.run (l.map f) = ((call.run l).1, (call.run l).2.map f) := by
      cases call with
      | nextToken => simp only [Call.run, nextToken_map hf]
      | next => exact next?_map hf l
    simp only [respond, hrun, ih]

end Lexer

section Invariants

variable {P : ρ → Prop} {hP : ∀ feed : ρ, P feed → P (CharFeed.next feed).2}

/-- A feed with a property that no answer takes away. -/
structure CharFeed.Kept (P : ρ → Prop) (hP : ∀ feed : ρ, P feed → P (next feed).2) where
  feed : ρ
  holds : P feed

instance : CharFeed (CharFeed.Kept P hP) where
  next kept := ((CharFeed.next kept.feed).1, ⟨(CharFeed.next kept.feed).2, hP _ kept.holds⟩)
  size kept := CharFeed.size kept.feed
  size_next_le kept := CharFeed.size_next_le kept.feed
  size_next_lt kept := CharFeed.size_next_lt kept.feed

/-- What a feed keeps whenever it answers, it keeps under a lexer. -/
theorem Lexer.feed_respond (hP : ∀ feed : ρ, P feed → P (CharFeed.next feed).2) {l : Lexer ρ}
    (h : P l.source.feed) (calls : List Call) : P (respond calls l).2.source.feed := by
  have hkeeps : CharFeed.KeepsAnswers (CharFeed.Kept.feed : CharFeed.Kept P hP → ρ) := fun _ => rfl
  let kept : Lexer (CharFeed.Kept P hP) :=
    { l with source := { l.source with feed := ⟨l.source.feed, h⟩ } }
  have hmap : respond calls l =
      ((respond calls kept).1, (respond calls kept).2.map CharFeed.Kept.feed) :=
    respond_map hkeeps calls kept
  rw [hmap]
  exact (respond calls kept).2.source.feed.holds

end Invariants

end GrammarTokens
