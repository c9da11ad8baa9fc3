import GrammarTokens.Lexer
import GrammarTokens.Proofs.Outlook

/-!
# Runs of a lexer

Asked again and again, a lexer returns tokens, one per call, and then one answer for ever: the
mark of the end, or an error. This file says once what a single call can do, and follows the
calls that return tokens up to the one that finishes the lexer.
-/

namespace GrammarTokens

/-- The tokens among answers, without the mark of the end. -/
def tokensAmong (answers : List (Except LexError Token)) : List Token :=
  answers.filterMap fun answer => answer.toOption.filter (!·.isEndOfStream)

lemma tokensAmong_append (answers answers' : List (Except LexError Token)) :
    tokensAmong (answers ++ answers') = tokensAmong answers ++ tokensAmong answers' :=
  List.filterMap_append

lemma tokensAmong_tokens {tokens : List Token}
    (h : ∀ token ∈ tokens, token.isEndOfStream = false) :
    tokensAmong (tokens.map .ok) = tokens := by
  induction tokens with
  | nil => rfl
  | cons token tokens ih =>
    rw [List.map_cons, tokensAmong, List.filterMap_cons]
    simp only [Except.toOption, Option.filter, h token List.mem_cons_self, Bool.not_false, if_true]
    exact congrArg (token :: ·) (ih fun t ht => h t (List.mem_cons_of_mem token ht))

lemma tokensAmong_eq_nil {answers : List (Except LexError Token)}
    (h : ∀ token, .ok token ∈ answers → token.isEndOfStream) : tokensAmong answers = [] := by
  apply List.filterMap_eq_nil_iff.mpr
  intro answer hanswer
  cases answer with
  | error e => rfl
  | ok token => simp [Except.toOption, h token hanswer]

namespace Lexer

variable {ρ : Type} [CharFeed ρ]

lemma scan_kind_ne_endOfStream (first : Scan) : first.kind ≠ .endOfStream := by
  cases first <;> simp [Scan.kind]

lemma eq_endOfStream_of_scanToken {l : Lexer ρ} {token : Token} {s : Source ρ}
    (h : l.scanToken = (.ok token, s)) (htoken : token.isEndOfStream) :
    token = .endOfStream s.position := by
  unfold scanToken at h
  dsimp only at h
  split at h
  · cases h
  · split at h
    · cases h
      rfl
    · cases h
    · cases h
    · next first _ _ =>
      split at h
      · cases h
      · cases h
        exact absurd (eq_of_beq htoken) (scan_kind_ne_endOfStream first)

/-- What a call does to a lexer that runs: it returns a token, or it finishes the lexer at the
end of the stream or with an error. -/
inductive Drawn (l : Lexer ρ) : Except LexError Token → Lexer ρ → Prop where
  | token {token : Token} {s : Source ρ} :
    l.scanToken = (.ok token, s) → token.isEndOfStream = false →
    Drawn l (.ok token) { l with
      source := s, count := l.count + 1, log := l.log.push (.scanned token.kind token.span) }
  | ended {s : Source ρ} : l.scanToken = (.ok (.endOfStream s.position), s) →
    Drawn l (.ok (.endOfStream s.position))
      { l with source := s, status := .ended, log := l.log.push (.ended l.count) }
  | failed {e : LexError} {s : Source ρ} : l.scanToken = (.error e, s) →
    Drawn l (.error e)
      { l with source := s, status := .failed e, log := l.log.push (.failed e l.count) }

omit [CharFeed ρ] in
lemma isFinished_eq_false_iff {l : Lexer ρ} : l.isFinished = false ↔ l.status = .running := by
  rw [isFinished, bne_eq_false_iff_eq]

theorem drawn_nextToken {l : Lexer ρ} (hrun : l.status = .running) :
    l.Drawn l.nextToken.1 l.nextToken.2 := by
  obtain ⟨source, options, status, count, log⟩ := l
  obtain rfl : status = .running := hrun
  rcases hscan : scanToken ⟨source, options, .running, count, log⟩ with ⟨e | token, s⟩
  · simp only [nextToken, hscan]
    exact .failed hscan
  · cases htoken : token.isEndOfStream with
    | true =>
      obtain rfl := eq_endOfStream_of_scanToken hscan htoken
      simp only [nextToken, hscan]
      exact .ended hscan
    | false =>
      simp only [nextToken, hscan, htoken, Bool.false_eq_true, if_false]
      exact .token hscan htoken

/-- A call that leaves the lexer running has returned a token and has taken a character. -/
theorem Drawn.token_of_running {l m : Lexer ρ} {answer : Except LexError Token}
    (h : l.Drawn answer m) (hm : m.isFinished = false) :
    ∃ token, answer = .ok token ∧ token.isEndOfStream = false ∧ m.source.size < l.source.size := by
  cases h with
  | @token token s hscan htoken => exact ⟨token, rfl, htoken, size_scanToken_lt hscan htoken⟩
  | ended hscan => cases hm
  | failed hscan => cases hm

lemma running_of_token {l m : Lexer ρ} {token : Token} (h : l.nextToken = (.ok token, m))
    (htoken : token.isEndOfStream = false) : l.status = .running := by
  cases hstatus : l.status with
  | running => rfl
  | ended =>
    rw [nextToken, hstatus] at h
    cases h
    cases htoken
  | failed e =>
    rw [nextToken, hstatus] at h
    cases h

lemma state_of_token {l m : Lexer ρ} {token : Token} (h : l.nextToken = (.ok token, m))
    (htoken : token.isEndOfStream = false) :
    ∃ s, m = { l with
      source := s, count := l.count + 1, log := l.log.push (.scanned token.kind token.span) } := by
  have hdrawn := drawn_nextToken (running_of_token h htoken)
  rw [h] at hdrawn
  cases hdrawn with
  | token => exact ⟨_, rfl⟩
  | ended => cases htoken

/-- Calls that return tokens, one each, and what they leave of a lexer. -/
inductive Passes : Lexer ρ → List Token → Lexer ρ → Prop where
  | nil {l : Lexer ρ} : Passes l [] l
  | cons {l m n : Lexer ρ} {token : Token} {tokens : List Token} :
    l.nextToken = (.ok token, m) → token.isEndOfStream = false → Passes m tokens n →
    Passes l (token :: tokens) n

lemma Passes.take {l m : Lexer ρ} {tokens : List Token} (h : l.Passes tokens m) (n : Nat) :
    ∃ m', l.Passes (tokens.take n) m' := by
  induction h generalizing n with
  | @nil l => exact ⟨l, by simpa using Passes.nil⟩
  | @cons l m _ token tokens hnext htoken _ ih =>
    cases n with
    | zero => exact ⟨l, .nil⟩
    | succ n =>
      obtain ⟨m', hpasses⟩ := ih n
      exact ⟨m', .cons hnext htoken hpasses⟩

/-- The call that finishes a lexer, with its answer. -/
structure Finishes (l : Lexer ρ) (last : Except LexError Token) (final : Lexer ρ) : Prop where
  nextToken_eq : l.nextToken = (last, final)
  running : l.status = .running
  finished : final.isFinished

theorem exists_finishes (l : Lexer ρ) (hrun : l.status = .running) :
    ∃ tokens m last final, l.Passes tokens m ∧ m.Finishes last final := by
  -- A token takes a character, so the source that it leaves is smaller.
  induction hn : l.source.size using Nat.strongRecOn generalizing l with
  | ind n ih =>
    rcases hnext : l.nextToken with ⟨answer, m⟩
    have hdrawn := drawn_nextToken hrun
    rw [hnext] at hdrawn
    cases hm : m.isFinished with
    | true => exact ⟨[], l, answer, m, .nil, hnext, hrun, hm⟩
    | false =>
      obtain ⟨token, rfl, htoken, hlt⟩ := hdrawn.token_of_running hm
      obtain ⟨tokens, m', last, final, hpasses, hfinal⟩ :=
        ih m.source.size (hn ▸ hlt) m (isFinished_eq_false_iff.mp hm) rfl
      exact ⟨token :: tokens, m', last, final, .cons hnext htoken hpasses, hfinal⟩

lemma Finishes.state {l final : Lexer ρ} {last : Except LexError Token}
    (h : l.Finishes last final) :
    (∃ s, last = .ok (.endOfStream s.position) ∧
      final = { l with source := s, status := .ended, log := l.log.push (.ended l.count) }) ∨
    ∃ e s, last = .error e ∧ final =
      { l with source := s, status := .failed e, log := l.log.push (.failed e l.count) } := by
  have hdrawn := drawn_nextToken h.running
  have hfinished := h.finished
  rw [h.nextToken_eq] at hdrawn
  cases hdrawn with
  | token hscan htoken =>
    have hrunning : l.isFinished = false := isFinished_eq_false_iff.mpr h.running
    exact absurd hfinished (Bool.eq_false_iff.mp hrunning)
  | ended hscan => exact .inl ⟨_, rfl, rfl⟩
  | failed hscan => exact .inr ⟨_, _, rfl, rfl⟩

/-- The last answer is an error or the mark of the end at the place where the lexer stopped, and
from then on every call repeats it. -/
theorem Finishes.repeats {l final : Lexer ρ} {last : Except LexError Token}
    (h : l.Finishes last final) :
    final.nextToken = (last, final) ∧
      (last = .ok (.endOfStream final.source.position) ∨ ∃ e, last = .error e) := by
  obtain ⟨s, rfl, rfl⟩ | ⟨e, s, rfl, rfl⟩ := h.state
  · exact ⟨rfl, .inl rfl⟩
  · exact ⟨rfl, .inr ⟨e, rfl⟩⟩

lemma next?_of_token {l m : Lexer ρ} {token : Token} (h : l.nextToken = (.ok token, m))
    (htoken : token.isEndOfStream = false) : l.next? = (some (.ok token), m) := by
  have hrun := isFinished_eq_false_iff.mpr (running_of_token h htoken)
  simp only [next?, hrun, h, htoken, Bool.false_eq_true, if_false]

/-- The iterator leaves out the mark of the end. -/
def itemOf (last : Except LexError Token) : Option (Except LexError Token) :=
  match last with
  | .ok _ => none
  | .error e => some (.error e)

theorem next?_of_finishes {l final : Lexer ρ} {last : Except LexError Token}
    (h : l.Finishes last final) : l.next? = (itemOf last, final) := by
  have hrun := isFinished_eq_false_iff.mpr h.running
  obtain rfl | ⟨e, rfl⟩ := h.repeats.2
  · simp [next?, hrun, h.nextToken_eq, itemOf]
  · simp [next?, hrun, h.nextToken_eq, itemOf]

lemma next?_of_finished {l : Lexer ρ} (h : l.isFinished) : l.next? = (none, l) := by
  rw [next?, if_pos h]

theorem rest_of_finishes {l m final : Lexer ρ} {tokens : List Token}
    {last : Except LexError Token} (hpasses : l.Passes tokens m) (hfinal : m.Finishes last final) :
    l.rest.1 = tokens.map .ok ++ (itemOf last).toList := by
  induction hpasses with
  | nil =>
    have hsilent := next?_of_finished hfinal.finished
    rw [rest_eq, next?_of_finishes hfinal]
    obtain rfl | ⟨e, rfl⟩ := hfinal.repeats.2
    · rfl
    · simp only [itemOf]
      rw [rest_eq, hsilent]
      rfl
  | cons hnext htoken _ ih =>
    rw [rest_eq, next?_of_token hnext htoken]
    exact congrArg (_ :: ·) (ih hfinal)

lemma mapM_id_tokens (tokens : List Token) (items : List (Except LexError Token)) :
    (tokens.map Except.ok ++ items).mapM id = (items.mapM id).map (tokens ++ ·) := by
  induction tokens with
  | nil => cases h : items.mapM id <;> simp [h, Except.map]
  | cons token tokens ih =>
    rw [List.map_cons, List.cons_append, List.mapM_cons, ih]
    cases items.mapM id <;> rfl

theorem collect_of_finishes {l m final : Lexer ρ} {tokens : List Token}
    {last : Except LexError Token} (hpasses : l.Passes tokens m) (hfinal : m.Finishes last final) :
    l.collect.1 = last.map fun _ => tokens := by
  have hcollect : l.collect.1 = l.rest.1.mapM id := rfl
  rw [hcollect, rest_of_finishes hpasses hfinal, mapM_id_tokens]
  cases last with
  | ok token => exact congrArg Except.ok (List.append_nil tokens)
  | error e => rfl

/-- The answers of a lexer are these tokens, and then one answer for ever. -/
structure Gives (l : Lexer ρ) (tokens : List Token) (last : Except LexError Token) : Prop where
  answers_eq : ∀ n, answers nextToken n l =
    (tokens.take n).map .ok ++ List.replicate (n - tokens.length) last
  tokens_proper : ∀ token ∈ tokens, token.isEndOfStream = false
  last_final : ∀ token, last = .ok token → token.isEndOfStream

namespace Gives

variable {l : Lexer ρ} {tokens : List Token} {last : Except LexError Token}

lemma tokensAmong_answers (h : l.Gives tokens last) (n : Nat) :
    tokensAmong (answers nextToken n l) = tokens.take n := by
  have hfront : ∀ token ∈ tokens.take n, token.isEndOfStream = false :=
    fun token htoken => h.tokens_proper token (List.mem_of_mem_take htoken)
  have hback : tokensAmong (List.replicate (n - tokens.length) last) = [] := by
    apply tokensAmong_eq_nil
    intro token htoken
    exact h.last_final token (List.eq_of_mem_replicate htoken).symm
  rw [h.answers_eq, tokensAmong_append, tokensAmong_tokens hfront, hback, List.append_nil]

/-- An answer is one of the tokens, or it comes behind all of them. -/
lemma mem_answers (h : l.Gives tokens last) {n : Nat} {answer : Except LexError Token}
    (hmem : answer ∈ answers nextToken n l) :
    (∃ token, answer = .ok token ∧ token.isEndOfStream = false) ∨
      tokens.length < n ∧ answer = last := by
  rw [h.answers_eq, List.mem_append] at hmem
  rcases hmem with hmem | hmem
  · obtain ⟨token, htoken, rfl⟩ := List.mem_map.mp hmem
    exact .inl ⟨token, rfl, h.tokens_proper token (List.mem_of_mem_take htoken)⟩
  · obtain ⟨hcount, hlast⟩ := List.mem_replicate.mp hmem
    exact .inr ⟨by omega, hlast⟩

theorem unique {tokens' : List Token} {last' : Except LexError Token} (h : l.Gives tokens last)
    (h' : l.Gives tokens' last') : tokens = tokens' ∧ last = last' := by
  have htokens : tokens = tokens' := by
    have hall := h.tokensAmong_answers (tokens.length + tokens'.length)
    have hall' := h'.tokensAmong_answers (tokens.length + tokens'.length)
    rw [List.take_of_length_le (Nat.le_add_right _ _)] at hall
    rw [List.take_of_length_le (Nat.le_add_left _ _)] at hall'
    exact hall.symm.trans hall'
  subst htokens
  have hlast := h.answers_eq (tokens.length + 1)
  rw [h'.answers_eq (tokens.length + 1), Nat.add_sub_cancel_left] at hlast
  simpa using hlast.symm

end Gives

lemma answers_of_repeats {l : Lexer ρ} {last : Except LexError Token}
    (h : l.nextToken = (last, l)) (n : Nat) : answers nextToken n l = List.replicate n last := by
  induction n with
  | zero => rfl
  | succ n ih => rw [answers, h, ih, List.replicate_succ]

theorem gives_of_finishes {l m final : Lexer ρ} {tokens : List Token}
    {last : Except LexError Token} (hpasses : l.Passes tokens m) (hfinal : m.Finishes last final) :
    l.Gives tokens last := by
  obtain ⟨hrepeats, hlast⟩ := hfinal.repeats
  induction hpasses with
  | @nil l =>
    refine ⟨?_, by simp, ?_⟩
    · intro n
      cases n with
      | zero => rfl
      | succ n =>
        rw [answers, hfinal.nextToken_eq, answers_of_repeats hrepeats]
        rfl
    · rintro token rfl
      obtain heq | ⟨e, heq⟩ := hlast
      · cases heq
        rfl
      · cases heq
  | @cons l _ m token tokens hnext htoken _ ih =>
    have hgives := ih hfinal
    refine ⟨?_, ?_, hgives.last_final⟩
    · intro n
      cases n with
      | zero => simp [answers]
      | succ n =>
        rw [answers, hnext, hgives.answers_eq]
        simp
    · intro t ht
      rcases List.mem_cons.mp ht with rfl | ht
      · exact htoken
      · exact hgives.tokens_proper t ht

end Lexer

end GrammarTokens
