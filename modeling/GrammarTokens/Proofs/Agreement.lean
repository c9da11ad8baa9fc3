import GrammarTokens.Proofs.Outlook

/-!
# Sources that agree

Two sources agree if they stand at one position with the same characters ahead, however their
feeds hand them out. They then give the same answers, and agree again unless the answer was an
error, after which they still stand at one position.
-/

namespace GrammarTokens

namespace Source

variable {ρ τ : Type} [CharFeed ρ] [CharFeed τ]

/-- Sources at one position with the same ahead of them. -/
def Agree (s : Source ρ) (t : Source τ) : Prop :=
  s.position = t.position ∧ ∃ cs ending, s.Yields cs ending ∧ t.Yields cs ending

/-- Results of one operation on two sources that agree. -/
inductive Alike {α : Type} :
    Except LexError α × Source ρ → Except LexError α × Source τ → Prop where
  | ok {answer : α} {s : Source ρ} {t : Source τ} :
    s.Agree t → Alike (.ok answer, s) (.ok answer, t)
  | error {e : LexError} {s : Source ρ} {t : Source τ} :
    s.position = t.position → Alike (.error e, s) (.error e, t)

theorem peek_of_yields {s : Source ρ} {t : Source τ} {ending : Ending}
    (hposition : s.position = t.position) (hs : s.Yields [] ending) (ht : t.Yields [] ending) :
    ∃ s' t', (s.peek = (.ok none, s') ∧ t.peek = (.ok none, t') ∧ s'.Agree t') ∨
      ∃ e, s.peek = (.error e, s') ∧ t.peek = (.error e, t') ∧ s'.position = t'.position := by
  cases ending with
  | ended =>
    obtain ⟨s', hpeek, hs', hyields⟩ := peek_of_yields_ended hs
    obtain ⟨t', hpeek', ht', hyields'⟩ := peek_of_yields_ended ht
    refine ⟨s', t', .inl ⟨hpeek, hpeek', ?_, [], .ended, hyields, hyields'⟩⟩
    rw [hs', ht', hposition]
  | failed failure =>
    obtain ⟨s', hpeek, hs'⟩ := peek_of_yields_failed hs
    obtain ⟨t', hpeek', ht'⟩ := peek_of_yields_failed ht
    rw [← hposition] at hpeek' ht'
    exact ⟨s', t', .inr ⟨_, hpeek, hpeek', hs'.trans ht'.symm⟩⟩

theorem peek_of_yields_cons {s : Source ρ} {t : Source τ} {c : Char} {cs : List Char}
    {ending : Ending} (hposition : s.position = t.position) (hs : s.Yields (c :: cs) ending)
    (ht : t.Yields (c :: cs) ending) :
    ∃ s' t', s.peek = (.ok (some c), s') ∧ t.peek = (.ok (some c), t') ∧ s'.Agree t' ∧
      (s'.take c).position = (t'.take c).position ∧
      (s'.take c).Yields cs ending ∧ (t'.take c).Yields cs ending := by
  obtain ⟨s', hpeek, hs', hyields, htake⟩ := peek_of_yields_char hs
  obtain ⟨t', hpeek', ht', hyields', htake'⟩ := peek_of_yields_char ht
  have hsame : s'.position = t'.position := by rw [hs', ht', hposition]
  exact ⟨s', t', hpeek, hpeek', ⟨hsame, c :: cs, ending, hyields, hyields'⟩,
    congrArg (·.advance c) hsame, htake, htake'⟩

lemma skipBlanks_of_same {s : Source ρ} {t : Source τ} {cs : List Char} {ending : Ending}
    (hposition : s.position = t.position) (hs : s.Yields cs ending) (ht : t.Yields cs ending) :
    Alike s.skipBlanks t.skipBlanks := by
  induction cs generalizing s t with
  | nil =>
    obtain ⟨s', t', ⟨hpeek, hpeek', hagree⟩ | ⟨e, hpeek, hpeek', hagree⟩⟩ :=
      peek_of_yields hposition hs ht
    · rw [skipBlanks_of_none hpeek, skipBlanks_of_none hpeek']
      exact .ok hagree
    · rw [skipBlanks_of_error hpeek, skipBlanks_of_error hpeek']
      exact .error hagree
  | cons c cs ih =>
    obtain ⟨s', t', hpeek, hpeek', hagree, hsame, hyields, hyields'⟩ :=
      peek_of_yields_cons hposition hs ht
    rw [skipBlanks_of_char hpeek, skipBlanks_of_char hpeek']
    by_cases hc : isBlank c
    · rw [if_pos hc, if_pos hc]
      exact ih hsame hyields hyields'
    · rw [if_neg hc, if_neg hc]
      exact .ok hagree

theorem skipBlanks_alike {s : Source ρ} {t : Source τ} (h : s.Agree t) :
    Alike s.skipBlanks t.skipBlanks := by
  obtain ⟨hposition, cs, ending, hs, ht⟩ := h
  exact skipBlanks_of_same hposition hs ht

lemma scan_of_same {s : Source ρ} {t : Source τ} {cs : List Char} {ending : Ending}
    (limit : Option Nat) (start : Position) (state : Scan) (text : String)
    (hposition : s.position = t.position) (hs : s.Yields cs ending) (ht : t.Yields cs ending) :
    Alike (s.scan limit start state text) (t.scan limit start state text) := by
  -- The room that is left for the text plays no part, since both scans have the same text.
  induction cs generalizing s t state text with
  | nil =>
    obtain ⟨s', t', ⟨hpeek, hpeek', hagree⟩ | ⟨e, hpeek, hpeek', hagree⟩⟩ :=
      peek_of_yields hposition hs ht
    · rw [scan_of_none hpeek, scan_of_none hpeek']
      cases state.atEnd? with
      | none => exact .ok hagree
      | some cause => exact .error hagree.1
    · rw [scan_of_error hpeek, scan_of_error hpeek']
      exact .error hagree
  | cons c cs ih =>
    obtain ⟨s', t', hpeek, hpeek', hagree, hsame, hyields, hyields'⟩ :=
      peek_of_yields_cons hposition hs ht
    have htaken : (s'.take c).Agree (t'.take c) := ⟨hsame, cs, ending, hyields, hyields'⟩
    rw [scan_of_char hpeek, scan_of_char hpeek']
    cases state.step c with
    | stop => exact .ok hagree
    | reject cause => exact .error hagree.1
    | strip next? =>
      cases next? with
      | none => exact .ok htaken
      | some next => exact ih next text hsame hyields hyields'
    | keep next? =>
      cases limit.filter (· < (text.push c).utf8ByteSize) with
      | some bound => exact .error hsame
      | none =>
        cases next? with
        | none => exact .ok htaken
        | some next => exact ih next (text.push c) hsame hyields hyields'

theorem scan_alike {s : Source ρ} {t : Source τ} (h : s.Agree t) (limit : Option Nat)
    (start : Position) (state : Scan) (text : String) :
    Alike (s.scan limit start state text) (t.scan limit start state text) := by
  obtain ⟨hposition, cs, ending, hs, ht⟩ := h
  exact scan_of_same limit start state text hposition hs ht

end Source

end GrammarTokens
