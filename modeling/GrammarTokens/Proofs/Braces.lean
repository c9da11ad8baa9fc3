import GrammarTokens.Proofs.Reading
import Mathlib.Data.List.Infix

/-!
# The depth of braces

The depth of a text behind an opening brace is counted in the characters outside quoted
substrings. As long as no prefix has depth zero, an action block that is being read has that
depth: it holds one brace for the block itself and one for each brace nested in it.
-/

namespace GrammarTokens

/-- The characters outside quoted substrings. The quote that is open in front is given, and a
substring that is not closed takes all that follows. -/
def outsideQuotes : Option Char → List Char → List Char
  | _, [] => []
  | none, c :: cs => if isQuote c then outsideQuotes (some c) cs else c :: outsideQuotes none cs
  | some quote, c :: cs => outsideQuotes (if c = quote then none else some quote) cs

def openQuote : Option Char → List Char → Option Char
  | quote, [] => quote
  | none, c :: cs => openQuote (if isQuote c then some c else none) cs
  | some quote, c :: cs => openQuote (if c = quote then none else some quote) cs

/-- Opening braces less closing braces, outside quotes. -/
def braceBalance (quote : Option Char) (cs : List Char) : Int :=
  (outsideQuotes quote cs).count '{' - (outsideQuotes quote cs).count '}'

/-- The depth behind an opening brace and a text. -/
def braceDepth (text : List Char) : Int := 1 + braceBalance none text

lemma outsideQuotes_append (quote : Option Char) (cs ds : List Char) :
    outsideQuotes quote (cs ++ ds) =
      outsideQuotes quote cs ++ outsideQuotes (openQuote quote cs) ds := by
  induction cs generalizing quote with
  | nil => cases quote <;> rfl
  | cons c cs ih =>
    cases quote with
    | none =>
      by_cases hc : isQuote c
      · simp only [List.cons_append, outsideQuotes, openQuote, if_pos hc, ih]
      · simp only [List.cons_append, outsideQuotes, openQuote, if_neg hc, ih]
    | some quote => simp only [List.cons_append, outsideQuotes, openQuote, ih]

lemma braceBalance_append (quote : Option Char) (cs ds : List Char) :
    braceBalance quote (cs ++ ds) =
      braceBalance quote cs + braceBalance (openQuote quote cs) ds := by
  simp only [braceBalance, outsideQuotes_append, List.count_append]
  omega

@[simp] lemma braceBalance_nil (quote : Option Char) : braceBalance quote [] = 0 := by
  cases quote <;> rfl

lemma braceBalance_quoted (quote c : Char) (cs : List Char) :
    braceBalance (some quote) (c :: cs) =
      braceBalance (if c = quote then none else some quote) cs := rfl

lemma braceBalance_quote {c : Char} (hc : isQuote c) (cs : List Char) :
    braceBalance none (c :: cs) = braceBalance (some c) cs := by
  simp only [braceBalance, outsideQuotes, if_pos hc]

lemma braceBalance_plain {c : Char} (hc : isQuote c = false) (cs : List Char) :
    braceBalance none (c :: cs) =
      (if c = '{' then 1 else if c = '}' then -1 else 0) + braceBalance none cs := by
  simp only [braceBalance, outsideQuotes, hc, Bool.false_eq_true, if_false, List.count_cons]
  by_cases hopen : c = '{'
  · simp only [hopen, beq_self_eq_true, if_true, Char.reduceBEq, Bool.false_eq_true, if_false]
    omega
  · by_cases hclose : c = '}'
    · simp only [hclose, beq_self_eq_true, if_true, Char.reduceBEq, Char.reduceEq,
        Bool.false_eq_true, if_false]
      omega
    · simp [hopen, hclose]

/-- Only a closing brace outside quotes lowers the depth, and it does so by one. -/
lemma braceBalance_singleton (quote : Option Char) (c : Char) :
    -1 ≤ braceBalance quote [c] ∧ (braceBalance quote [c] = -1 ↔ quote = none ∧ c = '}') := by
  cases quote with
  | some quote => simp [braceBalance_quoted]
  | none =>
    cases hc : isQuote c with
    | true =>
      rw [braceBalance_quote hc, braceBalance_nil]
      have hne : c ≠ '}' := by rintro rfl; exact absurd hc (by decide)
      simp [hne]
    | false =>
      rw [braceBalance_plain hc, braceBalance_nil]
      by_cases hopen : c = '{'
      · simp [hopen]
      · by_cases hclose : c = '}'
        · simp [hclose]
        · simp [hopen, hclose]

namespace Scan

lemma step_action (nested : Nat) (quote : Option Char) (c : Char)
    (h : (nested : Int) + 1 + braceBalance quote [c] ≠ 0) :
    ∃ nested' : Nat, (nested' : Int) = nested + braceBalance quote [c] ∧
      (action nested quote).step c = .keep (some (action nested' (openQuote quote [c]))) := by
  cases quote with
  | some quote => exact ⟨nested, by simp [braceBalance_quoted], rfl⟩
  | none =>
    cases hc : isQuote c with
    | true =>
      refine ⟨nested, by simp [braceBalance_quote hc], ?_⟩
      simp [step, actionStep, hc, openQuote]
    | false =>
      rw [braceBalance_plain hc, braceBalance_nil] at h ⊢
      by_cases hopen : c = '{'
      · refine ⟨nested + 1, by simp [hopen], ?_⟩
        simp [step, actionStep, hopen, openQuote, isQuote]
      · by_cases hclose : c = '}'
        · cases nested with
          | zero => simp [hclose] at h
          | succ outer =>
            have hbalance : (outer : Int) = (outer + 1 : Nat) +
                ((if c = '{' then 1 else if c = '}' then -1 else 0) + 0) := by
              rw [if_neg hopen, if_pos hclose]
              omega
            refine ⟨outer, hbalance, ?_⟩
            simp [step, actionStep, hclose, openQuote, isQuote]
        · refine ⟨nested, by simp [hopen, hclose], ?_⟩
          simp [step, actionStep, hc, hopen, hclose, openQuote]

lemma openQuote_cons (quote : Option Char) (c : Char) (cs : List Char) :
    openQuote quote (c :: cs) = openQuote (openQuote quote [c]) cs := by
  cases quote <;> rfl

/-- An action block keeps every character up to the place where the depth is zero. -/
theorem read_action (cs rest : List Char) (nested : Nat) (quote : Option Char)
    (h : ∀ p, p <+: cs → (nested : Int) + 1 + braceBalance quote p ≠ 0) :
    ∃ nested' : Nat, (nested' : Int) = nested + braceBalance quote cs ∧
      (action nested quote).read (cs ++ rest) =
        ((action nested' (openQuote quote cs)).read rest).keepAll cs := by
  induction cs generalizing nested quote with
  | nil => exact ⟨nested, by simp, by cases quote <;> rfl⟩
  | cons c cs ih =>
    have hsplit (p : List Char) : braceBalance quote (c :: p) =
        braceBalance quote [c] + braceBalance (openQuote quote [c]) p :=
      braceBalance_append quote [c] p
    obtain ⟨inner, hinner, hstep⟩ := step_action nested quote c (h [c] (by simp))
    have hcs : ∀ p, p <+: cs → (inner : Int) + 1 + braceBalance (openQuote quote [c]) p ≠ 0 := by
      intro p hp
      have hcp := h (c :: p) (by simpa using hp)
      rw [hsplit] at hcp
      omega
    obtain ⟨nested', hnested', hread⟩ := ih inner (openQuote quote [c]) hcs
    refine ⟨nested', ?_, ?_⟩
    · rw [hsplit]
      omega
    · rw [List.cons_append, read, hstep, openQuote_cons quote c cs]
      simp only [hread, Reading.keepAll_cons]

theorem read_action_closed {body rest : List Char}
    (hopen : ∀ p, p <+: body → braceDepth p ≠ 0) (hclosed : braceDepth (body ++ ['}']) = 0) :
    (action 0 none).read (body ++ '}' :: rest) = ⟨body ++ ['}'], body, rest, .complete⟩ := by
  have hbody : ∀ p, p <+: body → ((0 : Nat) : Int) + 1 + braceBalance none p ≠ 0 := by
    intro p hp
    have hdepth := hopen p hp
    unfold braceDepth at hdepth
    omega
  obtain ⟨nested, hnested, hread⟩ := read_action body ('}' :: rest) 0 none hbody
  have hlast := braceBalance_singleton (openQuote none body) '}'
  unfold braceDepth at hclosed
  rw [braceBalance_append] at hclosed
  have hbalance : braceBalance (openQuote none body) ['}'] = -1 := by omega
  have hzero : nested = 0 := by omega
  rw [hread, (hlast.2.mp hbalance).1, hzero]
  simp [read, step, actionStep, isQuote, Reading.keepAll]

theorem read_action_exhausted {rest : List Char} (hopen : ∀ p, p <+: rest → braceDepth p ≠ 0) :
    ∃ nested : Nat, (nested : Int) + 1 = braceDepth rest ∧ (action 0 none).read rest =
      ⟨rest, rest, [], .exhausted (action nested (openQuote none rest))⟩ := by
  have hrest : ∀ p, p <+: rest → ((0 : Nat) : Int) + 1 + braceBalance none p ≠ 0 := by
    intro p hp
    have hdepth := hopen p hp
    unfold braceDepth at hdepth
    omega
  obtain ⟨nested, hnested, hread⟩ := read_action rest [] 0 none hrest
  refine ⟨nested, ?_, ?_⟩
  · unfold braceDepth
    omega
  · rw [List.append_nil] at hread
    rw [hread]
    simp [read, Reading.keepAll]

/-- The depth at the end of a block that is not closed is the number of open braces. -/
theorem read_action_open {rest : List Char} (hopen : ∀ p, p <+: rest → braceDepth p ≠ 0) :
    ∃ depth : Nat, 1 ≤ depth ∧ (depth : Int) = braceDepth rest ∧
      ((action 0 none).read rest).stop.fault? = some (.unterminatedAction depth) := by
  obtain ⟨nested, hdepth, hread⟩ := read_action_exhausted hopen
  exact ⟨nested + 1, by omega, by omega, by rw [hread]; rfl⟩

end Scan

end GrammarTokens
