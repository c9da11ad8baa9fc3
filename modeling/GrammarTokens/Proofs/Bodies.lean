import GrammarTokens.Proofs.Drawing
import GrammarTokens.Proofs.Taking

/-!
# The bodies of action blocks

What an action block may hold is said by a grammar that refers to itself: a block within a block
is a body in braces. The lexer has a counter and a quote instead. They agree, since the counter says
how many blocks are open at a place, and there is only one way to open them there.
-/

namespace GrammarTokens

/-- What stands between the braces of an action block: characters that are neither quotes nor
braces, runs in quotes, and blocks. -/
inductive Body : List Char → Prop where
  | nil : Body []
  | plain {c : Char} {cs : List Char} :
    isQuote c = false → c ∉ ['{', '}'] → Body cs → Body (c :: cs)
  | quoted {quote : Char} {run cs : List Char} :
    isQuote quote → quote ∉ run → Body cs → Body (quote :: run ++ quote :: cs)
  | block {inner cs : List Char} : Body inner → Body cs → Body ('{' :: inner ++ '}' :: cs)

/-- What stands behind the opening brace of a block that is not closed. Within it so many blocks are
open, and perhaps a quote: before, between and behind their opening braces there are bodies. -/
inductive Unclosed : Nat → Option Char → List Char → Prop where
  | body {cs : List Char} : Body cs → Unclosed 0 none cs
  | block {nested : Nat} {front body : List Char} :
    Unclosed nested none front → Body body → Unclosed (nested + 1) none (front ++ '{' :: body)
  | quoted {nested : Nat} {quote : Char} {front run : List Char} :
    Unclosed nested none front → isQuote quote → quote ∉ run →
    Unclosed nested (some quote) (front ++ quote :: run)

lemma Body.append {cs ds : List Char} (hcs : Body cs) (hds : Body ds) : Body (cs ++ ds) := by
  induction hcs with
  | nil => exact hds
  | plain hquote hbrace _ ih => exact .plain hquote hbrace ih
  | quoted hquote hrun _ ih =>
    rw [List.append_assoc]
    exact .quoted hquote hrun ih
  | block hinner _ _ ih =>
    rw [List.append_assoc]
    exact .block hinner ih

lemma Unclosed.append {nested : Nat} {cs ds : List Char} (hcs : Unclosed nested none cs)
    (hds : Body ds) : Unclosed nested none (cs ++ ds) := by
  cases hcs with
  | body hbody => exact .body (hbody.append hds)
  | block hfront hbody =>
    rw [List.append_assoc]
    exact .block hfront (hbody.append hds)

namespace Scan

lemma step_action_quote {quote : Char} (h : isQuote quote) (nested : Nat) :
    (action nested none).step quote = .keep (some (action nested (some quote))) := by
  simp [step, actionStep, h]

lemma read_action_quoted {quote : Char} {run : List Char} (nested : Nat) (hrun : quote ∉ run)
    (rest : List Char) : (action nested (some quote)).read (run ++ rest) =
      ((action nested (some quote)).read rest).keepAll run := by
  apply read_run
  intro c hc
  have hne : c ≠ quote := by
    rintro rfl
    exact hrun hc
  simp [step, hne]

/-- A body leaves the counter where it was. -/
theorem read_body {body : List Char} (h : Body body) (nested : Nat) (rest : List Char) :
    (action nested none).read (body ++ rest) =
      ((action nested none).read rest).keepAll body := by
  induction h generalizing nested rest with
  | nil => rfl
  | @plain c cs hquote hbrace _ ih =>
    simp only [List.mem_cons, List.not_mem_nil, or_false, not_or] at hbrace
    have hstep : (action nested none).step c = .keep (some (action nested none)) := by
      simp [step, actionStep, hquote, hbrace]
    rw [List.cons_append, read, hstep]
    simp only [ih, Reading.keepAll_cons]
  | @quoted quote run cs hquote hrun _ ih =>
    have hclose : (action nested (some quote)).step quote = .keep (some (action nested none)) := by
      simp [step]
    rw [List.append_assoc, List.cons_append, List.cons_append, read, step_action_quote hquote]
    simp only [read_action_quoted nested hrun, read, hclose, ih]
    simp [Reading.keepAll, Reading.keep]
  | @block inner cs _ _ ihinner ih =>
    have hopen : (action nested none).step '{' = .keep (some (action (nested + 1) none)) := by
      simp [step, actionStep, isQuote]
    have hclose : (action (nested + 1) none).step '}' = .keep (some (action nested none)) := by
      simp [step, actionStep, isQuote]
    rw [List.append_assoc, List.cons_append, List.cons_append, read, hopen]
    simp only [ihinner, read, hclose, ih]
    simp [Reading.keepAll, Reading.keep]

/-- The counter behind a text is the number of blocks that are open there. -/
theorem read_unclosed {nested : Nat} {quote : Option Char} {cs : List Char}
    (h : Unclosed nested quote cs) (rest : List Char) :
    (action 0 none).read (cs ++ rest) = ((action nested quote).read rest).keepAll cs := by
  induction h generalizing rest with
  | body hbody => exact read_body hbody 0 rest
  | @block nested front body _ hbody ih =>
    have hopen : (action nested none).step '{' = .keep (some (action (nested + 1) none)) := by
      simp [step, actionStep, isQuote]
    rw [List.append_assoc, ih, List.cons_append, read, hopen]
    simp only [read_body hbody]
    simp [Reading.keepAll, Reading.keep]
  | @quoted nested quote front run _ hquote hrun ih =>
    rw [List.append_assoc, ih, List.cons_append, read, step_action_quote hquote]
    simp only [read_action_quoted nested hrun]
    simp [Reading.keepAll, Reading.keep]

lemma read_of_unclosed {nested : Nat} {quote : Option Char} {cs : List Char}
    (h : Unclosed nested quote cs) :
    (action 0 none).read cs = ⟨cs, cs, [], .exhausted (action nested quote)⟩ := by
  have hread := read_unclosed h []
  rw [List.append_nil] at hread
  rw [hread]
  simp [read, Reading.keepAll]

lemma read_openingBrace_of_unclosed {nested : Nat} {quote : Option Char} {cs : List Char}
    (h : Unclosed nested quote cs) :
    openingBrace.read ('{' :: cs) = ⟨'{' :: cs, cs, [], .exhausted (action nested quote)⟩ := by
  rw [read_openingBrace, read_of_unclosed h]
  rfl

lemma read_of_body {body : List Char} (h : Body body) (after : List Char) :
    (action 0 none).read (body ++ '}' :: after) = ⟨body ++ ['}'], body, after, .complete⟩ := by
  rw [read_body h]
  simp [read, step, actionStep, isQuote, Reading.keepAll]

end Scan

lemma Unclosed.close {nested : Nat} {cs : List Char} (h : Unclosed (nested + 1) none cs) :
    Unclosed nested none (cs ++ ['}']) := by
  cases h with
  | @block _ front body hfront hbody =>
    have hblock : Body ('{' :: body ++ '}' :: []) := .block hbody .nil
    rw [List.append_assoc]
    exact hfront.append hblock

lemma Unclosed.endQuote {nested : Nat} {quote : Option Char} {cs : List Char}
    (h : Unclosed nested quote cs) : Unclosed nested none (cs ++ quote.toList) := by
  cases h with
  | body hbody => simpa using Unclosed.body hbody
  | block hfront hbody => simpa using Unclosed.block hfront hbody
  | @quoted _ quote front run hfront hquote hrun =>
    have hbody : Body (quote :: run ++ quote :: []) := .quoted hquote hrun .nil
    simpa using hfront.append hbody

/-- One character more opens or closes a quote or a block, or changes nothing, unless it is the
brace that closes the block itself. -/
theorem Unclosed.concat {nested : Nat} {quote : Option Char} {cs : List Char}
    (h : Unclosed nested quote cs) (c : Char) :
    (∃ nested' quote', Unclosed nested' quote' (cs ++ [c])) ∨ c = '}' ∧ Body cs := by
  cases quote with
  | some quote =>
    left
    by_cases hc : c = quote
    · subst hc
      exact ⟨nested, none, h.endQuote⟩
    · cases h with
      | @quoted _ _ front run hfront hquote hrun =>
        have hlonger : quote ∉ run ++ [c] := by simp [hrun, Ne.symm hc]
        exact ⟨nested, some quote, by simpa using Unclosed.quoted hfront hquote hlonger⟩
  | none =>
    by_cases hquote : isQuote c
    · exact .inl ⟨nested, some c, .quoted h hquote List.not_mem_nil⟩
    by_cases hopen : c = '{'
    · subst hopen
      exact .inl ⟨nested + 1, none, .block h .nil⟩
    by_cases hclose : c = '}'
    · subst hclose
      cases nested with
      | zero =>
        cases h with
        | body hbody => exact .inr ⟨rfl, hbody⟩
      | succ nested => exact .inl ⟨nested, none, h.close⟩
    · have hplain : Body [c] :=
        .plain (Bool.eq_false_iff.mpr hquote) (by simp [hopen, hclose]) .nil
      exact .inl ⟨nested, none, h.append hplain⟩

theorem closed_or_unclosed (cs : List Char) :
    (∃ body after, cs = body ++ '}' :: after ∧ Body body) ∨
      ∃ nested quote, Unclosed nested quote cs := by
  -- From the end: what is unclosed so far goes on, or closes with the last character.
  induction cs using List.reverseRecOn with
  | nil => exact .inr ⟨0, none, .body .nil⟩
  | append_singleton cs c ih =>
    rcases ih with ⟨body, after, rfl, hbody⟩ | ⟨nested, quote, h⟩
    · exact .inl ⟨body, after ++ [c], by simp, hbody⟩
    · rcases h.concat c with hunclosed | ⟨rfl, hbody⟩
      · exact .inr hunclosed
      · exact .inl ⟨cs, [], rfl, hbody⟩

theorem unclosed_unique {nested nested' : Nat} {quote quote' : Option Char} {cs : List Char}
    (h : Unclosed nested quote cs) (h' : Unclosed nested' quote' cs) :
    nested' = nested ∧ quote' = quote := by
  have hread := Scan.read_of_unclosed h
  rw [Scan.read_of_unclosed h'] at hread
  cases hread
  exact ⟨rfl, rfl⟩

theorem body_unique {body body' after after' : List Char} (h : Body body) (h' : Body body')
    (heq : body ++ '}' :: after = body' ++ '}' :: after') : body = body' := by
  have hread := Scan.read_of_body h after
  rw [heq, Scan.read_of_body h' after'] at hread
  exact (congrArg Scan.Reading.text hread).symm

lemma not_closed_of_unclosed {nested : Nat} {quote : Option Char} {cs body : List Char}
    (h : Unclosed nested quote cs) (hbody : Body body) : ¬ body ++ ['}'] <+: cs := by
  rintro ⟨after, rfl⟩
  have hread := Scan.read_of_unclosed h
  rw [List.append_assoc, List.singleton_append, Scan.read_of_body hbody] at hread
  cases congrArg Scan.Reading.stop hread

lemma depth_ne_zero_of_unclosed {nested : Nat} {quote : Option Char} {cs : List Char}
    (h : Unclosed nested quote cs) : ∀ p, p <+: cs → braceDepth p ≠ 0 := by
  rcases closed_or_open cs with ⟨body, after, rfl, hopen, hclosed⟩ | hopen
  · have hread := Scan.read_of_unclosed h
    rw [Scan.read_action_closed hopen hclosed] at hread
    cases congrArg Scan.Reading.stop hread
  · exact hopen

/-- The depth is counted alike by the blocks that are open and by single braces. -/
theorem braceDepth_of_unclosed {nested : Nat} {quote : Option Char} {cs : List Char}
    (h : Unclosed nested quote cs) :
    braceDepth cs = nested + 1 ∧ openQuote none cs = quote := by
  obtain ⟨depth, hdepth, hread⟩ := Scan.read_action_exhausted (depth_ne_zero_of_unclosed h)
  rw [Scan.read_of_unclosed h] at hread
  cases hread
  exact ⟨hdepth.symm, rfl⟩

lemma lexeme_of_body {body : List Char} (h : Body body) (after : List Char) :
    Lexeme .actionBlock ('{' :: body ++ ['}']) after := by
  obtain ⟨hdepth, hquote⟩ := braceDepth_of_unclosed (.body h)
  have hlast : braceBalance none ['}'] = -1 := by decide
  refine .actionBlock (depth_ne_zero_of_unclosed (.body h)) ?_
  unfold braceDepth at hdepth ⊢
  rw [braceBalance_append, hquote, hlast]
  omega

lemma malformed_of_unclosed {nested : Nat} {quote : Option Char} {cs : List Char}
    (h : Unclosed nested quote cs) : Malformed ('{' :: cs) (.unterminatedAction (nested + 1)) := by
  obtain ⟨hdepth, -⟩ := braceDepth_of_unclosed h
  exact .unterminatedAction (depth_ne_zero_of_unclosed h) (Nat.succ_pos nested) hdepth.symm

namespace Lexer

variable {ρ : Type} [CharFeed ρ]

section ActionBlock

variable {l : Lexer ρ} {before cs : List Char} {ending : Ending}

lemma nextToken_of_body {body after : List Char}
    (h : l.StandsAt before ('{' :: (body ++ '}' :: after)) ending) (hbody : Body body)
    (hroom : l.options.refusal? (l.count + 1) (utf8Length body) = none) :
    l.nextToken.1 = .ok ⟨.actionBlock, .ofList body,
      ⟨.after before, .after (before ++ '{' :: body ++ ['}'])⟩⟩ := by
  let p : Piece := ⟨[], .actionBlock, '{' :: body ++ ['}']⟩
  have hsource : '{' :: (body ++ '}' :: after) = p.blanks ++ (p.lexeme ++ after) := by simp [p]
  have htext : p.text = .ofList body := by simp [p, Piece.text]
  rw [hsource] at h
  obtain ⟨m, hnext, -⟩ := nextToken_of_lexeme h (by simp [p]) (lexeme_of_body hbody after)
    (by simp [p, Token.Kind.runsOn]) (by rwa [htext, utf8ByteSize_ofList])
  rw [hnext, Piece.token, htext]
  simp [p]

/-- A block that is not closed is no token, whether the text ends or fails behind it. -/
lemma error_of_unclosed {nested : Nat} {quote : Option Char}
    (h : l.StandsAt before ('{' :: cs) ending) (hcs : Unclosed nested quote cs)
    (hroom : l.options.refusal? (l.count + 1) (utf8Length cs) = none) :
    ∃ e, l.nextToken.1 = .error e := by
  rw [← List.nil_append ('{' :: cs)] at h
  cases ending with
  | ended =>
    obtain ⟨final, hfinal⟩ :=
      finishes_of_malformed h (by simp) (malformed_of_unclosed hcs) (fun _ => rfl) hroom
    exact ⟨_, congrArg Prod.fst hfinal.nextToken_eq⟩
  | failed failure =>
    have hread := Scan.read_openingBrace_of_unclosed hcs
    obtain ⟨final, hfinal⟩ := finishes_of_failed_reading h (by simp) (by decide)
      (congrArg Scan.Reading.stop hread) (by rw [hread]; exact hroom)
    exact ⟨_, congrArg Prod.fst hfinal.nextToken_eq⟩

/-- At a brace the lexer returns a token if and only if a body and a closing brace follow. There is
one such body at most, and it is the text of the token. On the way there it counts how many blocks
are open, and remembers the quote that is: the depth is never less than one. -/
theorem nextToken_iff_body (h : l.StandsAt before ('{' :: cs) ending)
    (hlength : l.options.maxTokenLength = none)
    (hcount : ∀ bound ∈ l.options.maxTokens, l.count < bound) :
    (∀ token, l.nextToken.1 = .ok token ↔ ∃ body, Body body ∧ body ++ ['}'] <+: cs ∧
      token = ⟨.actionBlock, .ofList body,
        ⟨.after before, .after (before ++ '{' :: body ++ ['}'])⟩⟩) ∧
    (∀ body body', Body body → body ++ ['}'] <+: cs → Body body' → body' ++ ['}'] <+: cs →
      body = body') ∧
    ∀ front ahead, cs = front ++ ahead → (∀ body, Body body → ¬ body ++ ['}'] <+: front) →
      ∃ nested quote t, l.source.Takes ('{' :: front) t ∧ t.Yields ahead ending ∧
        l.source.scan none (.after before) .openingBrace "" =
          t.scan none (.after before) (.action nested quote) (.ofList front) ∧
        1 ≤ braceDepth front ∧ braceDepth front - 1 = nested ∧
        ∀ nested' quote', Unclosed nested' quote' front ↔ nested' = nested ∧ quote' = quote := by
  have hroom (size : Nat) : l.options.refusal? (l.count + 1) size = none := by
    rw [refusal?_eq_none_iff, hlength]
    exact ⟨hcount, by simp⟩
  refine ⟨?_, ?_, ?_⟩
  · intro token
    constructor
    · intro htoken
      rcases closed_or_unclosed cs with ⟨body, after, rfl, hbody⟩ | ⟨nested, quote, hcs⟩
      · rw [nextToken_of_body h hbody (hroom _)] at htoken
        cases htoken
        exact ⟨body, hbody, ⟨after, by simp⟩, rfl⟩
      · obtain ⟨e, he⟩ := error_of_unclosed h hcs (hroom _)
        rw [he] at htoken
        cases htoken
    · rintro ⟨body, hbody, ⟨after, rfl⟩, rfl⟩
      rw [List.append_assoc] at h
      exact nextToken_of_body h hbody (hroom _)
  · rintro body body' hbody ⟨after, hafter⟩ hbody' ⟨after', hafter'⟩
    have heq : body ++ '}' :: after = body' ++ '}' :: after' := by
      simpa using hafter.trans hafter'.symm
    exact body_unique hbody hbody' heq
  · rintro front ahead rfl hopen
    rcases closed_or_unclosed front with ⟨body, after, rfl, hbody⟩ | ⟨nested, quote, hfront⟩
    · exact absurd ⟨after, by simp⟩ (hopen body hbody)
    · have hyields : l.source.Yields (('{' :: front) ++ ahead) ending := h.yields
      obtain ⟨t, htakes, ht⟩ := Source.takes_of_yields hyields
      obtain ⟨hdepth, -⟩ := braceDepth_of_unclosed hfront
      have hread := Scan.read_openingBrace_of_unclosed hfront
      refine ⟨nested, quote, t, htakes, ht, ?_, by omega, by omega, ?_⟩
      · rw [Source.scan_of_takes _ htakes (congrArg Scan.Reading.stop hread) (by simp), hread,
          String.empty_append]
      · intro nested' quote'
        constructor
        · exact unclosed_unique hfront
        · rintro ⟨rfl, rfl⟩
          exact hfront

end ActionBlock

/-- A block within a block. The closing brace in quotes closes neither of them. -/
theorem nextToken_body_with_quoted_brace :
    (ofText "\x7bx\x7b'\x7d'\x7dy\x7dz").StandsAt [] "\x7bx\x7b'\x7d'\x7dy\x7dz".toList .ended ∧
    (ofText "\x7bx\x7b'\x7d'\x7dy\x7dz").nextToken.1 =
      .ok ⟨.actionBlock, "x\x7b'\x7d'\x7dy", ⟨⟨1, 1, 0⟩, ⟨1, 10, 9⟩⟩⟩ ∧
    ∃ t : Source (List Char), t.Yields "'\x7dy\x7dz".toList .ended ∧
      (ofText "\x7bx\x7b'\x7d'\x7dy\x7dz").source.scan none .start .openingBrace "" =
        t.scan none .start (.action 1 (some '\'')) "x\x7b'\x7d" := by
  have hstands := standsAt_ofText "\x7bx\x7b'\x7d'\x7dy\x7dz" {}
  have hplain : Body ['x'] := .plain (by decide) (by decide) .nil
  have hquoted : Body "'\x7d'".toList := .quoted (by decide) (by decide : '\'' ∉ ['}']) .nil
  have hbody : Body "x\x7b'\x7d'\x7dy".toList :=
    hplain.append (.block hquoted (.plain (by decide) (by decide) .nil))
  have hfront : Unclosed 1 (some '\'') "x\x7b'\x7d".toList :=
    .quoted (.block (.body hplain) .nil) (by decide) (by decide : '\'' ∉ ['}'])
  obtain ⟨htoken, -, hcount⟩ := nextToken_iff_body hstands rfl (by simp [ofText, ofSource])
  refine ⟨hstands, ?_, ?_⟩
  · exact (htoken _).mpr ⟨_, hbody, ⟨['z'], rfl⟩, rfl⟩
  · obtain ⟨nested, quote, t, -, ht, hscan, -, -, hunique⟩ :=
      hcount "x\x7b'\x7d".toList "'\x7dy\x7dz".toList rfl
        (fun body hbody => not_closed_of_unclosed hfront hbody)
    obtain ⟨rfl, rfl⟩ := (hunique 1 (some '\'')).mp hfront
    exact ⟨t, ht, hscan⟩

end Lexer

end GrammarTokens
