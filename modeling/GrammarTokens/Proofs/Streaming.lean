import GrammarTokens.Lexer
import GrammarTokens.Proofs.Agreement
import GrammarTokens.Proofs.Delivery

/-!
# Lexers over a device and over a text

Two lexers agree if they have been through the same and their sources agree for as long as they
run. Each call preserves this and gives the same answer, so a lexer that reads a text from a
device cannot be told from one that has the text in memory.
-/

namespace GrammarTokens

lemma answers_eq_of_simulation {σ σ' α : Type} {call : σ → α × σ} {call' : σ' → α × σ'}
    {related : σ → σ' → Prop}
    (hstep : ∀ s t, related s t → (call s).1 = (call' t).1 ∧ related (call s).2 (call' t).2)
    {s : σ} {t : σ'} (h : related s t) (n : Nat) : answers call n s = answers call' n t := by
  induction n generalizing s t with
  | zero => rfl
  | succ n ih =>
    obtain ⟨hanswer, hnext⟩ := hstep s t h
    rw [answers, answers, hanswer, ih hnext]

namespace Lexer

variable {ρ τ : Type} [CharFeed ρ] [CharFeed τ]

/-- Lexers that have been through the same and have the same ahead of them. -/
structure Agree (l : Lexer ρ) (m : Lexer τ) : Prop where
  options : l.options = m.options
  status : l.status = m.status
  count : l.count = m.count
  log : l.log = m.log
  position : l.source.position = m.source.position
  source : l.status = .running → l.source.Agree m.source

theorem scanToken_alike {l : Lexer ρ} {m : Lexer τ} (h : l.Agree m) (hrun : l.status = .running) :
    Source.Alike l.scanToken m.scanToken := by
  have hskip := Source.skipBlanks_alike (h.source hrun)
  rw [scanToken, scanToken, ← h.options, ← h.count]
  generalize l.source.skipBlanks = skipped at hskip ⊢
  generalize m.source.skipBlanks = skipped' at hskip ⊢
  cases hskip with
  | error hposition => exact .error hposition
  | @ok lookahead s t hagree =>
    simp only [← hagree.1]
    cases Opening.classify lookahead with
    | endOfStream => exact .ok hagree
    | unexpected c =>
      cases l.options.maxTokens.filter (· ≤ l.count) with
      | some limit => exact .error hagree.1
      | none => exact .error hagree.1
    | lexeme first =>
      cases l.options.maxTokens.filter (· ≤ l.count) with
      | some limit => exact .error hagree.1
      | none =>
        have hscan := Source.scan_alike hagree l.options.maxTokenLength s.position first ""
        dsimp only
        generalize s.scan l.options.maxTokenLength s.position first "" = scanned at hscan ⊢
        generalize t.scan l.options.maxTokenLength s.position first "" = scanned' at hscan ⊢
        cases hscan with
        | error hposition => exact .error hposition
        | ok hafter =>
          simp only [← hafter.1]
          exact .ok hafter

theorem nextToken_agree {l : Lexer ρ} {m : Lexer τ} (h : l.Agree m) :
    l.nextToken.1 = m.nextToken.1 ∧ l.nextToken.2.Agree m.nextToken.2 := by
  have hstatus := h.status
  cases hl : l.status with
  | ended =>
    rw [hl] at hstatus
    rw [nextToken, nextToken, hl, ← hstatus, h.position]
    exact ⟨rfl, h⟩
  | failed e =>
    rw [hl] at hstatus
    rw [nextToken, nextToken, hl, ← hstatus]
    exact ⟨rfl, h⟩
  | running =>
    rw [hl] at hstatus
    have hscan := scanToken_alike h hl
    rw [nextToken, nextToken, hl, ← hstatus]
    dsimp only
    generalize l.scanToken = scanned at hscan ⊢
    generalize m.scanToken = scanned' at hscan ⊢
    cases hscan with
    | error hposition =>
      exact ⟨rfl, h.options, rfl, h.count, by rw [h.log, h.count], hposition, by simp⟩
    | @ok token s t hagree =>
      dsimp only
      by_cases htoken : token.isEndOfStream
      · rw [if_pos htoken, if_pos htoken]
        exact ⟨rfl, h.options, rfl, h.count, by rw [h.log, h.count], hagree.1, by simp⟩
      · rw [if_neg htoken, if_neg htoken]
        exact ⟨rfl, h.options, rfl, congrArg (· + 1) h.count, by rw [h.log], hagree.1,
          fun _ => hagree⟩

/-- One call of `nextToken`, and then what the lexer says of itself. -/
def observe (l : Lexer ρ) : (Except LexError Token × Position × Nat × Bool) × Lexer ρ :=
  let (answer, m) := l.nextToken
  ((answer, m.source.position, m.count, m.isFinished), m)

theorem observe_agree {l : Lexer ρ} {m : Lexer τ} (h : l.Agree m) :
    l.observe.1 = m.observe.1 ∧ l.observe.2.Agree m.observe.2 := by
  obtain ⟨hanswer, hagree⟩ := nextToken_agree h
  refine ⟨?_, hagree⟩
  simp only [observe, isFinished, hanswer, hagree.position, hagree.count, hagree.status]

lemma agree_ofSource {s : Source ρ} {t : Source τ} (h : s.Agree t) (options : Options) :
    (ofSource s options).Agree (ofSource t options) :=
  ⟨rfl, rfl, rfl, rfl, h.1, fun _ => h⟩

/-- A lexer that reads a text from a device is, call by call, one that has it in memory, however
the bytes are cut and wherever a read is interrupted. -/
theorem answers_ofReader_eq_ofText {text : String} {options : Options} {script : List ReadEvent}
    (hcapacity : options.bufferCapacity ≤ maxCapacity)
    (hscript : ReadEvent.Delivers script (utf8Bytes text.toList)) :
    ∃ l, ofReader? script options = some l ∧
      ∀ n, answers observe n l = answers observe n (ofText text options) := by
  have hsize : options.bufferSize ≤ maxCapacity := by
    rw [Options.bufferSize, Nat.max_le]
    exact ⟨hcapacity, by decide⟩
  have hroom : (some options.bufferSize) ≠ some 0 := by
    have hle : 1024 ≤ options.bufferSize := Nat.le_max_right _ _
    intro hzero
    rw [Option.some.inj hzero] at hle
    omega
  let reader := ByteReader.buffered options.bufferSize script
  have hdelivers : reader.Delivers (utf8Bytes text.toList) := ⟨hroom, _, rfl, hscript⟩
  have hyields := ByteReader.yields_of_delivers_text hdelivers
  have hsources : (Source.ofFeed reader).Agree (Source.ofFeed text.toList) :=
    ⟨rfl, text.toList, .ended, hyields, list_yields text.toList⟩
  refine ⟨ofSource (.ofFeed reader) options, ?_, ?_⟩
  · rw [ofReader?, ByteReader.buffered?, if_pos hsize]
    rfl
  · intro n
    have hlexers := agree_ofSource hsources options
    exact answers_eq_of_simulation (fun _ _ h => observe_agree h) hlexers n

/-- A two-byte character cut in the middle, with an interruption at the cut. -/
theorem answers_ofReader_cut_character :
    ReadEvent.Delivers [.data [0xC3], .failed ⟨.interrupted, ""⟩, .data [0xA9, 0x3B]]
      (utf8Bytes "é;".toList) ∧
    ∃ l, ofReader? [.data [0xC3], .failed ⟨.interrupted, ""⟩, .data [0xA9, 0x3B]]
        ⟨some 2, some 7, 0⟩ = some l ∧
      ∀ n, answers observe n l = answers observe n (ofText "é;" ⟨some 2, some 7, 0⟩) := by
  have hbytes : utf8Bytes "é;".toList = [0xC3] ++ ([0xA9, 0x3B] ++ []) := by decide
  have hscript : ReadEvent.Delivers [.data [0xC3], .failed ⟨.interrupted, ""⟩, .data [0xA9, 0x3B]]
      (utf8Bytes "é;".toList) := by
    rw [hbytes]
    exact .data (by decide) (.interrupted rfl (.data (by decide) .ended))
  exact ⟨hscript, answers_ofReader_eq_ofText (by decide) hscript⟩

end Lexer

end GrammarTokens
