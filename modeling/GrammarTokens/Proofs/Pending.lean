import GrammarTokens.ByteReader
import GrammarTokens.Proofs.Faults

/-!
# Bytes that a reader has not given up

The bytes pending in a reader are those of its buffer and of its whole script. Each operation
gives up bytes from the front of them and adds none, also where it fails, and what it gives them up
for is known: a character, a faulty sequence of bytes, or a failed read in the middle of one.
-/

namespace GrammarTokens

def ReadEvent.bytes : ReadEvent → List UInt8
  | data bytes => bytes
  | failed _ => []

/-- The failures that the events pass on. -/
def ReadEvent.failures (script : List ReadEvent) : List ReadFailure :=
  script.filterMap fun
    | .failed failure => if failure.isInterruption then none else some failure
    | .data _ => none

/-- Events that neither fail nor end the input for the moment. -/
def ReadEvent.Flows : ReadEvent → Prop
  | data bytes => bytes ≠ []
  | failed failure => failure.isInterruption

/-- What a reader spends at once: the encoding of a character, the bytes of a faulty sequence, or
those in front of a failed read. -/
inductive Spent where
  | char (c : Char)
  | faulty (fault : Utf8.Fault) (bytes : List UInt8)
  | failed (failure : ReadFailure) (bytes : List UInt8)
deriving DecidableEq, Repr

namespace Spent

def bytes : Spent → List UInt8
  | char c => String.utf8EncodeChar c
  | faulty _ bytes | failed _ bytes => bytes

/-- The failure of the script that is passed on. -/
def passedOn : Spent → List ReadFailure
  | char _ | faulty _ _ => []
  | failed failure _ => [failure]

def char? : Spent → Option Char
  | char c => some c
  | faulty _ _ | failed _ _ => none

def answer : Spent → Except ReadFailure (Option Char)
  | char c => .ok (some c)
  | faulty fault _ => .error fault.failure
  | failed failure _ => .error failure

/-- The bytes show the fault, or could go on where the read fails. -/
def Sound : Spent → Prop
  | char _ => True
  | faulty fault bytes =>
    Utf8.Breaks bytes .ended fault.failure ∧ 1 ≤ bytes.length ∧ bytes.length ≤ 4
  | failed failure bytes =>
    failure.isInterruption = false ∧ Utf8.Breaks bytes (.failed failure) failure ∧
      bytes.length ≤ 3

end Spent

namespace ByteReader

/-- All bytes in the buffer and in the script. -/
def pending (r : ByteReader) : List UInt8 :=
  r.buffer ++ r.script.flatMap ReadEvent.bytes

lemma flatMap_leftover (bytes : List UInt8) (script : List ReadEvent) :
    (leftover bytes script).flatMap ReadEvent.bytes = bytes ++ script.flatMap ReadEvent.bytes := by
  unfold leftover
  cases bytes <;> rfl

def failures (r : ByteReader) : List ReadFailure := ReadEvent.failures r.script

/-- A reader without errors: its buffer has room, and its script has data and interruptions. -/
structure Flows (r : ByteReader) : Prop where
  capacity : r.capacity ≠ some 0
  script : ∀ event ∈ r.script, event.Flows

/-- A reader gives up bytes and passes failures on, on the way to another reader. -/
structure GivesUp (r : ByteReader) (bytes : List UInt8) (failures : List ReadFailure)
    (s : ByteReader) : Prop where
  pending_eq : r.pending = bytes ++ s.pending
  failures_eq : r.failures = failures ++ s.failures
  flows : r.Flows → s.Flows

lemma GivesUp.refl (r : ByteReader) : r.GivesUp [] [] r := ⟨rfl, rfl, id⟩

lemma GivesUp.trans {r s t : ByteReader} {bytes bytes' : List UInt8}
    {failures failures' : List ReadFailure} (h : r.GivesUp bytes failures s)
    (h' : s.GivesUp bytes' failures' t) :
    r.GivesUp (bytes ++ bytes') (failures ++ failures') t where
  pending_eq := by rw [h.pending_eq, h'.pending_eq, List.append_assoc]
  failures_eq := by rw [h.failures_eq, h'.failures_eq, List.append_assoc]
  flows := h'.flows ∘ h.flows

def failuresOf {α : Type} : Except ReadFailure α → List ReadFailure
  | .ok _ => []
  | .error failure => [failure]

lemma flows_tail {capacity : Option Nat} {event : ReadEvent} {script : List ReadEvent}
    (h : Flows { capacity, script := event :: script }) :
    Flows { capacity, script } :=
  ⟨h.capacity, fun _ hevent => h.script _ (List.mem_cons_of_mem event hevent)⟩

lemma flows_leftover {bytes : List UInt8} {script : List ReadEvent}
    (h : ∀ event ∈ script, event.Flows) : ∀ event ∈ leftover bytes script, event.Flows := by
  unfold leftover
  cases bytes with
  | nil => exact h
  | cons b bytes =>
    intro event hevent
    rcases List.mem_cons.mp hevent with rfl | hevent
    · exact List.cons_ne_nil b bytes
    · exact h event hevent

lemma failures_leftover (bytes : List UInt8) (script : List ReadEvent) :
    ReadEvent.failures (leftover bytes script) = ReadEvent.failures script := by
  unfold leftover
  cases bytes <;> rfl

lemma fill_givesUp (capacity : Option Nat) (script : List ReadEvent) :
    GivesUp { capacity, script } [] (failuresOf (fill capacity script).1)
        (fill capacity script).2 ∧
      ∀ failure, (fill capacity script).1 = .error failure → failure.isInterruption = false := by
  fun_induction fill capacity script with
  | case1 => exact ⟨.refl _, by simp⟩
  | case2 failure script hfailure ih =>
    obtain ⟨hgives, hpassed⟩ := ih
    refine ⟨⟨hgives.pending_eq, ?_, fun h => hgives.flows (flows_tail h)⟩, hpassed⟩
    rw [← hgives.failures_eq]
    simp [failures, ReadEvent.failures, hfailure]
  | case3 failure script hfailure =>
    have hpassed := Bool.eq_false_iff.mpr hfailure
    refine ⟨⟨rfl, ?_, flows_tail⟩, by rintro _ ⟨⟩; exact hpassed⟩
    simp [failures, ReadEvent.failures, hpassed, failuresOf]
  | case4 bytes script hcapacity =>
    subst hcapacity
    refine ⟨⟨rfl, rfl, fun h => ⟨h.capacity, (flows_tail h).script⟩⟩, by simp⟩
  | case5 bytes script n hcapacity =>
    subst hcapacity
    refine ⟨⟨?_, ?_, ?_⟩, by simp⟩
    · rw [List.nil_append, pending, pending, flatMap_leftover, ← List.append_assoc,
        List.take_append_drop]
      rfl
    · exact (failures_leftover _ script).symm
    · exact fun h => ⟨h.capacity, flows_leftover (flows_tail h).script⟩

lemma filled_givesUp (r : ByteReader) : r.GivesUp [] (failuresOf r.filled.1) r.filled.2 ∧
    ∀ failure, r.filled.1 = .error failure → failure.isInterruption = false := by
  unfold filled
  split
  · next hempty =>
    have hbuffer := List.isEmpty_iff.mp hempty
    obtain ⟨capacity, buffer, script⟩ := r
    obtain rfl : buffer = [] := hbuffer
    exact fill_givesUp capacity script
  · exact ⟨.refl r, by simp⟩

/-- What there is when a byte is asked for: one more byte, an end, or a failure. -/
inductive NextByte (r : ByteReader) : Except ReadFailure (Option UInt8) → ByteReader → Prop where
  | byte {b : UInt8} {s : ByteReader} : r.GivesUp [b] [] s → NextByte r (.ok (some b)) s
  | ended {s : ByteReader} : r.GivesUp [] [] s → NextByte r (.ok none) s
  | failed {failure : ReadFailure} {s : ByteReader} : failure.isInterruption = false →
    r.GivesUp [] [failure] s → NextByte r (.error failure) s

theorem nextByte_cases (r : ByteReader) : r.NextByte r.nextByte.1 r.nextByte.2 := by
  obtain ⟨hgives, hpassed⟩ := r.filled_givesUp
  unfold nextByte
  split
  · next failure s h =>
    rw [h] at hgives hpassed
    exact .failed (hpassed failure rfl) hgives
  · next s h =>
    rw [h] at hgives
    split
    · exact .ended hgives
    · next b buffer hbuffer =>
      refine .byte ⟨?_, hgives.failures_eq, fun hr => ?_⟩
      · rw [hgives.pending_eq, pending, hbuffer]
        rfl
      · exact ⟨(hgives.flows hr).capacity, (hgives.flows hr).script⟩

/-- What there is when `n` continuation bytes are asked for. -/
inductive NextContinuation (r : ByteReader) (n : Nat) :
    Except ReadFailure (List UInt8) → ByteReader → Prop where
  | bytes {trail : List UInt8} {s : ByteReader} : trail.length = n →
    (∀ b ∈ trail, Utf8.isContinuation b) → r.GivesUp trail [] s →
    NextContinuation r n (.ok trail) s
  | truncated {trail : List UInt8} {s : ByteReader} : trail.length < n →
    (∀ b ∈ trail, Utf8.isContinuation b) → r.GivesUp trail [] s →
    NextContinuation r n (.error Utf8.Fault.truncated.failure) s
  | other {trail : List UInt8} {b : UInt8} {s : ByteReader} : trail.length < n →
    (∀ b ∈ trail, Utf8.isContinuation b) → Utf8.isContinuation b = false →
    r.GivesUp (trail ++ [b]) [] s →
    NextContinuation r n (.error (Utf8.Fault.continuation b).failure) s
  | failed {trail : List UInt8} {failure : ReadFailure} {s : ByteReader} : trail.length < n →
    (∀ b ∈ trail, Utf8.isContinuation b) → failure.isInterruption = false →
    r.GivesUp trail [failure] s → NextContinuation r n (.error failure) s

theorem nextContinuation_cases (r : ByteReader) (n : Nat) :
    r.NextContinuation n (r.nextContinuation n).1 (r.nextContinuation n).2 := by
  induction n generalizing r with
  | zero => exact .bytes rfl (by simp) (.refl r)
  | succ n ih =>
    have hbyte := r.nextByte_cases
    rw [nextContinuation]
    rcases hnext : r.nextByte with ⟨answer, s⟩
    rw [hnext] at hbyte
    have hnil : ([] : List UInt8).length < n + 1 := Nat.succ_pos n
    cases hbyte with
    | failed hpassed hgives => exact .failed hnil (List.forall_mem_nil _) hpassed hgives
    | ended hgives => exact .truncated hnil (List.forall_mem_nil _) hgives
    | @byte b _ hgives =>
      cases hb : Utf8.isContinuation b with
      | false =>
        simp only [hb, Bool.false_eq_true, if_false]
        exact .other hnil (List.forall_mem_nil _) hb hgives
      | true =>
        simp only [hb, if_true]
        have hmore := ih s
        have hcons {trail : List UInt8} (htrail : ∀ d ∈ trail, Utf8.isContinuation d) :
            ∀ d ∈ b :: trail, Utf8.isContinuation d := by
          simpa [hb] using htrail
        have hlonger {trail : List UInt8} (hlength : trail.length < n) :
            (b :: trail).length < n + 1 := Nat.succ_lt_succ hlength
        rcases hrest : s.nextContinuation n with ⟨answer, t⟩
        rw [hrest] at hmore
        cases hmore with
        | bytes hlength htrail hgives' =>
          exact .bytes (congrArg (· + 1) hlength) (hcons htrail) (hgives.trans hgives')
        | truncated hlength htrail hgives' =>
          exact .truncated (hlonger hlength) (hcons htrail) (hgives.trans hgives')
        | other hlength htrail hd hgives' =>
          exact .other (hlonger hlength) (hcons htrail) hd (hgives.trans hgives')
        | failed hlength htrail hpassed hgives' =>
          exact .failed (hlonger hlength) (hcons htrail) hpassed (hgives.trans hgives')

/-- What there is when a character is asked for: an end, or something that is spent. -/
inductive NextChar (r : ByteReader) : Except ReadFailure (Option Char) → ByteReader → Prop where
  | ended {s : ByteReader} : r.GivesUp [] [] s → NextChar r (.ok none) s
  | spent {e : Spent} {s : ByteReader} : e.Sound → r.GivesUp e.bytes e.passedOn s →
    NextChar r e.answer s

lemma trailing?_le {lead : UInt8} {n : Nat} (h : Utf8.trailing? lead = some n) : n ≤ 3 := by
  unfold Utf8.trailing? at h
  repeat' split at h
  all_goals simp_all
  all_goals omega

/-- Bytes that lack a continuation byte, and what there is in place of it. -/
lemma sound_of_missing {lead : UInt8} {trail after : List UInt8} {n : Nat} {ending : Ending}
    {failure : ReadFailure} (hlead : Utf8.trailing? lead = some n) (hlength : trail.length < n)
    (htrail : ∀ b ∈ trail, Utf8.isContinuation b) (hafter : Utf8.Missing after ending failure) :
    Utf8.Breaks (lead :: trail ++ after) ending failure ∧ (lead :: trail).length ≤ 3 := by
  have hn := trailing?_le hlead
  exact ⟨.missing hlead hlength htrail hafter, by rw [List.length_cons]; omega⟩

theorem nextChar_cases (r : ByteReader) : r.NextChar r.nextChar.1 r.nextChar.2 := by
  have hbyte := r.nextByte_cases
  rw [nextChar]
  rcases hnext : r.nextByte with ⟨answer, s⟩
  rw [hnext] at hbyte
  cases hbyte with
  | @failed failure _ hpassed hgives =>
    exact .spent (e := .failed failure []) ⟨hpassed, .failed, Nat.zero_le 3⟩ hgives
  | ended hgives => exact .ended hgives
  | @byte lead _ hgives =>
    dsimp only
    cases hlead : Utf8.trailing? lead with
    | none =>
      exact .spent (e := .faulty (.lead lead) [lead]) ⟨.lead hlead, by simp, by simp⟩ hgives
    | some n =>
      have htrailing := s.nextContinuation_cases n
      dsimp only
      rcases hrest : s.nextContinuation n with ⟨answer, t⟩
      rw [hrest] at htrailing
      cases htrailing with
      | @truncated trail _ hlength htrail hgives' =>
        obtain ⟨hbreaks, hle⟩ := sound_of_missing hlead hlength htrail .truncated
        rw [List.append_nil] at hbreaks
        exact .spent (e := .faulty .truncated (lead :: trail))
          ⟨hbreaks, by simp, Nat.le_succ_of_le hle⟩ (hgives.trans hgives')
      | @other trail b _ hlength htrail hb hgives' =>
        obtain ⟨hbreaks, hle⟩ := sound_of_missing hlead hlength htrail (.continuation hb)
        have hfour : (lead :: trail ++ [b]).length ≤ 4 := by
          rw [List.length_append, List.length_singleton]
          omega
        exact .spent (e := .faulty (.continuation b) (lead :: trail ++ [b]))
          ⟨hbreaks, by simp, hfour⟩ (hgives.trans hgives')
      | @failed trail failure _ hlength htrail hpassed hgives' =>
        obtain ⟨hbreaks, hle⟩ := sound_of_missing hlead hlength htrail .failed
        rw [List.append_nil] at hbreaks
        exact .spent (e := .failed failure (lead :: trail)) ⟨hpassed, hbreaks, hle⟩
          (hgives.trans hgives')
      | @bytes trail _ hlength htrail hgives' =>
        have hall : r.GivesUp (lead :: trail) [] t := hgives.trans hgives'
        dsimp only
        cases hdecode : Utf8.decode (lead :: trail) with
        | some c =>
          rw [← Utf8.decode_eq_some_iff.mp hdecode] at hall
          exact .spent (e := .char c) trivial hall
        | none =>
          have hnone : ∀ c, String.utf8EncodeChar c ≠ lead :: trail := by
            intro c hc
            rw [Utf8.decode_eq_some_iff.mpr hc] at hdecode
            cases hdecode
          have hbreaks : Utf8.Breaks (lead :: trail ++ []) .ended Utf8.Fault.sequence.failure :=
            .sequence (by rw [hlead, hlength]) htrail hnone
          have hle := trailing?_le hlead
          rw [List.append_nil] at hbreaks
          exact .spent (e := .faulty .sequence (lead :: trail))
            ⟨hbreaks, by simp, by rw [List.length_cons]; omega⟩ hall

/-- The next character is paid for with its encoding. A failure gives up what it has read. -/
theorem nextChar_pending (r : ByteReader) :
    ∃ given, r.pending = given ++ r.nextChar.2.pending ∧
      ∀ c, r.nextChar.1 = .ok (some c) → given = String.utf8EncodeChar c := by
  have hnext := r.nextChar_cases
  rcases hchar : r.nextChar with ⟨answer, s⟩
  rw [hchar] at hnext
  cases hnext with
  | ended hgives => exact ⟨[], hgives.pending_eq, by simp⟩
  | @spent e _ hsound hgives =>
    refine ⟨e.bytes, hgives.pending_eq, ?_⟩
    intro c hc
    cases e with
    | char d => cases hc; rfl
    | faulty fault bytes => cases hc
    | failed failure bytes => cases hc

end ByteReader

namespace Source

/-- The bytes that are still to be taken: those of the character that was looked at, and those
pending in the reader. -/
def pending (s : Source ByteReader) : List UInt8 :=
  match s.lookahead with
  | .char c => String.utf8EncodeChar c ++ s.feed.pending
  | .unread | .ended => s.feed.pending

/-- Whatever a source has been through, a character that it hands out is the one encoded by the
bytes that it gives up. -/
theorem advance_pending (s : Source ByteReader) :
    ∃ given, s.pending = given ++ s.advance.2.pending ∧
      ∀ c, s.advance.1 = .ok (some c) → given = String.utf8EncodeChar c := by
  obtain ⟨feed, position, lookahead⟩ := s
  cases lookahead with
  | char c =>
    refine ⟨String.utf8EncodeChar c, rfl, ?_⟩
    intro d hd
    cases hd
    rfl
  | ended => exact ⟨[], rfl, by simp [advance, peek]⟩
  | unread =>
    obtain ⟨given, hgiven, hchar⟩ := feed.nextChar_pending
    rcases h : CharFeed.next feed with ⟨failure | answer, feed'⟩
    all_goals
      rw [show feed.nextChar = CharFeed.next feed from rfl, h] at hgiven hchar
      simp only [advance, peek, h]
    · exact ⟨given, hgiven, by simp⟩
    · cases answer with
      | none => exact ⟨given, hgiven, by simp⟩
      | some c =>
        refine ⟨given, hgiven, ?_⟩
        intro d hd
        cases hd
        exact hchar c rfl

end Source

end GrammarTokens
