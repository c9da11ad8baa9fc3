import GrammarTokens.ByteReader
import GrammarTokens.Proofs.Faults

/-!
# Bytes that a reader hands out

A reader hands out the bytes of its buffer and then those of its script, in pieces of any size, up
to an end of the input or a failed read. Interruptions and the capacity of the buffer leave no
trace in what is decoded from the bytes.
-/

namespace GrammarTokens

/-- Events that hand out the bytes, in pieces that are not empty and with interruptions between
them, up to an end of the input. -/
inductive ReadEvent.Delivers : List ReadEvent → List UInt8 → Prop where
  | ended : Delivers [] []
  | emptyRead {script : List ReadEvent} : Delivers (.data [] :: script) []
  | interrupted {failure : ReadFailure} {script : List ReadEvent} {bytes : List UInt8} :
    failure.isInterruption → Delivers script bytes → Delivers (.failed failure :: script) bytes
  | data {chunk bytes : List UInt8} {script : List ReadEvent} :
    chunk ≠ [] → Delivers script bytes → Delivers (.data chunk :: script) (chunk ++ bytes)

/-- Events that hand out the bytes up to an end of the input or a failure that is passed on. -/
inductive ReadEvent.HandsOut : List ReadEvent → List UInt8 → Ending → Prop where
  | ended : HandsOut [] [] .ended
  | emptyRead {script : List ReadEvent} : HandsOut (.data [] :: script) [] .ended
  | failed {failure : ReadFailure} {script : List ReadEvent} :
    failure.isInterruption = false → HandsOut (.failed failure :: script) [] (.failed failure)
  | interrupted {failure : ReadFailure} {script : List ReadEvent} {bytes : List UInt8}
    {ending : Ending} : failure.isInterruption → HandsOut script bytes ending →
    HandsOut (.failed failure :: script) bytes ending
  | data {chunk bytes : List UInt8} {script : List ReadEvent} {ending : Ending} :
    chunk ≠ [] → HandsOut script bytes ending →
    HandsOut (.data chunk :: script) (chunk ++ bytes) ending

lemma handsOut_of_delivers {script : List ReadEvent} {bytes : List UInt8}
    (h : ReadEvent.Delivers script bytes) : ReadEvent.HandsOut script bytes .ended := by
  induction h with
  | ended => exact .ended
  | emptyRead => exact .emptyRead
  | interrupted hfailure _ ih => exact .interrupted hfailure ih
  | data hchunk _ ih => exact .data hchunk ih

lemma delivers_of_handsOut {script : List ReadEvent} {bytes : List UInt8}
    (h : ReadEvent.HandsOut script bytes .ended) : ReadEvent.Delivers script bytes := by
  generalize hending : Ending.ended = ending at h
  induction h with
  | ended => exact .ended
  | emptyRead => exact .emptyRead
  | failed => cases hending
  | interrupted hfailure _ ih => exact .interrupted hfailure (ih hending)
  | data hchunk _ ih => exact .data hchunk (ih hending)

lemma exists_handsOut (script : List ReadEvent) :
    ∃ bytes ending, ReadEvent.HandsOut script bytes ending := by
  induction script with
  | nil => exact ⟨[], .ended, .ended⟩
  | cons event script ih =>
    obtain ⟨bytes, ending, h⟩ := ih
    cases event with
    | failed failure =>
      cases hfailure : failure.isInterruption with
      | true => exact ⟨bytes, ending, .interrupted hfailure h⟩
      | false => exact ⟨[], .failed failure, .failed hfailure⟩
    | data chunk =>
      by_cases hchunk : chunk = []
      · subst hchunk
        exact ⟨[], .ended, .emptyRead⟩
      · exact ⟨chunk ++ bytes, ending, .data hchunk h⟩

namespace ByteReader

/-- A reader whose buffer has room and that hands out the bytes up to an end of the input. -/
def Delivers (r : ByteReader) (bytes : List UInt8) : Prop :=
  r.capacity ≠ some 0 ∧
    ∃ later, bytes = r.buffer ++ later ∧ ReadEvent.Delivers r.script later

/-- A reader whose buffer has room and that hands out the bytes up to an end or a failure. -/
def HandsOut (r : ByteReader) (bytes : List UInt8) (ending : Ending) : Prop :=
  r.capacity ≠ some 0 ∧
    ∃ later, bytes = r.buffer ++ later ∧ ReadEvent.HandsOut r.script later ending

lemma Delivers.handsOut {r : ByteReader} {bytes : List UInt8} (h : r.Delivers bytes) :
    r.HandsOut bytes .ended := by
  obtain ⟨hcapacity, later, hbytes, hscript⟩ := h
  exact ⟨hcapacity, later, hbytes, handsOut_of_delivers hscript⟩

lemma handsOut_leftover {script : List ReadEvent} {bytes : List UInt8} {ending : Ending}
    (h : ReadEvent.HandsOut script bytes ending) (chunk : List UInt8) :
    ReadEvent.HandsOut (leftover chunk script) (chunk ++ bytes) ending := by
  unfold leftover
  cases chunk with
  | nil => exact h
  | cons b chunk => exact .data (List.cons_ne_nil b chunk) h

/-- What a reader says and holds when it has been filled, by the bytes that it hands out. -/
inductive Filled : List UInt8 → Ending → Except ReadFailure Unit → ByteReader → Prop where
  | ended {s : ByteReader} : s.buffer = [] → Filled [] .ended (.ok ()) s
  | failed {failure : ReadFailure} {s : ByteReader} : Filled [] (.failed failure) (.error failure) s
  | byte {bytes : List UInt8} {ending : Ending} {s : ByteReader} :
    s.buffer ≠ [] → s.HandsOut bytes ending → Filled bytes ending (.ok ()) s

lemma filled_fill {capacity : Option Nat} {script : List ReadEvent} {bytes : List UInt8}
    {ending : Ending} (hcapacity : capacity ≠ some 0)
    (h : ReadEvent.HandsOut script bytes ending) :
    Filled bytes ending (fill capacity script).1 (fill capacity script).2 := by
  induction h with
  | ended => exact .ended rfl
  | emptyRead =>
    cases capacity with
    | none => exact .ended rfl
    | some n => exact .ended List.take_nil
  | failed hfailure =>
    rw [fill, hfailure]
    exact .failed
  | interrupted hfailure _ ih =>
    rw [fill, if_pos hfailure]
    exact ih
  | @data chunk bytes script ending hchunk hscript _ =>
    cases capacity with
    | none => exact .byte hchunk ⟨hcapacity, bytes, rfl, hscript⟩
    | some n =>
      have hn : n ≠ 0 := fun hzero => hcapacity (congrArg some hzero)
      refine .byte (by simp [fill, hn, hchunk])
        ⟨hcapacity, chunk.drop n ++ bytes, ?_, handsOut_leftover hscript _⟩
      rw [fill, ← List.append_assoc, List.take_append_drop]

lemma filled_filled {r : ByteReader} {bytes : List UInt8} {ending : Ending}
    (h : r.HandsOut bytes ending) : Filled bytes ending r.filled.1 r.filled.2 := by
  have hall := h
  obtain ⟨hcapacity, later, rfl, hscript⟩ := h
  unfold filled
  cases hbuffer : r.buffer with
  | nil => exact filled_fill hcapacity hscript
  | cons b buffer =>
    rw [hbuffer] at hall
    exact .byte (by simp [hbuffer]) hall

lemma bytes_ne_nil {s : ByteReader} {bytes : List UInt8} {ending : Ending}
    (hbuffer : s.buffer ≠ []) (h : s.HandsOut bytes ending) : bytes ≠ [] := by
  obtain ⟨-, later, rfl, -⟩ := h
  simp [hbuffer]

lemma nextByte_of_ended {r : ByteReader} (h : r.HandsOut [] .ended) :
    ∃ s, r.nextByte = (.ok none, s) := by
  rcases hread : r.filled with ⟨answer, s⟩
  have hfilled := filled_filled h
  rw [hread] at hfilled
  cases hfilled with
  | ended hbuffer => exact ⟨s, by simp_all only [nextByte]⟩
  | byte hbuffer hs => exact absurd rfl (bytes_ne_nil hbuffer hs)

lemma nextByte_of_failed {r : ByteReader} {failure : ReadFailure}
    (h : r.HandsOut [] (.failed failure)) : ∃ s, r.nextByte = (.error failure, s) := by
  rcases hread : r.filled with ⟨answer, s⟩
  have hfilled := filled_filled h
  rw [hread] at hfilled
  cases hfilled with
  | failed => exact ⟨s, by simp only [nextByte, hread]⟩
  | byte hbuffer hs => exact absurd rfl (bytes_ne_nil hbuffer hs)

lemma nextByte_of_byte {r : ByteReader} {b : UInt8} {bytes : List UInt8} {ending : Ending}
    (h : r.HandsOut (b :: bytes) ending) :
    ∃ s, r.nextByte = (.ok (some b), s) ∧ s.HandsOut bytes ending := by
  rcases hread : r.filled with ⟨answer, s⟩
  have hfilled := filled_filled h
  rw [hread] at hfilled
  cases hfilled with
  | byte hbuffer hs =>
    obtain ⟨hcapacity, later, heq, hscript⟩ := hs
    obtain ⟨d, buffer, hs⟩ := List.exists_cons_of_ne_nil hbuffer
    dsimp only at hs
    rw [hs, List.cons_append] at heq
    obtain ⟨rfl, hbytes⟩ := List.cons.inj heq
    exact ⟨{ s with buffer }, by simp only [nextByte, hread, hs], hcapacity, later, hbytes, hscript⟩

lemma nextContinuation_of_trail {r : ByteReader} {trail after : List UInt8} {ending : Ending}
    (h : r.HandsOut (trail ++ after) ending) (htrail : ∀ b ∈ trail, Utf8.isContinuation b) :
    ∃ s, r.nextContinuation trail.length = (.ok trail, s) ∧ s.HandsOut after ending := by
  induction trail generalizing r with
  | nil => exact ⟨r, rfl, h⟩
  | cons b trail ih =>
    obtain ⟨s, hnext, hs⟩ := nextByte_of_byte h
    obtain ⟨t, hread, ht⟩ := ih hs (fun d hd => htrail d (List.mem_cons_of_mem b hd))
    refine ⟨t, ?_, ht⟩
    simp [nextContinuation, hnext, htrail b List.mem_cons_self, hread]

lemma nextContinuation_of_missing {r : ByteReader} {trail after : List UInt8} {ending : Ending}
    {failure : ReadFailure} {n : Nat} (h : r.HandsOut (trail ++ after) ending)
    (hshort : trail.length < n) (htrail : ∀ b ∈ trail, Utf8.isContinuation b)
    (hafter : Utf8.Missing after ending failure) :
    ∃ s, r.nextContinuation n = (.error failure, s) := by
  induction trail generalizing r n with
  | nil =>
    obtain ⟨m, rfl⟩ := Nat.exists_eq_succ_of_ne_zero (Nat.ne_of_gt hshort)
    cases hafter with
    | truncated =>
      obtain ⟨s, hnext⟩ := nextByte_of_ended h
      exact ⟨s, by simp [nextContinuation, hnext]⟩
    | failed =>
      obtain ⟨s, hnext⟩ := nextByte_of_failed h
      exact ⟨s, by simp [nextContinuation, hnext]⟩
    | continuation hb =>
      obtain ⟨s, hnext, -⟩ := nextByte_of_byte h
      exact ⟨s, by simp [nextContinuation, hnext, hb]⟩
  | cons b trail ih =>
    obtain ⟨m, rfl⟩ := Nat.exists_eq_succ_of_ne_zero (Nat.ne_of_gt (Nat.zero_lt_of_lt hshort))
    obtain ⟨s, hnext, hs⟩ := nextByte_of_byte h
    obtain ⟨t, hread⟩ := ih hs (Nat.lt_of_succ_lt_succ hshort)
      (fun d hd => htrail d (List.mem_cons_of_mem b hd))
    exact ⟨t, by simp [nextContinuation, hnext, htrail b List.mem_cons_self, hread]⟩

theorem nextChar_of_ended {r : ByteReader} (h : r.HandsOut [] .ended) :
    ∃ s, r.nextChar = (.ok none, s) := by
  obtain ⟨s, hnext⟩ := nextByte_of_ended h
  refine ⟨s, ?_⟩
  simp only [nextChar, hnext]

theorem nextChar_of_char {r : ByteReader} {c : Char} {after : List UInt8} {ending : Ending}
    (h : r.HandsOut (String.utf8EncodeChar c ++ after) ending) :
    ∃ s, r.nextChar = (.ok (some c), s) ∧ s.HandsOut after ending := by
  obtain ⟨lead, trail, hc, hlead, htrail⟩ := Utf8.utf8EncodeChar_eq_lead_trail c
  rw [hc, List.cons_append] at h
  obtain ⟨s, hnext, hs⟩ := nextByte_of_byte h
  obtain ⟨t, hread, ht⟩ := nextContinuation_of_trail hs htrail
  have hdecode : Utf8.decode (lead :: trail) = some c := Utf8.decode_eq_some_iff.mpr hc
  refine ⟨t, ?_, ht⟩
  simp only [nextChar, hnext, hlead, hread, hdecode]

theorem nextChar_of_breaks {r : ByteReader} {bytes : List UInt8} {ending : Ending}
    {failure : ReadFailure} (h : r.HandsOut bytes ending)
    (hbytes : Utf8.Breaks bytes ending failure) : ∃ s, r.nextChar = (.error failure, s) := by
  cases hbytes with
  | failed =>
    obtain ⟨s, hnext⟩ := nextByte_of_failed h
    exact ⟨s, by simp only [nextChar, hnext]⟩
  | lead hlead =>
    obtain ⟨s, hnext, -⟩ := nextByte_of_byte h
    exact ⟨s, by simp only [nextChar, hnext, hlead]⟩
  | missing hlead hshort htrail hmissing =>
    obtain ⟨s, hnext, hs⟩ := nextByte_of_byte h
    obtain ⟨t, hread⟩ := nextContinuation_of_missing hs hshort htrail hmissing
    exact ⟨t, by simp only [nextChar, hnext, hlead, hread]⟩
  | @sequence lead trail _ _ hlead htrail hnone =>
    obtain ⟨s, hnext, hs⟩ := nextByte_of_byte h
    obtain ⟨t, hread, -⟩ := nextContinuation_of_trail hs htrail
    have hdecode : Utf8.decode (lead :: trail) = none := by
      rw [Option.eq_none_iff_forall_ne_some]
      intro c hc
      exact hnone c (Utf8.decode_eq_some_iff.mp hc)
    exact ⟨t, by simp only [nextChar, hnext, hlead, hread, hdecode]⟩

lemma yields_append {r : ByteReader} {cs : List Char} {rest : List UInt8} {ending behind : Ending}
    (h : r.HandsOut (utf8Bytes cs ++ rest) ending)
    (hrest : ∀ s : ByteReader, s.HandsOut rest ending → CharFeed.Yields s [] behind) :
    CharFeed.Yields r cs behind := by
  induction cs generalizing r with
  | nil => exact hrest r h
  | cons c cs ih =>
    rw [utf8Bytes_cons, List.append_assoc] at h
    obtain ⟨s, hnext, hs⟩ := nextChar_of_char h
    exact .char hnext (ih hs)

theorem yields_of_breaks {r : ByteReader} {cs : List Char} {rest : List UInt8} {ending : Ending}
    {failure : ReadFailure} (h : r.HandsOut (utf8Bytes cs ++ rest) ending)
    (hrest : Utf8.Breaks rest ending failure) : CharFeed.Yields r cs (.failed failure) := by
  apply yields_append h
  intro s hs
  obtain ⟨t, hnext⟩ := nextChar_of_breaks hs hrest
  exact .failed hnext

theorem yields_of_delivers_text {r : ByteReader} {cs : List Char}
    (h : r.Delivers (utf8Bytes cs)) : CharFeed.Yields r cs .ended := by
  have hhands := h.handsOut
  rw [← List.append_nil (utf8Bytes cs)] at hhands
  apply yields_append hhands
  intro s hs
  obtain ⟨t, hnext⟩ := nextChar_of_ended hs
  exact .ended hnext

/-- A reader that delivers an encoded text, and then bytes that begin with no character, yields
the text, and then the end or a failure. -/
theorem yields_of_delivers {r : ByteReader} {cs : List Char} {rest : List UInt8}
    (h : r.Delivers (utf8Bytes cs ++ rest)) (hrest : ∀ c, ¬ String.utf8EncodeChar c <+: rest) :
    ∃ ending, CharFeed.Yields r cs ending ∧ (rest = [] → ending = .ended) ∧
      (rest ≠ [] → ∃ failure, failure.kind = .invalidData ∧ ending = .failed failure) := by
  by_cases hnil : rest = []
  · subst hnil
    rw [List.append_nil] at h
    exact ⟨.ended, yields_of_delivers_text h, fun _ => rfl, fun hne => absurd rfl hne⟩
  · obtain ⟨heq, -⟩ | ⟨failure, hbreaks⟩ := Utf8.exists_breaks hrest .ended
    · exact absurd heq hnil
    · exact ⟨.failed failure, yields_of_breaks h.handsOut hbreaks, fun heq => absurd heq hnil,
        fun _ => ⟨failure, Utf8.kind_of_breaks hbreaks, rfl⟩⟩

end ByteReader

end GrammarTokens
