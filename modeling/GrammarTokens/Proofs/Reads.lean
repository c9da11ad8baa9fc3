import GrammarTokens.Proofs.Conservation
import GrammarTokens.Proofs.FeedMaps
import GrammarTokens.Proofs.Halting

/-!
# Reads of a device

A reader turns to its device when the buffer is empty, and again behind each interruption. A
metered reader counts how often. It answers as the reader itself does, and so does everything that
draws from it. What it counts are the reads that lead from the script to what is left of it. Each
read but the last takes something out of the script, so calls that draw on one source do not read
more often than the script has bytes and events, plus once.
-/

namespace GrammarTokens

namespace ByteReader

/-- What a read of the device hands out, and what it leaves of the script. -/
def deviceRead (capacity : Option Nat) :
    List ReadEvent → Except ReadFailure (List UInt8) × List ReadEvent
  | [] => (.ok [], [])
  | .failed failure :: script => (.error failure, script)
  | .data bytes :: script =>
    match capacity with
    | none => (.ok bytes, script)
    | some n => (.ok (bytes.take n), leftover (bytes.drop n) script)

/-- What so many reads of the device leave of a script. -/
inductive ReadsTo (capacity : Option Nat) : Nat → List ReadEvent → List ReadEvent → Prop where
  | none {script : List ReadEvent} : ReadsTo capacity 0 script script
  | read {n : Nat} {script rest : List ReadEvent} :
    ReadsTo capacity n (deviceRead capacity script).2 rest → ReadsTo capacity (n + 1) script rest

/-- A buffer is filled by so many reads: each but the last is interrupted. -/
inductive FillsBy (capacity : Option Nat) :
    Nat → List ReadEvent → Except ReadFailure Unit × ByteReader → Prop where
  | data {script rest : List ReadEvent} {bytes : List UInt8} :
    deviceRead capacity script = (.ok bytes, rest) →
    FillsBy capacity 1 script (.ok (), ⟨capacity, bytes, rest⟩)
  | failed {script rest : List ReadEvent} {failure : ReadFailure} :
    deviceRead capacity script = (.error failure, rest) → failure.isInterruption = false →
    FillsBy capacity 1 script (.error failure, ⟨capacity, [], rest⟩)
  | interrupted {n : Nat} {script rest : List ReadEvent} {failure : ReadFailure}
    {filled : Except ReadFailure Unit × ByteReader} :
    deviceRead capacity script = (.error failure, rest) → failure.isInterruption →
    FillsBy capacity n rest filled → FillsBy capacity (n + 1) script filled

/-- How often the device is read to fill an empty buffer. -/
def fillReads : List ReadEvent → Nat
  | [] | .data _ :: _ => 1
  | .failed failure :: script => if failure.isInterruption then fillReads script + 1 else 1

def byteReads (r : ByteReader) : Nat := if r.buffer.isEmpty then fillReads r.script else 0

def continuationReads (r : ByteReader) : Nat → Nat
  | 0 => 0
  | n + 1 =>
    r.byteReads + match r.nextByte with
      | (.ok (some b), s) => if Utf8.isContinuation b then s.continuationReads n else 0
      | (.ok none, _) | (.error _, _) => 0

/-- How often the device is read for one character. -/
def charReads (r : ByteReader) : Nat :=
  r.byteReads + match r.nextByte with
    | (.ok (some lead), s) => (Utf8.trailing? lead).elim 0 s.continuationReads
    | (.ok none, _) | (.error _, _) => 0

theorem fillsBy_fill (capacity : Option Nat) (script : List ReadEvent) :
    FillsBy capacity (fillReads script) script (fill capacity script) := by
  induction script with
  | nil => exact .data rfl
  | cons event script ih =>
    cases event with
    | data bytes =>
      cases capacity with
      | none => exact .data rfl
      | some n => exact .data rfl
    | failed failure =>
      rw [fill, fillReads]
      split
      · next hfailure => exact .interrupted rfl hfailure ih
      · next hfailure => exact .failed rfl (Bool.eq_false_iff.mpr hfailure)

lemma ReadsTo.trans {capacity : Option Nat} {m n : Nat} {script rest rest' : List ReadEvent}
    (h : ReadsTo capacity m script rest) (h' : ReadsTo capacity n rest rest') :
    ReadsTo capacity (m + n) script rest' := by
  induction h with
  | none => rwa [Nat.zero_add]
  | read _ ih =>
    rw [Nat.add_right_comm]
    exact .read (ih h')

/-- The reader `r` becomes `s` by so many reads of its device. -/
structure LeavesAfter (n : Nat) (r s : ByteReader) : Prop where
  capacity_eq : s.capacity = r.capacity
  reads : ReadsTo r.capacity n r.script s.script

lemma LeavesAfter.trans {m n : Nat} {r s t : ByteReader} (h : LeavesAfter m r s)
    (h' : LeavesAfter n s t) : LeavesAfter (m + n) r t := by
  obtain ⟨hcapacity, hreads⟩ := h'
  rw [h.capacity_eq] at hcapacity hreads
  exact ⟨hcapacity, h.reads.trans hreads⟩

lemma FillsBy.leavesAfter {capacity : Option Nat} {n : Nat} {script : List ReadEvent}
    {filled : Except ReadFailure Unit × ByteReader} (h : FillsBy capacity n script filled) :
    LeavesAfter n { capacity, script } filled.2 := by
  induction h with
  | data hread => exact ⟨rfl, .read (by rw [hread]; exact .none)⟩
  | failed hread => exact ⟨rfl, .read (by rw [hread]; exact .none)⟩
  | interrupted hread _ _ ih => exact ⟨ih.capacity_eq, .read (by rw [hread]; exact ih.reads)⟩

lemma leavesAfter_nextByte (r : ByteReader) : LeavesAfter r.byteReads r r.nextByte.2 := by
  obtain ⟨capacity, buffer, script⟩ := r
  cases buffer with
  | cons b buffer => exact ⟨rfl, .none⟩
  | nil =>
    have hfill := (fillsBy_fill capacity script).leavesAfter
    have hfilled : filled { capacity, script } = fill capacity script := rfl
    simp only [byteReads, nextByte, hfilled, List.isEmpty_nil, if_true]
    generalize fill capacity script = answer at hfill ⊢
    obtain ⟨failure | _, s⟩ := answer
    · exact hfill
    · dsimp only
      split
      · exact hfill
      · exact ⟨hfill.capacity_eq, hfill.reads⟩

lemma leavesAfter_nextContinuation (r : ByteReader) (n : Nat) :
    LeavesAfter (r.continuationReads n) r (r.nextContinuation n).2 := by
  induction n generalizing r with
  | zero => exact ⟨rfl, .none⟩
  | succ n ih =>
    have hbyte := r.leavesAfter_nextByte
    rw [continuationReads, nextContinuation]
    generalize r.nextByte = answer at hbyte ⊢
    obtain ⟨failure | _ | b, s⟩ := answer
    · exact hbyte
    · exact hbyte
    · have hlater := hbyte.trans (ih s)
      dsimp only
      split
      · generalize s.nextContinuation n = rest at hlater ⊢
        obtain ⟨failure | bytes, t⟩ := rest
        · exact hlater
        · exact hlater
      · exact hbyte

/-- The reads for a character are those that the device has taken out of the script. -/
theorem leavesAfter_nextChar (r : ByteReader) : LeavesAfter r.charReads r r.nextChar.2 := by
  have hbyte := r.leavesAfter_nextByte
  rw [charReads, nextChar]
  generalize r.nextByte = answer at hbyte ⊢
  obtain ⟨failure | _ | lead, s⟩ := answer
  · exact hbyte
  · exact hbyte
  · dsimp only
    cases Utf8.trailing? lead with
    | none => exact hbyte
    | some n =>
      have hlater := hbyte.trans (s.leavesAfter_nextContinuation n)
      dsimp only [Option.elim]
      generalize s.nextContinuation n = rest at hlater ⊢
      obtain ⟨failure | bytes, t⟩ := rest
      · exact hlater
      · dsimp only
        split <;> exact hlater

/-- One read that takes nothing out of the script may be spent on an answer that is not found. -/
def spare {α : Type} : Except ReadFailure (Option α) → Nat
  | .ok (some _) => 0
  | .ok none | .error _ => 1

lemma fillReads_le (capacity : Option Nat) (script : List ReadEvent) :
    fillReads script + ReadEvent.totalSize (fill capacity script).2.script ≤
        ReadEvent.totalSize script + 1 ∧
      ((fill capacity script).2.buffer ≠ [] →
        fillReads script + ReadEvent.totalSize (fill capacity script).2.script ≤
          ReadEvent.totalSize script) := by
  fun_induction fill capacity script with
  | case1 => simp [fillReads, ReadEvent.totalSize]
  | case2 failure script hfailure ih =>
    -- The interrupted read is the one more, and its event the one less.
    simp only [fillReads, hfailure, if_true, ReadEvent.totalSize, ReadEvent.size]
    refine ⟨by omega, ?_⟩
    intro hbuffer
    have hfound := ih.2 hbuffer
    omega
  | case3 failure script hfailure =>
    simp only [fillReads, if_neg hfailure, ReadEvent.totalSize, ReadEvent.size]
    omega
  | case4 bytes script =>
    simp only [fillReads, ReadEvent.totalSize, ReadEvent.size]
    omega
  | case5 bytes script n =>
    have hleft := totalSize_leftover_le (bytes.drop n) script
    simp only [fillReads, ReadEvent.totalSize, ReadEvent.size, List.length_drop] at hleft ⊢
    refine ⟨by omega, ?_⟩
    intro hbuffer
    have hpos := List.length_pos_iff.mpr hbuffer
    rw [List.length_take] at hpos
    omega

lemma byteReads_le (r : ByteReader) :
    r.byteReads + ReadEvent.totalSize r.nextByte.2.script ≤
      ReadEvent.totalSize r.script + spare r.nextByte.1 := by
  obtain ⟨capacity, buffer, script⟩ := r
  cases buffer with
  | cons b buffer => simp [byteReads, nextByte, filled, spare]
  | nil =>
    have hreads := fillReads_le capacity script
    have hfilled : filled { capacity, script } = fill capacity script := rfl
    simp only [byteReads, nextByte, hfilled, List.isEmpty_nil, if_true]
    rcases hfill : fill capacity script with ⟨failure | _, s⟩
    · rw [hfill] at hreads
      exact hreads.1
    · rw [hfill] at hreads
      cases hbuffer : s.buffer with
      | nil =>
        simp only [hbuffer]
        exact hreads.1
      | cons b buffer =>
        simp only [hbuffer]
        exact hreads.2 (by simp [hbuffer])

lemma continuationReads_le (r : ByteReader) (n : Nat) :
    r.continuationReads n + ReadEvent.totalSize (r.nextContinuation n).2.script ≤
      ReadEvent.totalSize r.script + spare ((r.nextContinuation n).1.map some) := by
  induction n generalizing r with
  | zero => simp [continuationReads, nextContinuation]
  | succ n ih =>
    have hbyte := r.byteReads_le
    rw [continuationReads, nextContinuation]
    rcases hnext : r.nextByte with ⟨failure | found, s⟩
    · rw [hnext] at hbyte
      exact hbyte
    · rw [hnext] at hbyte
      cases found with
      | none => exact hbyte
      | some b =>
        have hlater := ih s
        dsimp only [spare] at hbyte ⊢
        cases hb : Utf8.isContinuation b with
        | false =>
          simp only [Bool.false_eq_true, if_false, Except.map]
          omega
        | true =>
          simp only [if_true]
          rcases hrest : s.nextContinuation n with ⟨failure | bytes, t⟩
          · rw [hrest] at hlater
            simp only [Except.map, spare] at hlater ⊢
            omega
          · rw [hrest] at hlater
            simp only [Except.map, spare] at hlater ⊢
            omega

/-- A read for a character takes something out of the script, but for one read at most, and only
if there is no character. -/
theorem charReads_le (r : ByteReader) :
    r.charReads + ReadEvent.totalSize r.nextChar.2.script ≤
      ReadEvent.totalSize r.script + spare r.nextChar.1 := by
  have hbyte := r.byteReads_le
  rw [charReads, nextChar]
  rcases hnext : r.nextByte with ⟨failure | found, s⟩
  · rw [hnext] at hbyte
    exact hbyte
  · rw [hnext] at hbyte
    cases found with
    | none => exact hbyte
    | some lead =>
      dsimp only [spare] at hbyte ⊢
      cases hlead : Utf8.trailing? lead with
      | none =>
        simp only [Option.elim]
        omega
      | some n =>
        have hlater := s.continuationReads_le n
        simp only [Option.elim]
        rcases hrest : s.nextContinuation n with ⟨failure | bytes, t⟩
        · rw [hrest] at hlater
          simp only [Except.map, spare] at hlater ⊢
          omega
        · rw [hrest] at hlater
          simp only [Except.map, spare] at hlater
          dsimp only
          cases Utf8.decode (lead :: bytes) with
          | none =>
            dsimp only
            omega
          | some c =>
            dsimp only
            omega

end ByteReader

/-- A reader with the number of reads of its device so far. -/
structure Metered where
  reader : ByteReader
  reads : Nat := 0

instance : CharFeed Metered where
  next m := (m.reader.nextChar.1, ⟨m.reader.nextChar.2, m.reads + m.reader.charReads⟩)
  size m := m.reader.size
  size_next_le m := m.reader.size_nextChar_le
  size_next_lt m _ h := ByteReader.size_nextChar_lt (s := m.reader.nextChar.2) (Prod.ext h rfl)

lemma metered_keepsAnswers : CharFeed.KeepsAnswers Metered.reader := fun _ => rfl

namespace Source

/-- The reads so far, and as many as may come before the end of the input is known or a read
fails. -/
def readsBound (s : Source Metered) : Nat :=
  s.feed.reads + ReadEvent.totalSize s.feed.reader.script +
    match s.lookahead with
    | .ended => 0
    | .unread | .char _ => 1

variable {s t u : Source Metered}

lemma reads_le_readsBound (s : Source Metered) : s.feed.reads ≤ s.readsBound := by
  unfold readsBound
  omega

/-- A look ahead spends no more than was allowed for, and leaves an allowance unless it fails. -/
lemma readsBound_of_peek {answer : Except LexError (Option Char)} (h : s.peek = (answer, t)) :
    t.feed.reads ≤ s.readsBound ∧ ∀ found, answer = .ok found → t.readsBound ≤ s.readsBound := by
  obtain ⟨feed, position, lookahead⟩ := s
  cases lookahead with
  | char c =>
    cases h
    exact ⟨reads_le_readsBound _, fun _ _ => Nat.le_refl _⟩
  | ended =>
    cases h
    exact ⟨reads_le_readsBound _, fun _ _ => Nat.le_refl _⟩
  | unread =>
    have hreads := feed.reader.charReads_le
    have hnext : CharFeed.next feed = (feed.reader.nextChar.1,
        ⟨feed.reader.nextChar.2, feed.reads + feed.reader.charReads⟩) := rfl
    simp only [peek, hnext] at h
    rcases hchar : feed.reader.nextChar with ⟨failure | found, r⟩
    · rw [hchar] at h hreads
      cases h
      simp only [ByteReader.spare] at hreads
      simp only [readsBound]
      exact ⟨by omega, by simp⟩
    · rw [hchar] at h hreads
      cases found with
      | none =>
        cases h
        simp only [ByteReader.spare] at hreads
        simp only [readsBound]
        exact ⟨by omega, fun _ _ => by omega⟩
      | some c =>
        cases h
        simp only [ByteReader.spare] at hreads
        simp only [readsBound]
        exact ⟨by omega, fun _ _ => by omega⟩

lemma readsBound_take {c : Char} (h : s.peek = (.ok (some c), t)) :
    (t.take c).readsBound ≤ s.readsBound := by
  have hheld := held_of_peek h
  have hpeek := (readsBound_of_peek h).2 _ rfl
  obtain ⟨feed, position, lookahead⟩ := t
  cases lookahead with
  | char d => exact hpeek
  | ended => cases hheld
  | unread => cases hheld

theorem Takes.readsBound_le {cs : List Char} (h : s.Takes cs t) : t.readsBound ≤ s.readsBound := by
  induction h with
  | nil => exact Nat.le_refl _
  | look hpeek _ ih => exact Nat.le_trans ih ((readsBound_of_peek hpeek).2 _ rfl)
  | char hpeek _ ih => exact Nat.le_trans ih (readsBound_take hpeek)

lemma Finds.readsBound_le {c : Char} (h : s.Finds c t) : t.readsBound ≤ s.readsBound := by
  obtain ⟨blanks, -, htakes⟩ := h.takesBlanks
  exact htakes.readsBound_le

lemma LeftBy.reads_le {o : Options} {e : LexError} (h : s.LeftBy o e t) :
    t.feed.reads ≤ s.readsBound := by
  have hreads := t.reads_le_readsBound
  cases h with
  | tooManyTokens hfinds => exact Nat.le_trans hreads hfinds.readsBound_le
  | unexpectedCharacter hfinds => exact Nat.le_trans hreads hfinds.readsBound_le
  | loneSlash hfinds htakes =>
    exact Nat.le_trans hreads (Nat.le_trans htakes.readsBound_le hfinds.readsBound_le)
  | unterminated hfinds htakes =>
    exact Nat.le_trans hreads (Nat.le_trans htakes.readsBound_le hfinds.readsBound_le)
  | tokenTooLong hfinds htakes =>
    exact Nat.le_trans hreads (Nat.le_trans htakes.readsBound_le hfinds.readsBound_le)
  | readFailed htakes hpeek =>
    exact Nat.le_trans (readsBound_of_peek hpeek).1 htakes.readsBound_le

end Source

namespace Lexer

/-- A finished lexer does not read any more. -/
def readsBound (l : Lexer Metered) : Nat :=
  if l.isFinished then l.source.feed.reads else l.source.readsBound

lemma readsBound_of_running {l : Lexer Metered} (h : l.status = .running) :
    l.readsBound = l.source.readsBound := by
  rw [readsBound, isFinished_eq_false_iff.mpr h]
  rfl

theorem readsBound_nextToken (l : Lexer Metered) : l.nextToken.2.readsBound ≤ l.readsBound := by
  cases hrun : l.isFinished with
  | true =>
    obtain ⟨answer, hnext, -⟩ := nextToken_of_finished hrun
    rw [hnext]
  | false =>
    have hrunning := isFinished_eq_false_iff.mp hrun
    have hdrawn := drawn_nextToken hrunning
    rw [readsBound_of_running hrunning]
    generalize l.nextToken.1 = answer, l.nextToken.2 = m at hdrawn
    cases hdrawn with
    | token hscan htoken =>
      obtain ⟨⟨cs, htakes⟩, -⟩ := looksAhead_of_scanToken hscan
      exact Nat.le_trans (Nat.le_of_eq (readsBound_of_running hrunning)) htakes.readsBound_le
    | @ended s hscan =>
      obtain ⟨⟨cs, htakes⟩, -⟩ := looksAhead_of_scanToken hscan
      exact Nat.le_trans s.reads_le_readsBound htakes.readsBound_le
    | failed hscan => exact (leftBy_of_scanToken hscan).reads_le

theorem readsBound_respond (calls : List Call) (l : Lexer Metered) :
    (respond calls l).2.readsBound ≤ l.readsBound := by
  induction calls generalizing l with
  | nil => exact Nat.le_refl _
  | cons call calls ih =>
    have hlater := ih (call.run l).2
    rcases (call_run_cases call l).1 with hsame | hmoved
    · rw [hsame] at hlater
      simpa only [respond, hsame] using hlater
    · rw [hmoved] at hlater
      simp only [respond, hmoved]
      exact Nat.le_trans hlater (readsBound_nextToken l)

/-- A lexer over a reader, with a meter or without. -/
def overReader (r : ByteReader) (options : Options) : Lexer ByteReader :=
  ofSource (.ofFeed r) options

def overMetered (r : ByteReader) (options : Options) : Lexer Metered :=
  ofSource (.ofFeed { reader := r }) options

/-- However many calls there are, the meter stands at the reads that leave of the script what is
left of it. -/
theorem leavesAfter_respond (r : ByteReader) (options : Options) (calls : List Call) :
    ByteReader.LeavesAfter (respond calls (overMetered r options)).2.source.feed.reads r
      (respond calls (overMetered r options)).2.source.feed.reader := by
  let P (m : Metered) : Prop := ByteReader.LeavesAfter m.reads r m.reader
  have hP : ∀ m : Metered, P m → P (CharFeed.next m).2 :=
    fun m hm => ByteReader.LeavesAfter.trans hm m.reader.leavesAfter_nextChar
  exact feed_respond hP (l := overMetered r options) ⟨rfl, .none⟩ calls

/-- The meter changes nothing, and however many calls there are, it stands at no more than the bytes
and the events of the script, and one. -/
theorem respond_metered (r : ByteReader) (options : Options) (calls : List Call) :
    (respond calls (overMetered r options)).1 = (respond calls (overReader r options)).1 ∧
      (respond calls (overMetered r options)).2.map Metered.reader =
        (respond calls (overReader r options)).2 ∧
      (respond calls (overMetered r options)).2.source.feed.reads ≤
        ReadEvent.totalSize r.script + 1 := by
  have hmap := respond_map metered_keepsAnswers calls (overMetered r options)
  have hplain : (overMetered r options).map Metered.reader = overReader r options := rfl
  have hbound := readsBound_respond calls (overMetered r options)
  have hstart : (overMetered r options).readsBound = ReadEvent.totalSize r.script + 1 := by
    rw [readsBound_of_running rfl]
    simp [overMetered, ofSource, Source.ofFeed, Source.readsBound]
  rw [hplain] at hmap
  rw [hmap]
  refine ⟨rfl, rfl, ?_⟩
  rw [hstart] at hbound
  refine Nat.le_trans ?_ hbound
  unfold readsBound
  split
  · exact Nat.le_refl _
  · exact Source.reads_le_readsBound _

end Lexer

end GrammarTokens
