import GrammarTokens.Capacity
import GrammarTokens.Source
import GrammarTokens.Utf8

/-!
# Buffered readers of bytes

A reader yields what its script holds: data in pieces of any size, and failures. It keeps a
buffer and turns to the script only when the buffer is empty. A character is decoded byte by
byte, so it makes no difference where the data is cut.
-/

namespace GrammarTokens

/-- What one read of the underlying device yields. Data of no bytes is the end of the input at
that moment. -/
inductive ReadEvent where
  | data (bytes : List UInt8)
  | failed (failure : ReadFailure)
deriving DecidableEq, Repr, Inhabited

/-- The bytes of the event, and one for the event itself. -/
def ReadEvent.size : ReadEvent → Nat
  | data bytes => bytes.length + 1
  | failed _ => 1

/-- The bytes of all events, and one for each event itself. -/
def ReadEvent.totalSize : List ReadEvent → Nat
  | [] => 0
  | event :: script => event.size + totalSize script

/-- A buffer of bytes before the events that are still to come. A read takes no more bytes than
the buffer has capacity for, if it has a capacity. After the last event the input is at its
end. -/
structure ByteReader where
  capacity : Option Nat := none
  buffer : List UInt8 := []
  script : List ReadEvent := []
deriving DecidableEq, Repr, Inhabited

namespace ByteReader

/-- A reader that has all bytes in its buffer from the start. -/
def ofBytes (bytes : List UInt8) : ByteReader := { buffer := bytes }

/-- A reader that takes its bytes from a device, so many at a time. -/
def buffered (capacity : Nat) (script : List ReadEvent) : ByteReader :=
  { capacity := some capacity, script }

/-- A reader with a buffer of a given size, unless memory has no room for the buffer. -/
def buffered? (capacity : Nat) (script : List ReadEvent) : Option ByteReader :=
  if capacity ≤ maxCapacity then some (buffered capacity script) else none

/-- A bound on the number of bytes that can still be read. -/
def size (r : ByteReader) : Nat :=
  r.buffer.length + ReadEvent.totalSize r.script

/-- Data that is too long for the buffer stays first in the script. -/
def leftover (bytes : List UInt8) (script : List ReadEvent) : List ReadEvent :=
  if bytes.isEmpty then script else .data bytes :: script

/-- Reads into an empty buffer. Interrupted reads are tried again, and any other failure is
passed on and forgotten. -/
def fill (capacity : Option Nat) : List ReadEvent → Except ReadFailure Unit × ByteReader
  | [] => (.ok (), { capacity })
  | .failed failure :: script =>
    if failure.isInterruption then fill capacity script
    else (.error failure, { capacity, script })
  | .data bytes :: script =>
    match capacity with
    | none => (.ok (), { capacity, buffer := bytes, script })
    | some n =>
      (.ok (), { capacity, buffer := bytes.take n, script := leftover (bytes.drop n) script })

/-- The reader with something in its buffer, if there is anything to read. -/
def filled (r : ByteReader) : Except ReadFailure Unit × ByteReader :=
  if r.buffer.isEmpty then fill r.capacity r.script else (.ok (), r)

/-- Takes the next byte, which is `none` at the end of the input. -/
def nextByte (r : ByteReader) : Except ReadFailure (Option UInt8) × ByteReader :=
  match r.filled with
  | (.error failure, r) => (.error failure, r)
  | (.ok (), r) =>
    match r.buffer with
    | [] => (.ok none, r)
    | b :: buffer => (.ok (some b), { r with buffer })

/-- Takes `n` continuation bytes. A byte that is none has been taken as well. -/
def nextContinuation (r : ByteReader) : Nat → Except ReadFailure (List UInt8) × ByteReader
  | 0 => (.ok [], r)
  | n + 1 =>
    match r.nextByte with
    | (.error failure, r) => (.error failure, r)
    | (.ok none, r) => (.error Utf8.Fault.truncated.failure, r)
    | (.ok (some b), r) =>
      if Utf8.isContinuation b then
        match r.nextContinuation n with
        | (.error failure, r) => (.error failure, r)
        | (.ok bytes, r) => (.ok (b :: bytes), r)
      else (.error (Utf8.Fault.continuation b).failure, r)

/-- Takes the next character, which is `none` at the end of the input. The bytes of a faulty
sequence are gone, up to and including the one that showed the fault. -/
def nextChar (r : ByteReader) : Except ReadFailure (Option Char) × ByteReader :=
  match r.nextByte with
  | (.error failure, r) => (.error failure, r)
  | (.ok none, r) => (.ok none, r)
  | (.ok (some lead), r) =>
    match Utf8.trailing? lead with
    | none => (.error (Utf8.Fault.lead lead).failure, r)
    | some n =>
      match r.nextContinuation n with
      | (.error failure, r) => (.error failure, r)
      | (.ok bytes, r) =>
        match Utf8.decode (lead :: bytes) with
        | none => (.error Utf8.Fault.sequence.failure, r)
        | some c => (.ok (some c), r)

theorem totalSize_leftover_le (bytes : List UInt8) (script : List ReadEvent) :
    ReadEvent.totalSize (leftover bytes script) ≤
      bytes.length + 1 + ReadEvent.totalSize script := by
  unfold leftover
  split
  · omega
  · simp [ReadEvent.totalSize, ReadEvent.size]

theorem size_fill_le (capacity : Option Nat) (script : List ReadEvent) :
    (fill capacity script).2.size ≤ ReadEvent.totalSize script := by
  fun_induction fill capacity script with
  | case1 => exact Nat.le_refl 0
  | case2 failure script h ih => exact Nat.le_trans ih (Nat.le_add_left _ _)
  | case3 failure script h => simp [size, ReadEvent.totalSize, ReadEvent.size]
  | case4 bytes script => simp [size, ReadEvent.totalSize, ReadEvent.size]
  | case5 bytes script n =>
    have hleft := totalSize_leftover_le (bytes.drop n) script
    simp only [size, ReadEvent.totalSize, ReadEvent.size, List.length_take,
      List.length_drop] at hleft ⊢
    omega

theorem size_filled_le (r : ByteReader) : r.filled.2.size ≤ r.size := by
  unfold filled
  split
  · exact Nat.le_trans (size_fill_le _ _) (Nat.le_add_left _ _)
  · exact Nat.le_refl _

theorem size_nextByte_le (r : ByteReader) : r.nextByte.2.size ≤ r.size := by
  have hle := r.size_filled_le
  rw [nextByte]
  split
  · next hfilled => rwa [hfilled] at hle
  · next hfilled =>
    rw [hfilled] at hle
    split
    · exact hle
    · next hbuffer =>
      simp only [size, hbuffer, List.length_cons] at hle ⊢
      omega

theorem size_nextByte_lt {r s : ByteReader} {b : UInt8} (h : r.nextByte = (.ok (some b), s)) :
    s.size < r.size := by
  have hle := r.size_filled_le
  rw [nextByte] at h
  split at h
  · cases h
  · next hfilled =>
    rw [hfilled] at hle
    split at h
    · cases h
    · next hbuffer =>
      cases h
      simp only [size, hbuffer, List.length_cons] at hle ⊢
      omega

theorem size_nextContinuation_le (r : ByteReader) (n : Nat) :
    (r.nextContinuation n).2.size ≤ r.size := by
  induction n generalizing r with
  | zero => exact Nat.le_refl _
  | succ n ih =>
    have hbyte := r.size_nextByte_le
    rw [nextContinuation]
    generalize r.nextByte = answer at hbyte ⊢
    obtain ⟨failure | _ | b, s⟩ := answer
    · exact hbyte
    · exact hbyte
    · have hlater := Nat.le_trans (ih s) hbyte
      dsimp only
      split
      · rcases hrest : s.nextContinuation n with ⟨failure | bytes, t⟩
        · rwa [hrest] at hlater
        · rwa [hrest] at hlater
      · exact hbyte

theorem size_nextChar_le (r : ByteReader) : r.nextChar.2.size ≤ r.size := by
  have hbyte := r.size_nextByte_le
  rw [nextChar]
  generalize r.nextByte = answer at hbyte ⊢
  obtain ⟨failure | _ | lead, s⟩ := answer
  · exact hbyte
  · exact hbyte
  · dsimp only
    split
    · exact hbyte
    · next n _ =>
      have hlater := Nat.le_trans (s.size_nextContinuation_le n) hbyte
      rcases hrest : s.nextContinuation n with ⟨failure | bytes, t⟩
      · rwa [hrest] at hlater
      · rw [hrest] at hlater
        dsimp only
        split <;> exact hlater

theorem size_nextChar_lt {r s : ByteReader} {c : Char} (h : r.nextChar = (.ok (some c), s)) :
    s.size < r.size := by
  rw [nextChar] at h
  split at h
  · cases h
  · cases h
  · next lead t hbyte =>
    have hlt := size_nextByte_lt hbyte
    split at h
    · cases h
    · next n _ =>
      have hle := t.size_nextContinuation_le n
      split at h
      · cases h
      · next hrest =>
        rw [hrest] at hle
        split at h
        · cases h
        · cases h
          exact Nat.lt_of_le_of_lt hle hlt

instance : CharFeed ByteReader where
  next := nextChar
  size := size
  size_next_le := size_nextChar_le
  size_next_lt r _ h := size_nextChar_lt (s := r.nextChar.2) (Prod.ext h rfl)

/-- Takes what is left, up to the end of the input or a failure that is passed on: the bytes in
the buffer, then those of the script. -/
def readToEnd (r : ByteReader) : List UInt8 × Option ReadFailure × ByteReader :=
  match _h : r.nextByte with
  | (.error failure, r) => ([], some failure, r)
  | (.ok none, r) => ([], none, r)
  | (.ok (some b), r) =>
    let (bytes, failure, r) := r.readToEnd
    (b :: bytes, failure, r)
termination_by r.size
decreasing_by exact size_nextByte_lt _h

end ByteReader

end GrammarTokens
