import GrammarTokens.ReadFailure

/-!
# Single characters of UTF-8

A lead byte announces how many continuation bytes follow it, and the bytes together are a
character or not. `decode_eq_some_iff` says that exactly the encodings of characters are
decoded, so no overlong form and no surrogate passes.
-/

namespace GrammarTokens

namespace Utf8

/-- The number of continuation bytes that a lead byte announces; `none` for a byte that leads
no sequence. -/
def trailing? (lead : UInt8) : Option Nat :=
  if lead < 0x80 then some 0
  else if lead < 0xC0 then none
  else if lead < 0xE0 then some 1
  else if lead < 0xF0 then some 2
  else if lead < 0xF8 then some 3
  else none

/-- Whether the two high bits of a byte are those of a continuation byte. -/
def isContinuation (b : UInt8) : Bool := b &&& 0xC0 == 0x80

/-- The character whose encoding the bytes are. -/
def decode (bytes : List UInt8) : Option Char :=
  (bytes.toByteArray.utf8DecodeChar? 0).filter (String.utf8EncodeChar · == bytes)

theorem decode_eq_some_iff {bytes : List UInt8} {c : Char} :
    decode bytes = some c ↔ String.utf8EncodeChar c = bytes := by
  constructor
  · intro h
    simpa using (Option.filter_eq_some_iff.1 h).2
  · rintro rfl
    have h := ByteArray.utf8DecodeChar?_utf8EncodeChar_append (b := ByteArray.empty) (c := c)
    rw [ByteArray.append_empty] at h
    simp [decode, h]

/-- What is wrong with a sequence of bytes. -/
inductive Fault where
  /-- No sequence begins with the byte. -/
  | lead (b : UInt8)
  /-- The byte stands where a continuation byte is due. -/
  | continuation (b : UInt8)
  /-- The input ends within a sequence. -/
  | truncated
  /-- The sequence has the announced length but is the encoding of no character. -/
  | sequence
deriving DecidableEq, Repr, Inhabited

/-- A byte in two hexadecimal digits. -/
def hexByte (b : UInt8) : String :=
  String.ofList [Nat.digitChar (b.toNat / 16), Nat.digitChar (b.toNat % 16)]

/-- The fault in words. -/
def Fault.message : Fault → String
  | lead b => s!"invalid UTF-8 lead byte 0x{hexByte b}"
  | continuation b => s!"invalid UTF-8 continuation byte 0x{hexByte b}"
  | truncated => "truncated UTF-8 sequence at end of input"
  | sequence => "invalid UTF-8 sequence"

/-- A fault in the bytes is a failure to read text from them. -/
def Fault.failure (fault : Fault) : ReadFailure := ⟨.invalidData, fault.message⟩

end Utf8

end GrammarTokens
