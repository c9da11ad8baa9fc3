import GrammarTokens.Position
import GrammarTokens.Utf8
import Mathlib.Tactic.Lemma

/-!
# The shape of encoded characters

The encoding of a character is a lead byte, which announces how many bytes follow, and that
many continuation bytes. A text is encoded character by character.
-/

namespace GrammarTokens

def utf8Bytes (cs : List Char) : List UInt8 := cs.flatMap String.utf8EncodeChar

@[simp] lemma utf8Bytes_nil : utf8Bytes [] = [] := rfl

@[simp] lemma utf8Bytes_cons (c : Char) (cs : List Char) :
    utf8Bytes (c :: cs) = String.utf8EncodeChar c ++ utf8Bytes cs := rfl

lemma utf8Bytes_append (cs ds : List Char) : utf8Bytes (cs ++ ds) = utf8Bytes cs ++ utf8Bytes ds :=
  List.flatMap_append

lemma length_utf8Bytes (cs : List Char) : (utf8Bytes cs).length = utf8Length cs := by
  induction cs with
  | nil => rfl
  | cons c cs ih =>
    rw [utf8Bytes_cons, List.length_append, String.length_utf8EncodeChar, ih, utf8Length_cons]

namespace Utf8

lemma isContinuation_low_bits : ∀ n < 64, isContinuation (UInt8.ofNat (n + 0x80)) := by decide

lemma trailing?_one_byte : ∀ n < 128, trailing? (UInt8.ofNat n) = some 0 := by decide

lemma trailing?_two_bytes : ∀ n < 32, trailing? (UInt8.ofNat (n + 0xC0)) = some 1 := by decide

lemma trailing?_three_bytes : ∀ n < 16, trailing? (UInt8.ofNat (n + 0xE0)) = some 2 := by decide

lemma trailing?_four_bytes : ∀ n < 8, trailing? (UInt8.ofNat (n + 0xF0)) = some 3 := by decide

theorem utf8EncodeChar_eq_lead_trail (c : Char) :
    ∃ lead trail, String.utf8EncodeChar c = lead :: trail ∧
      trailing? lead = some trail.length ∧ ∀ b ∈ trail, isContinuation b := by
  have hcontinuation (n : Nat) : isContinuation (UInt8.ofNat (n % 64 + 0x80)) :=
    isContinuation_low_bits _ (Nat.mod_lt n (by decide))
  unfold String.utf8EncodeChar
  dsimp only
  split
  · next h => exact ⟨_, _, rfl, trailing?_one_byte _ (by omega), by simp⟩
  · split
    · refine ⟨_, _, rfl, trailing?_two_bytes _ (by omega), ?_⟩
      simp [hcontinuation, -UInt8.ofNat_add]
    · split
      · refine ⟨_, _, rfl, trailing?_three_bytes _ (by omega), ?_⟩
        simp [hcontinuation, -UInt8.ofNat_add]
      · refine ⟨_, _, rfl, trailing?_four_bytes _ (by omega), ?_⟩
        simp [hcontinuation, -UInt8.ofNat_add]

end Utf8

end GrammarTokens
