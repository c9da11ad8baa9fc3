import GrammarTokens.Proofs.Encoding
import GrammarTokens.Proofs.Outlook

/-!
# Where bytes stop being text

Bytes that begin with the encoding of no character show a fault, unless the input ends or fails
where a character or a continuation byte is due. Each of these is one kind of failure.
-/

namespace GrammarTokens

namespace Utf8

/-- What there is in place of a continuation byte that is due, and the failure that this causes. -/
inductive Missing : List UInt8 → Ending → ReadFailure → Prop where
  | truncated : Missing [] .ended Fault.truncated.failure
  | failed {failure : ReadFailure} : Missing [] (.failed failure) failure
  | continuation {b : UInt8} {after : List UInt8} {ending : Ending} :
    isContinuation b = false → Missing (b :: after) ending (Fault.continuation b).failure

/-- Bytes, and how the input ends behind them, that give no character, and the failure that this
causes. -/
inductive Breaks : List UInt8 → Ending → ReadFailure → Prop where
  | failed {failure : ReadFailure} : Breaks [] (.failed failure) failure
  | lead {b : UInt8} {after : List UInt8} {ending : Ending} :
    trailing? b = none → Breaks (b :: after) ending (Fault.lead b).failure
  | missing {lead : UInt8} {n : Nat} {trail after : List UInt8} {ending : Ending}
    {failure : ReadFailure} : trailing? lead = some n → trail.length < n →
    (∀ b ∈ trail, isContinuation b) → Missing after ending failure →
    Breaks (lead :: trail ++ after) ending failure
  | sequence {lead : UInt8} {trail after : List UInt8} {ending : Ending} :
    trailing? lead = some trail.length → (∀ b ∈ trail, isContinuation b) →
    (∀ c, String.utf8EncodeChar c ≠ lead :: trail) →
    Breaks (lead :: trail ++ after) ending Fault.sequence.failure

lemma exists_continuations (n : Nat) (bytes : List UInt8) :
    ∃ trail after, bytes = trail ++ after ∧ (∀ b ∈ trail, isContinuation b) ∧
      (trail.length = n ∨ trail.length < n ∧ ∀ b ∈ after.head?, isContinuation b = false) := by
  induction n generalizing bytes with
  | zero => exact ⟨[], bytes, rfl, by simp, .inl rfl⟩
  | succ n ih =>
    cases bytes with
    | nil => exact ⟨[], [], rfl, by simp, .inr ⟨Nat.succ_pos n, by simp⟩⟩
    | cons b bytes =>
      cases hb : isContinuation b with
      | false => exact ⟨[], b :: bytes, rfl, by simp, .inr ⟨Nat.succ_pos n, by simpa using hb⟩⟩
      | true =>
        obtain ⟨trail, after, rfl, htrail, hlength⟩ := ih bytes
        refine ⟨b :: trail, after, rfl, ?_, ?_⟩
        · intro d hd
          rcases List.mem_cons.mp hd with rfl | hd
          · exact hb
          · exact htrail d hd
        · simpa using hlength

lemma exists_missing {bytes : List UInt8} (h : ∀ b ∈ bytes.head?, isContinuation b = false)
    (ending : Ending) : ∃ failure, Missing bytes ending failure := by
  cases bytes with
  | cons b bytes => exact ⟨_, .continuation (h b rfl)⟩
  | nil =>
    cases ending with
    | ended => exact ⟨_, .truncated⟩
    | failed failure => exact ⟨failure, .failed⟩

/-- Where no character is encoded, the input ends or there is a failure. -/
theorem exists_breaks {bytes : List UInt8} (h : ∀ c, ¬ String.utf8EncodeChar c <+: bytes)
    (ending : Ending) : bytes = [] ∧ ending = .ended ∨ ∃ failure, Breaks bytes ending failure := by
  cases bytes with
  | nil =>
    cases ending with
    | ended => exact .inl ⟨rfl, rfl⟩
    | failed failure => exact .inr ⟨failure, .failed⟩
  | cons lead bytes =>
    right
    cases hlead : trailing? lead with
    | none => exact ⟨_, .lead hlead⟩
    | some n =>
      obtain ⟨trail, after, rfl, htrail, rfl | ⟨hshort, hafter⟩⟩ := exists_continuations n bytes
      · refine ⟨_, .sequence hlead htrail ?_⟩
        intro c hc
        exact h c ⟨after, by rw [hc]; rfl⟩
      · obtain ⟨failure, hmissing⟩ := exists_missing hafter ending
        exact ⟨failure, .missing hlead hshort htrail hmissing⟩

lemma kind_of_breaks {bytes : List UInt8} {failure : ReadFailure}
    (h : Breaks bytes .ended failure) : failure.kind = .invalidData := by
  cases h with
  | lead => rfl
  | missing _ _ _ hmissing => cases hmissing <;> rfl
  | sequence => rfl

end Utf8

end GrammarTokens
