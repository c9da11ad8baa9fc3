import GrammarTokens.Proofs.Delivery
import GrammarTokens.Proofs.Pending
import GrammarTokens.Proofs.Positions

/-!
# Decoding delivered bytes

`IsLongestText` says which text is decoded from bytes, with no reference to how. A source of the
bytes hands out this text and then ends, or fails at the position behind the text.
-/

namespace GrammarTokens

/-- The bytes begin with this text, and with no text that has a longer encoding. -/
def IsLongestText (bytes : List UInt8) (text : List Char) : Prop :=
  utf8Bytes text <+: bytes ∧
    ∀ other, utf8Bytes other <+: bytes → (utf8Bytes other).length ≤ (utf8Bytes text).length

lemma encoded_char_unique {c d : Char} {bytes : List UInt8}
    (hc : String.utf8EncodeChar c <+: bytes) (hd : String.utf8EncodeChar d <+: bytes) :
    c = d := by
  -- A reader that has the bytes in its buffer can hand out only one of the two.
  have hhands : (ByteReader.ofBytes bytes).HandsOut bytes .ended :=
    ⟨nofun, [], (List.append_nil bytes).symm, .ended⟩
  have hnext {x : Char} (hx : String.utf8EncodeChar x <+: bytes) :
      ((ByteReader.ofBytes bytes).nextChar).1 = .ok (some x) := by
    obtain ⟨after, heq⟩ := hx
    rw [← heq] at hhands ⊢
    obtain ⟨s, hs, -⟩ := ByteReader.nextChar_of_char hhands
    rw [hs]
  have heq := (hnext hc).symm.trans (hnext hd)
  exact Option.some.inj (Except.ok.inj heq)

/-- An encoded text that stands in front cannot go past a text that cannot be gone on with. -/
lemma text_of_utf8Bytes_front {text other : List Char} {rest : List UInt8}
    (hrest : ∀ c, ¬ String.utf8EncodeChar c <+: rest)
    (h : utf8Bytes other <+: utf8Bytes text ++ rest) : other <+: text := by
  induction text generalizing other with
  | nil =>
    cases other with
    | nil => exact List.prefix_rfl
    | cons d other =>
      rw [utf8Bytes_nil, List.nil_append, utf8Bytes_cons] at h
      exact absurd ((List.prefix_append _ _).trans h) (hrest d)
  | cons c text ih =>
    cases other with
    | nil => exact List.nil_prefix
    | cons d other =>
      rw [utf8Bytes_cons, utf8Bytes_cons, List.append_assoc] at h
      have hd := (List.prefix_append _ (utf8Bytes other)).trans h
      have hc := List.prefix_append (String.utf8EncodeChar c) (utf8Bytes text ++ rest)
      rw [encoded_char_unique hd hc, List.prefix_append_right_inj] at h
      rw [encoded_char_unique hd hc, List.cons_prefix_cons]
      exact ⟨rfl, ih h⟩

lemma exists_text_and_rest (bytes : List UInt8) :
    ∃ text rest, bytes = utf8Bytes text ++ rest ∧ ∀ c, ¬ String.utf8EncodeChar c <+: rest := by
  induction hn : bytes.length using Nat.strongRecOn generalizing bytes with
  | ind n ih =>
    by_cases h : ∃ c, String.utf8EncodeChar c <+: bytes
    · obtain ⟨c, after, rfl⟩ := h
      have hpos := Char.utf8Size_pos c
      rw [List.length_append, String.length_utf8EncodeChar] at hn
      obtain ⟨text, rest, rfl, hrest⟩ := ih after.length (by omega) after rfl
      refine ⟨c :: text, rest, ?_, hrest⟩
      rw [utf8Bytes_cons, List.append_assoc]
    · exact ⟨[], bytes, rfl, fun c hc => h ⟨c, hc⟩⟩

lemma isLongestText_append {text : List Char} {rest : List UInt8}
    (hrest : ∀ c, ¬ String.utf8EncodeChar c <+: rest) :
    IsLongestText (utf8Bytes text ++ rest) text := by
  refine ⟨List.prefix_append _ _, ?_⟩
  intro other hother
  obtain ⟨more, rfl⟩ := text_of_utf8Bytes_front hrest hother
  rw [utf8Bytes_append, List.length_append]
  exact Nat.le_add_right _ _

lemma rest_of_isLongestText {text : List Char} {rest : List UInt8}
    (h : IsLongestText (utf8Bytes text ++ rest) text) (c : Char) :
    ¬ String.utf8EncodeChar c <+: rest := by
  rintro ⟨after, rfl⟩
  have hpos := Char.utf8Size_pos c
  have hlonger : utf8Bytes (text ++ [c]) <+:
      utf8Bytes text ++ (String.utf8EncodeChar c ++ after) := by
    rw [utf8Bytes_append, List.prefix_append_right_inj, utf8Bytes_cons, utf8Bytes_nil,
      List.append_nil]
    exact List.prefix_append _ _
  have hle := h.2 _ hlonger
  rw [length_utf8Bytes, length_utf8Bytes, utf8Length_append, utf8Length_cons, utf8Length_nil] at hle
  omega

theorem existsUnique_longest_text (bytes : List UInt8) : ∃! text, IsLongestText bytes text := by
  obtain ⟨text, rest, rfl, hrest⟩ := exists_text_and_rest bytes
  refine ⟨text, isLongestText_append hrest, ?_⟩
  intro other hother
  obtain ⟨more, rfl⟩ := text_of_utf8Bytes_front hrest hother.1
  have hle := hother.2 _ (List.prefix_append _ _)
  rw [length_utf8Bytes, length_utf8Bytes, utf8Length_append] at hle
  cases more with
  | nil => rw [List.append_nil]
  | cons c more =>
    have hpos := Char.utf8Size_pos c
    rw [utf8Length_cons] at hle
    omega

lemma answers_advance_of_isLongestText {r : ByteReader} {bytes : List UInt8} {text : List Char}
    (h : r.Delivers bytes) (htext : IsLongestText bytes text) :
    ∃ last, answers Source.advance (text.length + 1) (.ofFeed r) =
        text.map (fun c => .ok (some c)) ++ [last] ∧
      (utf8Bytes text = bytes → last = .ok none) ∧
      (utf8Bytes text ≠ bytes → ∃ failure, failure.kind = .invalidData ∧
        last = .error ⟨.readFailed failure, .after text⟩) := by
  obtain ⟨rest, rfl⟩ := htext.1
  obtain ⟨ending, hyields, hended, hfailed⟩ :=
    ByteReader.yields_of_delivers h (rest_of_isLongestText htext)
  have hanswers := Source.answers_advance_of_yields (Source.yields_ofFeed hyields)
  have hposition : (Source.ofFeed r).position.advanceBy text = .after text := advanceBy_start text
  rw [hposition] at hanswers
  refine ⟨_, hanswers, ?_, ?_⟩
  · intro heq
    rw [hended (List.self_eq_append_right.mp heq)]
    rfl
  · intro hne
    have hrest : rest ≠ [] := fun hnil => hne (by rw [hnil, List.append_nil])
    obtain ⟨failure, hkind, rfl⟩ := hfailed hrest
    exact ⟨failure, hkind, rfl⟩

/-- A source of delivered bytes hands out the longest text that they begin with. Then it ends, if
these are all the bytes, and otherwise refuses the data at the position behind the text. A text
is decoded from its own encoding, and no character comes from bytes that are not its encoding. -/
theorem advance_answers_longest_text {r : ByteReader} {bytes : List UInt8} (h : r.Delivers bytes) :
    (∃! text, IsLongestText bytes text) ∧
    (∀ text, IsLongestText bytes text →
      ∃ last, answers Source.advance (text.length + 1) (.ofFeed r) =
          text.map (fun c => .ok (some c)) ++ [last] ∧
        (utf8Bytes text = bytes → last = .ok none) ∧
        (utf8Bytes text ≠ bytes → ∃ failure, failure.kind = .invalidData ∧
          last = .error ⟨.readFailed failure, .after text⟩ ∧
          (Position.after text).offset = (utf8Bytes text).length)) ∧
    (∀ text, utf8Bytes text = bytes →
      answers Source.advance (text.length + 1) (.ofFeed r) =
        text.map (fun c => .ok (some c)) ++ [.ok none]) ∧
    ∀ s : Source ByteReader, ∃ given, s.pending = given ++ s.advance.2.pending ∧
      ∀ c, s.advance.1 = .ok (some c) → given = String.utf8EncodeChar c := by
  refine ⟨existsUnique_longest_text bytes, ?_, ?_, Source.advance_pending⟩
  · intro text htext
    obtain ⟨last, hanswers, hended, hfailed⟩ := answers_advance_of_isLongestText h htext
    refine ⟨last, hanswers, hended, ?_⟩
    intro hne
    obtain ⟨failure, hkind, hlast⟩ := hfailed hne
    exact ⟨failure, hkind, hlast, (length_utf8Bytes text).symm⟩
  · intro text htext
    have hlongest : IsLongestText bytes text := by
      refine ⟨htext ▸ List.prefix_rfl, ?_⟩
      intro other hother
      rw [htext]
      exact hother.length_le
    obtain ⟨last, hanswers, hended, -⟩ := answers_advance_of_isLongestText h hlongest
    rw [hanswers, hended htext]

/-- A two-byte character cut by an interruption, and then a byte that begins none. -/
theorem advance_answers_before_bad_byte :
    (ByteReader.buffered 2 [.data [0x61, 0xC3], .failed ⟨.interrupted, ""⟩,
      .data [0xA9, 0xFF, 0x62]]).Delivers [0x61, 0xC3, 0xA9, 0xFF, 0x62] ∧
    ∃ failure, failure.kind = .invalidData ∧
      answers Source.advance 3 (.ofFeed (ByteReader.buffered 2 [.data [0x61, 0xC3],
        .failed ⟨.interrupted, ""⟩, .data [0xA9, 0xFF, 0x62]])) =
        [.ok (some 'a'), .ok (some 'é'), .error ⟨.readFailed failure, ⟨1, 3, 3⟩⟩] := by
  have hscript : ReadEvent.Delivers [.data [0x61, 0xC3], .failed ⟨.interrupted, ""⟩,
      .data [0xA9, 0xFF, 0x62]] ([0x61, 0xC3] ++ ([0xA9, 0xFF, 0x62] ++ [])) :=
    .data (by decide) (.interrupted rfl (.data (by decide) .ended))
  have h : (ByteReader.buffered 2 [.data [0x61, 0xC3], .failed ⟨.interrupted, ""⟩,
      .data [0xA9, 0xFF, 0x62]]).Delivers [0x61, 0xC3, 0xA9, 0xFF, 0x62] :=
    ⟨by decide, _, rfl, hscript⟩
  have hrest (c : Char) : ¬ String.utf8EncodeChar c <+: [0xFF, 0x62] := by
    obtain ⟨lead, trail, hc, hlead, -⟩ := Utf8.utf8EncodeChar_eq_lead_trail c
    rw [hc, List.cons_prefix_cons]
    rintro ⟨rfl, -⟩
    cases hlead
  have htext : IsLongestText [0x61, 0xC3, 0xA9, 0xFF, 0x62] ['a', 'é'] :=
    isLongestText_append hrest
  obtain ⟨last, hanswers, -, hfailed⟩ := (advance_answers_longest_text h).2.1 _ htext
  obtain ⟨failure, hkind, rfl, -⟩ := hfailed (by decide)
  exact ⟨h, failure, hkind, hanswers⟩

end GrammarTokens
