import GrammarTokens.Proofs.Conservation
import GrammarTokens.Proofs.Streaming

/-!
# Cursors in a text

A cursor answers each call with the character behind those that were advanced over before it, and
its position counts these characters alone. Sources follow a text in this way, whether they hold it
as a list, decode it from a reader or slice it at the offset of their position. The slice always
begins at a character or at the end, so a lexer that draws its characters from such slices answers
as one that has them in a list.
-/

namespace GrammarTokens

def advances (calls : List Source.Call) : Nat := calls.count .advance

@[simp] lemma advances_nil : advances [] = 0 := rfl

@[simp] lemma advances_peek (calls : List Source.Call) :
    advances (.peek :: calls) = advances calls :=
  List.count_cons_of_ne (by decide)

@[simp] lemma advances_advance (calls : List Source.Call) :
    advances (.advance :: calls) = advances calls + 1 :=
  List.count_cons_self

lemma advances_cons (call : Source.Call) (calls : List Source.Call) :
    advances (call :: calls) = advances [call] + advances calls := by
  cases call <;> simp [Nat.add_comm]

/-- The answers of a cursor in a text. Each call finds the character behind as many as were advanced
over by the calls before it, and none if there are no more. -/
def cursorAnswers (text : List Char) (calls : List Source.Call) : List (Option Char) :=
  calls.mapIdx fun i _ => text[advances (calls.take i)]?

lemma cursorAnswers_cons (text : List Char) (call : Source.Call) (calls : List Source.Call) :
    cursorAnswers text (call :: calls) =
      text.head? :: cursorAnswers (text.drop (advances [call])) calls := by
  have hlater (i : Nat) : text[advances ((call :: calls).take (i + 1))]? =
      (text.drop (advances [call]))[advances (calls.take i)]? := by
    rw [List.take_succ_cons, advances_cons, List.getElem?_drop]
  rw [cursorAnswers, List.mapIdx_cons, List.head?_eq_getElem?]
  simp only [hlater]
  rfl

lemma advanceBy_take_advances (p : Position) (text : List Char) (call : Source.Call)
    (calls : List Source.Call) :
    (p.advanceBy (text.take (advances [call]))).advanceBy
        ((text.drop (advances [call])).take (advances calls)) =
      p.advanceBy (text.take (advances (call :: calls))) := by
  rw [advances_cons call calls, List.take_add, Position.advanceBy_append]

namespace Source

variable {ρ : Type} [CharFeed ρ]

theorem call_of_yields {s : Source ρ} {cs : List Char} (hs : s.Yields cs .ended) (call : Call) :
    ∃ t, call.run s = (.ok cs.head?, t) ∧
      t.position = s.position.advanceBy (cs.take (advances [call])) ∧
      t.Yields (cs.drop (advances [call])) .ended := by
  cases cs with
  | nil =>
    obtain ⟨t, hpeek, hposition, ht⟩ := peek_of_yields_ended hs
    refine ⟨t, call.run_of_none hpeek, ?_, ?_⟩
    · rw [List.take_nil, hposition, Position.advanceBy_nil]
    · rwa [List.drop_nil]
  | cons c cs =>
    obtain ⟨t, hpeek, hposition, ht, htake⟩ := peek_of_yields_char hs
    cases call with
    | peek => exact ⟨t, hpeek, hposition, ht⟩
    | advance =>
      refine ⟨t.take c, advance_of_char hpeek, ?_, htake⟩
      exact congrArg (·.advance c) hposition

/-- Calls in any order are answered as by a cursor in the characters ahead. -/
theorem respond_of_yields {s : Source ρ} {cs : List Char} (hs : s.Yields cs .ended)
    (calls : List Call) :
    ∃ t, respond calls s = ((cursorAnswers cs calls).map .ok, t) ∧
      t.position = s.position.advanceBy (cs.take (advances calls)) ∧
      t.Yields (cs.drop (advances calls)) .ended := by
  induction calls generalizing s cs with
  | nil => exact ⟨s, rfl, rfl, hs⟩
  | cons call calls ih =>
    obtain ⟨t, hcall, hposition, ht⟩ := call_of_yields hs call
    obtain ⟨u, hcalls, hposition', hu⟩ := ih ht
    refine ⟨u, ?_, ?_, ?_⟩
    · simp only [respond, hcall, hcalls, cursorAnswers_cons, List.map_cons]
    · rw [hposition', hposition, advanceBy_take_advances]
    · rwa [List.drop_drop, ← advances_cons] at hu

/-- A source that cannot be told from a cursor in a text: whatever the calls, it gives the cursor's
answers and stands behind the characters that were advanced over. -/
def Follows (s : Source ρ) (text : List Char) : Prop :=
  ∀ calls, (respond calls s).1 = (cursorAnswers text calls).map .ok ∧
    (respond calls s).2.position = .after (text.take (advances calls))

lemma follows_of_yields {feed : ρ} {text : List Char} (h : CharFeed.Yields feed text .ended) :
    (ofFeed feed).Follows text := by
  intro calls
  obtain ⟨t, hcalls, hposition, -⟩ := respond_of_yields (yields_ofFeed h) calls
  rw [hcalls]
  exact ⟨rfl, hposition.trans (advanceBy_start _)⟩

end Source

/-- A source that keeps its text whole, and finds what is ahead by the offset of its position. -/
structure OffsetSource where
  text : String
  position : Position := .start
deriving DecidableEq, Repr

namespace OffsetSource

/-- The text from the offset on. There is none if the offset is beyond the text or falls inside a
character. -/
def rest? (s : OffsetSource) : Option String :=
  if h : (⟨s.position.offset⟩ : String.Pos.Raw).IsValid s.text then
    some (s.text.sliceFrom ⟨_, h⟩).copy
  else none

def call? (s : OffsetSource) (call : Source.Call) : Option (Option Char × OffsetSource) :=
  s.rest?.map fun rest =>
    match call, rest.toList.head? with
    | .advance, some c => (some c, { s with position := s.position.advance c })
    | _, found => (found, s)

/-- The answers to calls in a row, unless the text cannot be sliced for one of them. -/
def respond? : List Source.Call → OffsetSource → Option (List (Option Char) × OffsetSource)
  | [], s => some ([], s)
  | call :: calls, s => do
    let (answer, t) ← s.call? call
    let (answers, u) ← respond? calls t
    return (answer :: answers, u)

structure StandsBetween (s : OffsetSource) (front ahead : List Char) : Prop where
  text_eq : s.text.toList = front ++ ahead
  position_eq : s.position = .after front

variable {s : OffsetSource} {front ahead : List Char}

lemma StandsBetween.split (h : s.StandsBetween front ahead) :
    s.text = String.ofList front ++ String.ofList ahead ∧
      (⟨s.position.offset⟩ : String.Pos.Raw) = (String.ofList front).rawEndPos := by
  constructor
  · rw [← String.ofList_append, ← h.text_eq, String.ofList_toList]
  · rw [h.position_eq]
    exact congrArg String.Pos.Raw.mk (utf8ByteSize_ofList front).symm

/-- Between two parts of the text the offset is at a character or at the end. -/
lemma StandsBetween.isValid (h : s.StandsBetween front ahead) :
    (⟨s.position.offset⟩ : String.Pos.Raw).IsValid s.text :=
  String.Pos.Raw.isValid_iff_exists_append.mpr ⟨_, _, h.split⟩

lemma StandsBetween.rest?_eq (h : s.StandsBetween front ahead) :
    s.rest? = some (String.ofList ahead) := by
  have hsplits : (⟨_, h.isValid⟩ : s.text.Pos).Splits (String.ofList front) (String.ofList ahead) :=
    ⟨h.split.1, h.split.2⟩
  rw [rest?, dif_pos h.isValid, hsplits.copy_sliceFrom_eq]

theorem call?_of_standsBetween (h : s.StandsBetween front ahead) (call : Source.Call) :
    ∃ t, s.call? call = some (ahead.head?, t) ∧ t.text = s.text ∧
      t.StandsBetween (front ++ ahead.take (advances [call])) (ahead.drop (advances [call])) := by
  rw [call?, h.rest?_eq, Option.map_some, String.toList_ofList]
  cases call with
  | peek => exact ⟨s, rfl, rfl, by simpa using h⟩
  | advance =>
    cases ahead with
    | nil => exact ⟨s, rfl, rfl, by simpa using h⟩
    | cons c ahead =>
      refine ⟨{ s with position := s.position.advance c }, rfl, rfl, ?_, ?_⟩
      · simpa using h.text_eq
      · rw [h.position_eq, advance_after]
        rfl

/-- No call finds the text without a slice, and the answers are those of a cursor. -/
theorem respond?_of_standsBetween (h : s.StandsBetween front ahead) (calls : List Source.Call) :
    ∃ t, respond? calls s = some (cursorAnswers ahead calls, t) ∧ t.text = s.text ∧
      t.StandsBetween (front ++ ahead.take (advances calls)) (ahead.drop (advances calls)) := by
  induction calls generalizing s front ahead with
  | nil => exact ⟨s, rfl, rfl, by simpa using h⟩
  | cons call calls ih =>
    obtain ⟨t, hcall, htext, ht⟩ := call?_of_standsBetween h call
    obtain ⟨u, hcalls, htext', hu⟩ := ih ht
    refine ⟨u, ?_, htext'.trans htext, ?_⟩
    · simp [respond?, hcall, hcalls, cursorAnswers_cons]
    · rwa [List.append_assoc, ← List.take_add, List.drop_drop, ← advances_cons] at hu

/-- An offset source that can always be sliced. -/
structure Cursor where
  source : OffsetSource
  stands : ∃ front ahead, source.StandsBetween front ahead

namespace Cursor

def start (text : String) : Cursor := ⟨⟨text, .start⟩, [], text.toList, rfl, rfl⟩

lemma isSome_advance (c : Cursor) : (c.source.call? .advance).isSome := by
  obtain ⟨front, ahead, h⟩ := c.stands
  obtain ⟨t, hcall, -⟩ := call?_of_standsBetween h .advance
  rw [hcall]
  rfl

/-- The character ahead, found by a slice, and the source behind it. -/
def advance (c : Cursor) : Option Char × OffsetSource :=
  (c.source.call? .advance).get c.isSome_advance

lemma advance_of_standsBetween {c : Cursor} (h : c.source.StandsBetween front ahead) :
    c.advance.1 = ahead.head? ∧
      c.advance.2.StandsBetween (front ++ ahead.take 1) (ahead.drop 1) := by
  obtain ⟨t, hcall, -, ht⟩ := call?_of_standsBetween h .advance
  have hadvance : c.advance = (ahead.head?, t) := by simp only [advance, hcall, Option.get_some]
  rw [hadvance]
  exact ⟨rfl, ht⟩

lemma stands_advance (c : Cursor) : ∃ front ahead, c.advance.2.StandsBetween front ahead := by
  obtain ⟨front, ahead, h⟩ := c.stands
  exact ⟨_, _, (advance_of_standsBetween h).2⟩

def size (s : OffsetSource) : Nat := s.text.utf8ByteSize - s.position.offset

lemma size_of_standsBetween (h : s.StandsBetween front ahead) : size s = utf8Length ahead := by
  have hoffset : s.position.offset = utf8Length front := by rw [h.position_eq]; rfl
  rw [size, ← utf8Length_toList, h.text_eq, utf8Length_append, hoffset, Nat.add_sub_cancel_left]

instance : CharFeed Cursor where
  next c := (.ok c.advance.1, ⟨c.advance.2, c.stands_advance⟩)
  size c := size c.source
  size_next_le c := by
    obtain ⟨front, ahead, h⟩ := c.stands
    rw [size_of_standsBetween h, size_of_standsBetween (advance_of_standsBetween h).2]
    cases ahead with
    | nil => exact Nat.le_refl _
    | cons d ahead => exact Nat.le_add_left _ _
  size_next_lt c d hnext := by
    obtain ⟨front, ahead, h⟩ := c.stands
    obtain ⟨hanswer, hlater⟩ := advance_of_standsBetween h
    rw [size_of_standsBetween h, size_of_standsBetween hlater]
    cases ahead with
    | nil =>
      rw [hanswer] at hnext
      cases hnext
    | cons d ahead => exact Nat.lt_add_of_pos_left (Char.utf8Size_pos d)

lemma yields_of_standsBetween {c : Cursor} (h : c.source.StandsBetween front ahead) :
    CharFeed.Yields c ahead .ended := by
  induction ahead generalizing c front with
  | nil =>
    obtain ⟨hanswer, -⟩ := advance_of_standsBetween h
    exact .ended (Prod.ext (congrArg Except.ok hanswer) rfl)
  | cons d ahead ih =>
    obtain ⟨hanswer, hlater⟩ := advance_of_standsBetween h
    exact .char (Prod.ext (congrArg Except.ok hanswer) rfl) (ih hlater)

end Cursor

end OffsetSource

/-- A lexer that slices its text at an offset for every character is, call by call, one that has the
characters in a list. -/
theorem Lexer.answers_ofCursor_eq_ofText (text : String) (options : Options) (n : Nat) :
    answers observe n (ofSource (.ofFeed (OffsetSource.Cursor.start text)) options) =
      answers observe n (ofText text options) := by
  have hstart : (OffsetSource.Cursor.start text).source.StandsBetween [] text.toList := ⟨rfl, rfl⟩
  have hyields := OffsetSource.Cursor.yields_of_standsBetween hstart
  have hsources : (Source.ofFeed (OffsetSource.Cursor.start text)).Agree (.ofFeed text.toList) :=
    ⟨rfl, text.toList, .ended, hyields, list_yields text.toList⟩
  exact answers_eq_of_simulation (fun _ _ h => observe_agree h) (agree_ofSource hsources options) n

/-- Sources over a text follow it through calls of both kinds in any order: one that has the
characters in a list, one that decodes them from a reader without failures, however the bytes are
cut, and one that slices the text at its offset. The last one always finds a slice, since its offset
is the length of the characters that it has passed, which ends between two characters. -/
theorem sources_follow_text (text : String) :
    (Source.ofFeed text.toList).Follows text.toList ∧
    (∀ r : ByteReader, r.Delivers (utf8Bytes text.toList) →
      (Source.ofFeed r).Follows text.toList) ∧
    ∀ calls, ∃ s : OffsetSource,
      OffsetSource.respond? calls ⟨text, .start⟩ = some (cursorAnswers text.toList calls, s) ∧
      s = ⟨text, .after (text.toList.take (advances calls))⟩ ∧
      s.position.offset ≤ text.utf8ByteSize ∧
      (⟨s.position.offset⟩ : String.Pos.Raw).IsValid text := by
  refine ⟨Source.follows_of_yields (list_yields _), ?_, ?_⟩
  · exact fun r hr => Source.follows_of_yields (ByteReader.yields_of_delivers_text hr)
  · intro calls
    have hstart : OffsetSource.StandsBetween ⟨text, .start⟩ [] text.toList := ⟨rfl, rfl⟩
    obtain ⟨s, hcalls, htext, hs⟩ := OffsetSource.respond?_of_standsBetween hstart calls
    have hvalid := hs.isValid
    rw [htext] at hvalid
    refine ⟨s, hcalls, ?_, hvalid.le_rawEndPos, hvalid⟩
    obtain ⟨text', position⟩ := s
    cases htext
    exact congrArg (OffsetSource.mk text) hs.position_eq

/-- A two-byte character that comes in two reads, with an interruption between them, and a newline.
Behind the end the calls find nothing. -/
theorem sources_follow_cut_text :
    ∃ r, r = ByteReader.buffered 1 [.data [0xC3], .failed ⟨.interrupted, "signal"⟩,
        .data [0xA9, 0x0A]] ∧
      r.Delivers (utf8Bytes "é\n".toList) ∧
      (Source.respond [.peek, .advance, .peek, .advance, .advance, .peek] (.ofFeed r)).1 =
        [some 'é', some 'é', some '\n', some '\n', none, none].map .ok ∧
      (Source.respond [.peek, .advance, .peek, .advance, .advance, .peek] (.ofFeed r)).2.position =
        ⟨2, 1, 3⟩ := by
  have hscript : ReadEvent.Delivers [.data [0xC3], .failed ⟨.interrupted, "signal"⟩,
      .data [0xA9, 0x0A]] ([0xC3] ++ ([0xA9, 0x0A] ++ [])) :=
    .data (by decide) (.interrupted rfl (.data (by decide) .ended))
  have hbytes : utf8Bytes "é\n".toList = [0xC3] ++ ([0xA9, 0x0A] ++ []) := by decide
  have hdelivers : (ByteReader.buffered 1 [.data [0xC3], .failed ⟨.interrupted, "signal"⟩,
      .data [0xA9, 0x0A]]).Delivers (utf8Bytes "é\n".toList) :=
    ⟨by decide, _, hbytes, hscript⟩
  obtain ⟨hanswers, hposition⟩ := (sources_follow_text "é\n").2.1 _ hdelivers
    [.peek, .advance, .peek, .advance, .advance, .peek]
  exact ⟨_, rfl, hdelivers, hanswers, hposition⟩

end GrammarTokens
