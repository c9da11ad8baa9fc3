import GrammarTokens.Proofs.Decoding
import GrammarTokens.Proofs.Reads

/-!
# Progress

Each token takes a character that is not blank, so a lexer finishes at the latest with the call
behind as many tokens as there are such characters ahead. A bare source goes on behind errors. There
each answer but the end costs a byte or one of the failures that the reader passes on.
-/

namespace GrammarTokens

def nonBlanks (cs : List Char) : Nat := cs.countP fun c => !isBlank c

@[simp] lemma nonBlanks_append (cs ds : List Char) :
    nonBlanks (cs ++ ds) = nonBlanks cs + nonBlanks ds :=
  List.countP_append

lemma nonBlanks_pos_of_mem {c : Char} {cs : List Char} (h : c ∈ cs) (hc : isBlank c = false) :
    0 < nonBlanks cs :=
  List.countP_pos_iff.mpr ⟨c, h, by rw [hc]; rfl⟩

theorem CharFeed.exists_yields {ρ : Type} [CharFeed ρ] (feed : ρ) :
    ∃ cs ending, CharFeed.Yields feed cs ending := by
  induction hn : CharFeed.size feed using Nat.strongRecOn generalizing feed with
  | ind n ih =>
    have hlt := CharFeed.size_next_lt feed
    rcases hnext : CharFeed.next feed with ⟨failure | found, feed'⟩
    · exact ⟨[], .failed failure, .failed hnext⟩
    · cases found with
      | none => exact ⟨[], .ended, .ended hnext⟩
      | some c =>
        rw [hnext] at hlt
        obtain ⟨cs, ending, hyields⟩ := ih _ (hn ▸ hlt c rfl) feed' rfl
        exact ⟨c :: cs, ending, .char hnext hyields⟩

namespace Source

variable {ρ : Type} [CharFeed ρ] {s t u : Source ρ}

lemma yields_of_peek {found : Option Char} {cs : List Char} {ending : Ending}
    (h : s.peek = (.ok found, t)) (hs : s.Yields cs ending) :
    t.Yields cs ending ∧ cs.head? = found := by
  cases cs with
  | cons c cs =>
    obtain ⟨t', hpeek, -, hyields, -⟩ := peek_of_yields_char hs
    rw [h] at hpeek
    cases hpeek
    exact ⟨hyields, rfl⟩
  | nil =>
    cases ending with
    | ended =>
      obtain ⟨t', hpeek, -, hyields⟩ := peek_of_yields_ended hs
      rw [h] at hpeek
      cases hpeek
      exact ⟨hyields, rfl⟩
    | failed failure =>
      obtain ⟨t', hpeek, -⟩ := peek_of_yields_failed hs
      rw [h] at hpeek
      cases hpeek

theorem Takes.prefix_of_yields {cs ds : List Char} {ending : Ending} (h : s.Takes cs t)
    (hs : s.Yields ds ending) : cs <+: ds := by
  induction h generalizing ds with
  | nil => exact List.nil_prefix
  | look hpeek _ ih => exact ih (yields_of_peek hpeek hs).1
  | @char s t u c cs hpeek _ ih =>
    obtain ⟨-, hhead⟩ := yields_of_peek hpeek hs
    obtain ⟨ds, rfl⟩ := List.head?_eq_some_iff.mp hhead
    obtain ⟨t', hpeek', -, -, htake⟩ := peek_of_yields_char hs
    rw [hpeek] at hpeek'
    cases hpeek'
    exact List.cons_prefix_cons.mpr ⟨rfl, ih htake⟩

/-- A lexeme takes its first character: either it has read on through it, or it ends with it. -/
lemma takes_of_scanned {limit : Option Nat} {start : Position} {first : Scan} {c : Char}
    {text : String} (hpeek : s.peek = (.ok (some c), s))
    (hfirst : Opening.classify (some c) = .lexeme first)
    (h : Scanned limit start first "" s (.ok text) t) : ∃ cs, s.Takes (c :: cs) t := by
  obtain ⟨cs, u, last, htaken, hlast, -, hend⟩ := h
  have hhead := htaken.head_eq hpeek
  cases cs with
  | cons d cs =>
    obtain rfl := hhead d rfl
    obtain ⟨⟨ds, hds⟩, -⟩ := looksAhead_of_scanEnd hend
    exact ⟨cs ++ ds, htaken.trans hds⟩
  | nil =>
    -- Nothing has been read on through yet, so the first character itself is the one at the end.
    cases hlast
    obtain ⟨v, hv⟩ := htaken.peek_of_nil hpeek
    have htakes {w : Source ρ} {d : Char} (hw : u.peek = (.ok (some d), w)) :
        s.Takes [c] (w.take d) := by
      rw [hv] at hw
      cases hw
      exact htaken.concat hv
    cases hend with
    | ended hw => rw [hv] at hw; cases hw
    | stopped hw hstep =>
      rw [hv] at hw
      cases hw
      obtain ⟨next, hkeep | hstrip⟩ := Opening.exists_step_first hfirst
      · rw [hstep] at hkeep
        cases hkeep
      · rw [hstep] at hstrip
        cases hstrip
    | stripped hw => exact ⟨[], htakes hw⟩
    | kept hw => exact ⟨[], htakes hw⟩

end Source

namespace Lexer

variable {ρ : Type} [CharFeed ρ] {l m : Lexer ρ} {token : Token} {tokens : List Token}

theorem takes_of_token (h : l.nextToken = (.ok token, m)) (htoken : token.isEndOfStream = false) :
    ∃ cs, l.source.Takes cs m.source ∧ 0 < nonBlanks cs := by
  have hdrawn := drawn_nextToken (running_of_token h htoken)
  simp only [h] at hdrawn
  cases hdrawn with
  | ended => cases htoken
  | @token _ s hscan _ =>
    have htokenScan := l.tokenScan_scanToken
    simp only [hscan] at htokenScan
    cases htokenScan with
    | ended => cases htoken
    | @token c first text t v hfinds hfirst hcount hscanned =>
      obtain ⟨blanks, -, hblanks⟩ := hfinds.takesBlanks
      obtain ⟨cs, htakes⟩ := Source.takes_of_scanned hfinds.peek_eq hfirst hscanned
      refine ⟨blanks ++ c :: cs, hblanks.trans htakes, ?_⟩
      exact nonBlanks_pos_of_mem (by simp) hfinds.not_blank

theorem offset_lt_of_token (h : l.nextToken = (.ok token, m))
    (htoken : token.isEndOfStream = false) :
    l.source.position.offset < m.source.position.offset := by
  obtain ⟨cs, htakes, hpos⟩ := takes_of_token h htoken
  have hcs : utf8Length cs ≠ 0 := by
    rw [Ne, utf8Length_eq_zero_iff]
    rintro rfl
    cases hpos
  rw [htakes.position_eq, Position.offset_advanceBy]
  omega

/-- Tokens take at least as many characters that are not blank. -/
theorem length_le_of_passes (h : l.Passes tokens m) :
    ∃ cs, l.source.Takes cs m.source ∧ tokens.length ≤ nonBlanks cs := by
  induction h with
  | nil => exact ⟨[], .nil, Nat.le_refl 0⟩
  | cons hnext htoken _ ih =>
    obtain ⟨cs, hcs, hpos⟩ := takes_of_token hnext htoken
    obtain ⟨ds, hds, hle⟩ := ih
    refine ⟨cs ++ ds, hcs.trans hds, ?_⟩
    rw [List.length_cons, nonBlanks_append]
    omega

/-- A lexer is finished after so many calls, whichever they are. -/
def FinishesWithin (l : Lexer ρ) (n : Nat) : Prop :=
  ∀ calls : List Call, n ≤ calls.length → (respond calls l).2.isFinished

/-- One call for each character ahead that is not blank is enough, and one more. -/
theorem finishesWithin_of_yields {cs : List Char} {ending : Ending} (hrun : l.status = .running)
    (h : l.source.Yields cs ending) : l.FinishesWithin (nonBlanks cs + 1) := by
  intro calls hcalls
  obtain ⟨tokens, m, last, final, hpasses, hfinal⟩ := exists_finishes l hrun
  obtain ⟨taken, htakes, hle⟩ := length_le_of_passes hpasses
  obtain ⟨ahead, rfl⟩ := htakes.prefix_of_yields h
  rw [nonBlanks_append] at hcalls
  rw [respond_behind hpasses hfinal (by omega)]
  exact hfinal.finished

end Lexer

namespace ByteReader

variable {r : ByteReader} {text : List Char}

/-- What a reader yields is the longest text that its bytes begin with. -/
theorem isLongestText_of_yields {bytes : List UInt8} {ending behind : Ending}
    (hbytes : r.HandsOut bytes ending) (htext : CharFeed.Yields r text behind) :
    IsLongestText bytes text := by
  obtain ⟨other, rest, rfl, hrest⟩ := exists_text_and_rest bytes
  have hyields : ∃ last, CharFeed.Yields r other last := by
    obtain ⟨rfl, rfl⟩ | ⟨failure, hbreaks⟩ := Utf8.exists_breaks hrest ending
    · refine ⟨.ended, yields_append hbytes ?_⟩
      intro s hs
      obtain ⟨t, hnext⟩ := nextChar_of_ended hs
      exact .ended hnext
    · exact ⟨_, yields_of_breaks hbytes hbreaks⟩
  obtain ⟨last, hother⟩ := hyields
  obtain ⟨rfl, -⟩ := yields_unique htext hother
  exact isLongestText_append hrest

lemma buffer_fill_no_room (script : List ReadEvent) : (fill (some 0) script).2.buffer = [] := by
  fun_induction fill (some 0) script with
  | case1 => rfl
  | case2 failure script hfailure ih => exact ih
  | case3 => rfl
  | case4 bytes script hcapacity => cases hcapacity
  | case5 bytes script n hcapacity =>
    cases hcapacity
    rfl

lemma nextByte_no_room (script : List ReadEvent) : ∃ answer s,
    nextByte { capacity := some 0, script } = (answer, s) ∧ ∀ b, answer ≠ .ok (some b) := by
  have hempty := buffer_fill_no_room script
  have hfilled : filled { capacity := some 0, script } = fill (some 0) script := rfl
  rw [nextByte, hfilled]
  rcases hfill : fill (some 0) script with ⟨failure | _, t⟩
  · exact ⟨_, _, rfl, by simp⟩
  · rw [hfill] at hempty
    dsimp only at hempty ⊢
    rw [hempty]
    exact ⟨_, _, rfl, by simp⟩

lemma text_of_no_room {ending : Ending} (hcapacity : r.capacity = some 0) (hbuffer : r.buffer = [])
    (h : CharFeed.Yields r text ending) : text = [] := by
  obtain ⟨capacity, buffer, script⟩ := r
  obtain rfl : capacity = some 0 := hcapacity
  obtain rfl : buffer = [] := hbuffer
  obtain ⟨answer, t, hbyte, hnone⟩ := nextByte_no_room script
  cases h with
  | ended => rfl
  | failed => rfl
  | @char _ s c cs _ hnext _ =>
    have hchar : nextChar { capacity := some 0, script } = (.ok (some c), s) := hnext
    rw [nextChar, hbyte] at hchar
    rcases answer with failure | found
    · cases hchar
    · cases found with
      | none => cases hchar
      | some b => exact absurd rfl (hnone b)

end ByteReader

/-- Whatever is spent, it is a byte or a failure that is passed on. -/
lemma Spent.cost_pos {e : Spent} (h : e.Sound) :
    0 < e.bytes.length + e.passedOn.length := by
  cases e with
  | char c =>
    have hpos := Char.utf8Size_pos c
    rw [bytes, String.length_utf8EncodeChar]
    omega
  | faulty fault bytes => exact Nat.add_pos_left h.2.1 _
  | failed failure bytes => exact Nat.succ_pos _

namespace Source

/-- What the answers of a source can still be paid with. -/
def funds (s : Source ByteReader) : Nat := s.pending.length + s.feed.failures.length

variable {s t : Source ByteReader}

lemma funds_lt_of_spends {e : Spent} (h : s.Spends [e] t) : t.funds < s.funds := by
  have hpos := e.cost_pos (h.sound e List.mem_cons_self)
  rw [funds, funds, h.pending_eq, h.failures_eq]
  simp only [List.flatMap_cons, List.flatMap_nil, List.append_nil, List.length_append]
  omega

/-- To advance either ends the source or costs something. -/
lemma advance_cases (s : Source ByteReader) :
    s.advance.1 = .ok none ∧ s.advance.2.lookahead = .ended ∨
      s.advance.1 ≠ .ok none ∧ s.advance.2.funds < s.funds := by
  have hpeeked := s.peek_cases
  rcases hpeek : s.peek with ⟨answer, t⟩
  rw [hpeek] at hpeeked
  cases hpeeked with
  | @char c _ hheld hspends =>
    rw [advance_of_char hpeek]
    exact .inr ⟨by simp, funds_lt_of_spends (hspends.trans (spends_take hheld))⟩
  | ended hended =>
    have hadvance : s.advance = (.ok none, t) := Call.advance.run_of_none hpeek
    rw [hadvance]
    exact .inl ⟨rfl, hended⟩
  | @failed e failure _ hanswer hspends =>
    have hadvance : s.advance = (.error ⟨.readFailed failure, s.position⟩, t) :=
      Call.advance.run_of_error hpeek
    rw [hadvance]
    exact .inr ⟨by simp, funds_lt_of_spends hspends⟩

lemma respond_of_ended (h : s.lookahead = .ended) (calls : List Call) :
    respond calls s = (calls.map fun _ => .ok none, s) := by
  have hpeek : s.peek = (.ok none, s) := by rw [peek, h]
  induction calls with
  | nil => rfl
  | cons call calls ih => simp only [respond, call.run_of_none hpeek, ih, List.map_cons]

/-- The answers that are not the end come first, and there are no more of them than can be paid. -/
theorem exists_end (s : Source ByteReader) : ∃ n ≤ s.funds,
    .ok none ∉ (respond (List.replicate n .advance) s).1 ∧
    ∀ calls, ∀ answer ∈
      (respond (.advance :: calls) (respond (List.replicate n .advance) s).2).1,
      answer = .ok none := by
  -- An answer that is not the end leaves the source with less.
  induction hn : s.funds using Nat.strongRecOn generalizing s with
  | ind n ih =>
    obtain ⟨hnone, hended⟩ | ⟨hsome, hlt⟩ := s.advance_cases
    · refine ⟨0, Nat.zero_le n, List.not_mem_nil, ?_⟩
      intro calls answer hanswer
      simp only [List.replicate_zero, respond, Call.run, respond_of_ended hended, List.mem_cons,
        List.mem_map] at hanswer
      obtain rfl | ⟨-, -, rfl⟩ := hanswer
      · exact hnone
      · rfl
    · obtain ⟨k, hk, hfront, hend⟩ := ih _ (hn ▸ hlt) s.advance.2 rfl
      refine ⟨k + 1, by omega, ?_, hend⟩
      simp only [List.replicate_succ, respond, Call.run, List.mem_cons, not_or]
      exact ⟨Ne.symm hsome, hfront⟩

end Source

/-- Each token moves the position ahead, and the calls that a lexer runs for are bounded by the
characters that are not blank: those of a text, or those that a reader yields in front of an end, of
a failure, and of bytes that are no text. Its device is not read more often than there are bytes and
events, and once more. A source of bytes goes on behind failures, and comes to its end after no more
calls than there are bytes and failures. -/
theorem lexing_terminates :
    (∀ {ρ : Type} [CharFeed ρ] {l m : Lexer ρ} {token : Token}, l.nextToken = (.ok token, m) →
      token.isEndOfStream = false → l.source.position.offset < m.source.position.offset) ∧
    (∀ text options, (Lexer.ofText text options).FinishesWithin (nonBlanks text.toList + 1)) ∧
    (∀ r : ByteReader, ∃ text ending, CharFeed.Yields r text ending ∧
      (∀ bytes behind, r.HandsOut bytes behind → IsLongestText bytes text) ∧
      (r.capacity = some 0 → r.buffer = [] → text = []) ∧
      ∀ options, (Lexer.overReader r options).FinishesWithin (nonBlanks text + 1) ∧
        ∀ calls, (Lexer.respond calls (Lexer.overMetered r options)).1 =
            (Lexer.respond calls (Lexer.overReader r options)).1 ∧
          (Lexer.respond calls (Lexer.overMetered r options)).2.source.feed.reads ≤
            ReadEvent.totalSize r.script + 1) ∧
    ∀ s : Source ByteReader, ∃ n ≤ s.pending.length + s.feed.failures.length,
      .ok none ∉ (Source.respond (List.replicate n .advance) s).1 ∧
      ∀ calls, ∀ answer ∈ (Source.respond (.advance :: calls)
        (Source.respond (List.replicate n .advance) s).2).1, answer = .ok none := by
  refine ⟨Lexer.offset_lt_of_token, ?_, ?_, Source.exists_end⟩
  · intro text options
    exact Lexer.finishesWithin_of_yields rfl (Source.yields_ofFeed (list_yields text.toList))
  · intro r
    obtain ⟨text, ending, hyields⟩ := CharFeed.exists_yields r
    refine ⟨text, ending, hyields, ?_, ?_, ?_⟩
    · exact fun bytes behind hbytes => ByteReader.isLongestText_of_yields hbytes hyields
    · exact fun hcapacity hbuffer => ByteReader.text_of_no_room hcapacity hbuffer hyields
    · intro options
      refine ⟨Lexer.finishesWithin_of_yields rfl (Source.yields_ofFeed hyields), ?_⟩
      intro calls
      obtain ⟨hsame, -, hreads⟩ := Lexer.respond_metered r options calls
      exact ⟨hsame, hreads⟩

/-- A read fails where a character has been begun, and there is more behind it. -/
theorem lexing_terminates_cut_character :
    (∃ m, (Lexer.ofText " é:").nextToken =
        (.ok ⟨.identifier, "é", ⟨⟨1, 2, 1⟩, ⟨1, 3, 3⟩⟩⟩, m) ∧ 0 < m.source.position.offset) ∧
    (Lexer.ofText " é:").FinishesWithin 3 ∧
    ∃ r, r = .buffered 2 [.data [0x61, 0x20], .failed ⟨.interrupted, "signal"⟩, .data [0xC3],
        .failed ⟨.other "BrokenPipe", "closed"⟩, .data [0x62]] ∧
      (Lexer.overReader r {}).FinishesWithin 2 ∧
      (∀ calls, (Lexer.respond calls (Lexer.overMetered r {})).2.source.feed.reads ≤ 10) ∧
      ∃ n ≤ 5, .ok none ∉ (Source.respond (List.replicate n .advance) (.ofFeed r)).1 ∧
        ∀ calls, ∀ answer ∈ (Source.respond (.advance :: calls)
          (Source.respond (List.replicate n .advance) (.ofFeed r)).2).1, answer = .ok none := by
  obtain ⟨hprogress, htexts, hreaders, hsources⟩ := lexing_terminates
  have htoken : (Lexer.ofText " é:").nextToken.1 =
      .ok ⟨.identifier, "é", ⟨⟨1, 2, 1⟩, ⟨1, 3, 3⟩⟩⟩ := by
    decide +kernel
  have hscript : ReadEvent.HandsOut [.data [0x61, 0x20], .failed ⟨.interrupted, "signal"⟩,
      .data [0xC3], .failed ⟨.other "BrokenPipe", "closed"⟩, .data [0x62]]
        ([0x61, 0x20] ++ ([0xC3] ++ [])) (.failed ⟨.other "BrokenPipe", "closed"⟩) :=
    .data (by decide) (.interrupted rfl (.data (by decide) (.failed rfl)))
  have hrest (c : Char) : ¬ String.utf8EncodeChar c <+: [0xC3] := by
    obtain ⟨lead, trail, hc, hlead, -⟩ := Utf8.utf8EncodeChar_eq_lead_trail c
    rw [hc, List.cons_prefix_cons]
    rintro ⟨rfl, htrail⟩
    rw [List.prefix_nil.mp htrail] at hlead
    cases hlead
  have hknown : IsLongestText [0x61, 0x20, 0xC3] ['a', ' '] := isLongestText_append hrest
  obtain ⟨r, hr⟩ : ∃ r : ByteReader, r = .buffered 2 [.data [0x61, 0x20],
    .failed ⟨.interrupted, "signal"⟩, .data [0xC3], .failed ⟨.other "BrokenPipe", "closed"⟩,
    .data [0x62]] := ⟨_, rfl⟩
  have hhands : r.HandsOut [0x61, 0x20, 0xC3] (.failed ⟨.other "BrokenPipe", "closed"⟩) := by
    rw [hr]
    exact ⟨by decide, _, rfl, hscript⟩
  have hsize : ReadEvent.totalSize r.script + 1 = 10 := by rw [hr]; rfl
  have hfunds : (Source.ofFeed r).pending.length + r.failures.length = 5 := by rw [hr]; rfl
  obtain ⟨text, ending, -, htext, -, hruns⟩ := hreaders r
  obtain rfl := (existsUnique_longest_text _).unique (htext _ _ hhands) hknown
  refine ⟨⟨_, Prod.ext htoken rfl, hprogress (Prod.ext htoken rfl) rfl⟩, htexts " é:" {}, r, hr,
    (hruns {}).1, ?_, ?_⟩
  · intro calls
    rw [← hsize]
    exact ((hruns {}).2 calls).2
  · rw [← hfunds]
    exact hsources (.ofFeed r)

end GrammarTokens
