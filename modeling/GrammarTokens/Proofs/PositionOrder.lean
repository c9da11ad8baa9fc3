import GrammarTokens.Diagnostic
import GrammarTokens.Proofs.Comments
import GrammarTokens.Proofs.Progress
import GrammarTokens.Proofs.TextLines
import GrammarTokens.Proofs.Tiling
import Mathlib.Data.Prod.Lex

/-!
# The order of positions

Whatever is passed, both the offset and the place on a line grow. So each of them orders the front
parts of one text as their lengths do, and within a text either tells the other. A position comes
from another one by counting in the text between them, which is how a span is found again from its
beginning and the part of the text that it cuts out.

All this is so as long as no count grows beyond 64 bits. From the beginning of a text none does,
since memory does not hold a text that would be long enough.
-/

namespace GrammarTokens

namespace Position

theorem column_advanceBy (p : Position) (text : List Char) :
    (p.advanceBy text).column =
      if '\n' ∈ text then 1 + (text.reverse.takeWhile (· != '\n')).length
      else p.column + text.length := by
  induction text using List.reverseRecOn with
  | nil => simp
  | append_singleton text c ih =>
    rw [advanceBy_append, advanceBy_cons, advanceBy_nil, advance]
    by_cases hc : c = '\n'
    · simp [hc]
    · simp only [if_neg hc, ih]
      by_cases htext : '\n' ∈ text
      · have hmem : '\n' ∈ text ++ [c] := List.mem_append_left _ htext
        rw [if_pos htext, if_pos hmem, List.reverse_concat, List.takeWhile_cons_of_pos (by simpa),
          List.length_cons]
        omega
      · have hmem : '\n' ∉ text ++ [c] := by simp [htext, Ne.symm hc]
        rw [if_neg htext, if_neg hmem, List.length_append, List.length_singleton]
        omega

theorem advanceBy_eq (p : Position) (text : List Char) :
    p.advanceBy text =
      ⟨p.line + text.count '\n',
        if '\n' ∈ text then 1 + (text.reverse.takeWhile (· != '\n')).length
        else p.column + text.length,
        p.offset + (utf8Bytes text).length⟩ := by
  rw [← line_advanceBy, ← column_advanceBy, length_utf8Bytes, ← offset_advanceBy]

lemma column_advanceBy_le {p : Position} (hp : 1 ≤ p.column) (text : List Char) :
    (p.advanceBy text).column ≤ p.column + text.length := by
  rw [column_advanceBy]
  split
  · have hrun := (List.takeWhile_sublist (l := text.reverse) (· != '\n')).length_le
    rw [List.length_reverse] at hrun
    omega
  · exact Nat.le_refl _

/-- Every text that memory holds can be counted from its beginning. -/
theorem countsFit_start {text : List Char} (hsize : utf8Length text ≤ maxCapacity) :
    start.CountsFit text := by
  intro front hfront
  have hbytes : utf8Length front ≤ utf8Length text := by
    obtain ⟨back, rfl⟩ := hfront
    simp
  have hlength := length_le_utf8Length front
  have hlines : front.count '\n' ≤ front.length := List.count_le_length
  have hcapacity : maxCapacity + 1 < UInt64.size := by decide
  refine ⟨?_, ?_, ?_⟩
  · have hline := start.line_advanceBy front
    simp only [start] at hline ⊢
    omega
  · have hcolumn := column_advanceBy_le (p := start) (Nat.le_refl 1) front
    simp only [start] at hcolumn ⊢
    omega
  · have hoffset := start.offset_advanceBy front
    simp only [start] at hoffset ⊢
    omega

lemma offset_lt_advanceBy (p : Position) {more : List Char} (hmore : more ≠ []) :
    p.offset < (p.advanceBy more).offset := by
  have hpos := Nat.pos_of_ne_zero fun hzero => hmore (utf8Length_eq_zero_iff.mp hzero)
  rw [offset_advanceBy]
  omega

/-- A newline leads to a later line, and any other characters to a later column. -/
lemma place_lt_advanceBy (p : Position) {more : List Char} (hmore : more ≠ []) :
    toLex p.place < toLex (p.advanceBy more).place := by
  rw [Prod.Lex.toLex_lt_toLex]
  by_cases hline : '\n' ∈ more
  · left
    have hcount := List.count_pos_iff.mpr hline
    have hlater := p.line_advanceBy more
    simp only [place]
    omega
  · right
    have hlength := List.length_pos_iff.mpr hmore
    have hcolumn := p.column_advanceBy_of_no_newline more hline
    have hsame := p.line_advanceBy more
    rw [List.count_eq_zero.mpr hline] at hsame
    simp only [place]
    omega

end Position

section Fronts

variable {α : Type} [Preorder α] {f : List Char → α} {text front front' : List Char}

/-- What grows with every character orders the front parts of a text by their lengths. -/
lemma shorter_front_iff_lt (hf : ∀ u more, more ≠ [] → f u < f (u ++ more))
    (hfront : front <+: text) (hfront' : front' <+: text) :
    front <+: front' ∧ front ≠ front' ↔ f front < f front' := by
  constructor
  · rintro ⟨⟨more, rfl⟩, hne⟩
    exact hf front more fun hnil => hne (by rw [hnil, List.append_nil])
  · intro hlt
    have hne : front ≠ front' := fun heq => lt_irrefl _ (heq ▸ hlt)
    refine ⟨?_, hne⟩
    -- If the other one were the longer one, both would be less than each other.
    obtain h | ⟨more, rfl⟩ := List.prefix_or_prefix_of_prefix hfront hfront'
    · exact h
    · have hgt := hf front' more fun hnil => hne (by rw [hnil, List.append_nil])
      exact absurd hlt (lt_asymm hgt)

lemma front_eq_iff (hf : ∀ u more, more ≠ [] → f u < f (u ++ more)) (hfront : front <+: text)
    (hfront' : front' <+: text) : f front = f front' ↔ front = front' := by
  refine ⟨fun heq => ?_, congrArg f⟩
  by_contra hne
  obtain h | h := List.prefix_or_prefix_of_prefix hfront hfront'
  · exact ((shorter_front_iff_lt hf hfront hfront').mp ⟨h, hne⟩).ne heq
  · exact ((shorter_front_iff_lt hf hfront' hfront).mp ⟨h, Ne.symm hne⟩).ne heq.symm

end Fronts

section Places

variable (p : Position) (u more : List Char)

lemma offset_grows (hmore : more ≠ []) :
    (p.advanceBy u).offset < (p.advanceBy (u ++ more)).offset := by
  rw [Position.advanceBy_append]
  exact (p.advanceBy u).offset_lt_advanceBy hmore

lemma place_grows (hmore : more ≠ []) :
    toLex (p.advanceBy u).place < toLex (p.advanceBy (u ++ more)).place := by
  rw [Position.advanceBy_append]
  exact (p.advanceBy u).place_lt_advanceBy hmore

end Places

namespace Source

variable {ρ : Type} [CharFeed ρ] {s t : Source ρ}

lemma takes_of_call {call : Call} {found : Option Char} (h : call.run s = (.ok found, t)) :
    ∃ cs, s.Takes cs t := by
  rcases hpeek : s.peek with ⟨e | ahead, u⟩
  · rw [call.run_of_error hpeek] at h
    cases h
  · cases ahead with
    | none =>
      rw [call.run_of_none hpeek] at h
      cases h
      exact ⟨[], .look hpeek .nil⟩
    | some c =>
      cases call with
      | peek => exact ⟨[], .look h .nil⟩
      | advance =>
        rw [Call.run, advance_of_char hpeek] at h
        cases h
        exact ⟨[c], .char hpeek .nil⟩

lemma takes_of_respond {calls : List Call} (h : ∀ e, .error e ∉ (respond calls s).1) :
    ∃ cs, s.Takes cs (respond calls s).2 := by
  induction calls generalizing s with
  | nil => exact ⟨[], .nil⟩
  | cons call calls ih =>
    simp only [respond, List.mem_cons, not_or] at h ⊢
    rcases hcall : call.run s with ⟨e | found, t⟩
    · rw [hcall] at h
      exact absurd rfl (h e).1
    · rw [hcall] at h
      obtain ⟨cs, hcs⟩ := takes_of_call hcall
      obtain ⟨ds, hds⟩ := ih fun e => (h e).2
      exact ⟨cs ++ ds, hcs.trans hds⟩

end Source

namespace Lexer

variable {ρ : Type} [CharFeed ρ] {l m : Lexer ρ} {token : Token}

/-- A token spans what is taken of the source behind blanks. -/
lemma span_of_scanToken {s : Source ρ} (h : l.scanToken = (.ok token, s)) :
    ∃ blanks covered, l.source.Takes (blanks ++ covered) s ∧
      token.span = .over (l.source.position.advanceBy blanks) covered := by
  have hscan := l.tokenScan_scanToken
  simp only [h] at hscan
  cases hscan with
  | ended hblanks hpeek =>
    obtain ⟨blanks, -, htakes⟩ := hblanks.peeked hpeek
    refine ⟨blanks, [], by rwa [List.append_nil], ?_⟩
    rw [← htakes.position_eq]
    rfl
  | @token c first text t v hfinds _ _ hscanned =>
    obtain ⟨blanks, -, htakes⟩ := hfinds.takesBlanks
    obtain ⟨cs, u, last, htaken, -, -, hend⟩ := hscanned
    obtain ⟨⟨ds, hds⟩, -⟩ := Source.looksAhead_of_scanEnd hend
    have hcovered := htaken.trans hds
    refine ⟨blanks, cs ++ ds, htakes.trans hcovered, ?_⟩
    rw [← htakes.position_eq, Span.over, ← hcovered.position_eq]

lemma span_of_nextToken (hrun : l.status = .running) (h : l.nextToken = (.ok token, m)) :
    ∃ blanks covered, l.source.Takes (blanks ++ covered) m.source ∧
      token.span = .over (l.source.position.advanceBy blanks) covered := by
  have hdrawn := drawn_nextToken hrun
  simp only [h] at hdrawn
  cases hdrawn with
  | token hscan htoken => exact span_of_scanToken hscan
  | ended hscan => exact span_of_scanToken hscan

end Lexer

/-- The span of a part of a text is found again from where the part begins and what it is. -/
lemma on?_slice {o : Overflow} {text : String} {front middle back : List Char}
    (hfit : Position.start.CountsFit text.toList) (h : text.toList = front ++ middle ++ back)
    {span : Span} (hspan : span = .over (.after front) middle) :
    Diagnostic.on? o text span.start (span.slice text) = some { source := text, span } := by
  have hends : span = ⟨.after front, .after (front ++ middle)⟩ := by
    rw [hspan, Span.over, advanceBy_after]
  have hslice : span.slice text = String.ofList middle := by rw [hends, slice_after h]
  have hmiddle : span.start.CountsFit (span.slice text).toList := by
    rw [hslice, String.toList_ofList, hspan, Span.over, ← advanceBy_start]
    rw [h] at hfit
    exact (hfit.of_prefix (List.prefix_append _ _)).behind
  rw [Diagnostic.on?_of_countsFit hmiddle, Diagnostic.on, hslice, String.toList_ofList, hspan]
  rfl

/-- As long as no count grows beyond 64 bits, the offset and the place on a line both order the
front parts of a text by their lengths, and so each determines the other; and passing a text leads
as far as there are lines, columns and bytes in it. Beyond 64 bits the program stops, or counts
modulo 2^64. In either case passing one text and then another is passing both. No count from the
beginning of a text grows too large. A token of any run, also one over a source from which
characters were taken before, has the span that a diagnostic finds from the beginning of the token
and the part of the text that it was read from. -/
theorem positions_order_fronts :
    (∀ (o : Overflow) (p : Position) (text u v : List Char), p.CountsFit text →
      u <+: text → v <+: text →
      ∃ q r, p.advanceBy? o u = some q ∧ p.advanceBy? o v = some r ∧
        (u <+: v ∧ u ≠ v ↔ q.offset < r.offset) ∧
        (u <+: v ∧ u ≠ v ↔ toLex q.place < toLex r.place) ∧
        (q.offset = r.offset ↔ q.place = r.place)) ∧
    (∀ (o : Overflow) (p : Position) (u v : List Char),
      p.advanceBy? o (u ++ v) = (p.advanceBy? o u).bind (Position.advanceBy? o · v)) ∧
    (∀ (o : Overflow) (p : Position) (u : List Char), p.CountsFit u →
      p.advanceBy? o u = some ⟨p.line + u.count '\n',
        if '\n' ∈ u then 1 + (u.reverse.takeWhile (· != '\n')).length else p.column + u.length,
        p.offset + (utf8Bytes u).length⟩) ∧
    (∀ (p : Position) (u : List Char), p.InRange →
      (p.advanceBy? .stop u = none ↔ ¬ p.CountsFit u) ∧
      p.advanceBy? .wrap u = some (Position.wrapped ⟨p.line + u.count '\n',
        if '\n' ∈ u then 1 + (u.reverse.takeWhile (· != '\n')).length else p.column + u.length,
        p.offset + (utf8Bytes u).length⟩)) ∧
    (∀ text, utf8Length text ≤ maxCapacity → Position.start.CountsFit text) ∧
    ∀ {ρ : Type} [CharFeed ρ] (feed : ρ) (text : String) (ending : Ending),
      CharFeed.Yields feed text.toList ending → Position.start.CountsFit text.toList →
      ∀ reads, (∀ e, .error e ∉ (Source.respond reads (.ofFeed feed)).1) →
        ∀ o options calls token m,
          (Lexer.respond calls
            (.ofSource (Source.respond reads (.ofFeed feed)).2 options)).2.nextToken =
            (.ok token, m) →
          ∃ d, Diagnostic.on? o text token.span.start (token.span.slice text) = some d ∧
            d.span = token.span := by
  refine ⟨?_, fun o p u v => Position.advanceBy?_append, ?_, ?_,
    fun text => Position.countsFit_start, ?_⟩
  · intro o p text u v hfit hu hv
    refine ⟨p.advanceBy u, p.advanceBy v, Position.advanceBy?_of_countsFit (hfit.of_prefix hu),
      Position.advanceBy?_of_countsFit (hfit.of_prefix hv),
      shorter_front_iff_lt (offset_grows p) hu hv, shorter_front_iff_lt (place_grows p) hu hv, ?_⟩
    rw [front_eq_iff (offset_grows p) hu hv, ← front_eq_iff (place_grows p) hu hv, toLex_inj]
  · intro o p u hfit
    rw [Position.advanceBy?_of_countsFit hfit, p.advanceBy_eq u]
  · intro p u hrange
    rw [← p.advanceBy_eq u]
    exact ⟨Position.advanceBy?_stop_eq_none_iff hrange, Position.advanceBy?_wrap hrange⟩
  · intro ρ _ feed text ending hyields hfit reads hreads o options calls token m h
    obtain ⟨before, hbefore⟩ := Source.takes_of_respond hreads
    obtain ⟨tokens, k, hpasses, hrun, hnext⟩ := Lexer.exists_passes_of_respond rfl h
    obtain ⟨passed, hpassed⟩ := Lexer.takes_of_passes hpasses
    obtain ⟨blanks, covered, htakes, hspan⟩ := Lexer.span_of_nextToken hrun hnext
    have hfront := hbefore.trans hpassed
    obtain ⟨back, htext⟩ := (hfront.trans htakes).prefix_of_yields (Source.yields_ofFeed hyields)
    have hstart : k.source.position = .after (before ++ passed) :=
      hfront.position_eq.trans (advanceBy_start _)
    rw [hstart, advanceBy_after] at hspan
    have hsplit : text.toList = before ++ passed ++ blanks ++ covered ++ back := by
      rw [← htext]
      simp
    exact ⟨_, on?_slice hfit hsplit hspan, rfl⟩

/-- Behind the newline the column is smaller and the place is not. Two characters were taken before
the run, and the block that comes next spans its braces as well. One column further than 64 bits
count is column zero, unless the program stops. -/
theorem positions_order_fronts_across_newline :
    Position.start.CountsFit "ab\n\x7bé\x7d".toList ∧
    ("ab".toList <+: "ab\n\x7bé\x7d".toList ∧ "ab\n".toList <+: "ab\n\x7bé\x7d".toList) ∧
    ("ab".toList <+: "ab\n".toList ∧ "ab".toList ≠ "ab\n".toList) ∧
    (∃ q r, Position.start.advanceBy? .stop "ab".toList = some q ∧
      Position.start.advanceBy? .stop "ab\n".toList = some r ∧
      r.column < q.column ∧ toLex q.place < toLex r.place) ∧
    (⟨1, UInt64.size - 1, 0⟩ : Position).InRange ∧
    Position.advanceBy? .wrap ⟨1, UInt64.size - 1, 0⟩ ['a'] = some ⟨1, 0, 1⟩ ∧
    ∃ source m, source = (Source.respond [.advance, .peek, .advance]
        (.ofFeed "ab\n\x7bé\x7d".toList)).2 ∧
      (∀ e, .error e ∉ (Source.respond [.advance, .peek, .advance]
        (.ofFeed "ab\n\x7bé\x7d".toList)).1) ∧
      (Lexer.respond [] (.ofSource source {})).2.nextToken =
        (.ok ⟨.actionBlock, "é", ⟨⟨2, 1, 3⟩, ⟨2, 4, 7⟩⟩⟩, m) ∧
      ∃ d, Diagnostic.on? .stop "ab\n\x7bé\x7d" ⟨2, 1, 3⟩ "\x7bé\x7d" = some d ∧
        d.span = ⟨⟨2, 1, 3⟩, ⟨2, 4, 7⟩⟩ := by
  have hfronts : "ab".toList <+: "ab\n\x7bé\x7d".toList ∧
      "ab\n".toList <+: "ab\n\x7bé\x7d".toList := by decide
  have hproper : "ab".toList <+: "ab\n".toList ∧ "ab".toList ≠ "ab\n".toList := by decide
  have hlast : (⟨1, UInt64.size - 1, 0⟩ : Position).InRange :=
    ⟨by decide, by decide, by decide⟩
  have hreads : (Source.respond [.advance, .peek, .advance]
      (.ofFeed "ab\n\x7bé\x7d".toList)).1 = [.ok (some 'a'), .ok (some 'b'), .ok (some 'b')] := by
    decide
  have htoken : (Lexer.respond [] (.ofSource (Source.respond [.advance, .peek, .advance]
      (.ofFeed "ab\n\x7bé\x7d".toList)).2 {})).2.nextToken.1 =
        .ok ⟨.actionBlock, "é", ⟨⟨2, 1, 3⟩, ⟨2, 4, 7⟩⟩⟩ := by
    decide +kernel
  have hslice : Span.slice ⟨⟨2, 1, 3⟩, ⟨2, 4, 7⟩⟩ "ab\n\x7bé\x7d" = "\x7bé\x7d" := by
    decide +kernel
  obtain ⟨horder, -, hcounts, hlarge, hstart, hspans⟩ := positions_order_fronts
  have hfit := hstart "ab\n\x7bé\x7d".toList (by decide)
  obtain ⟨q, r, hq, hr, -, hplace, -⟩ := horder .stop .start _ _ _ hfit hfronts.1 hfronts.2
  have hcolumns : r.column < q.column := by
    rw [hcounts .stop .start _ (hfit.of_prefix hfronts.1)] at hq
    rw [hcounts .stop .start _ (hfit.of_prefix hfronts.2)] at hr
    cases hq
    cases hr
    decide
  have herrors : ∀ e, .error e ∉ (Source.respond [.advance, .peek, .advance]
      (.ofFeed "ab\n\x7bé\x7d".toList)).1 := by
    rw [hreads]
    simp
  obtain ⟨d, hd, hspan⟩ := hspans _ "ab\n\x7bé\x7d" .ended (list_yields _) hfit _ herrors .stop {}
    [] _ _ (Prod.ext htoken rfl)
  rw [hslice] at hd
  exact ⟨hfit, hfronts, hproper, ⟨q, r, hq, hr, hcolumns, hplace.mp hproper⟩, hlast,
    (hlarge _ ['a'] hlast).2, _, _, rfl, herrors, Prod.ext htoken rfl, d, hd, hspan⟩

/-- Behind the last byte and behind the last line that 64 bits count there is no next one. Either the
program stops there, or it begins at zero again, and with a line of the number zero a window of a
text of eight lines ends before it begins. -/
theorem advanceBy?_beyond_range :
    Position.advanceBy? .stop ⟨1, 1, UInt64.size - 1⟩ ['a'] = none ∧
    Position.advanceBy? .wrap ⟨1, 1, UInt64.size - 1⟩ ['a'] = some ⟨1, 2, 0⟩ ∧
    (∀ o, Position.advanceBy? o ⟨1, 1, UInt64.size - 1⟩ ['a'] ≠
      some ⟨1, 1 + ['a'].length, UInt64.size - 1 + (utf8Bytes ['a']).length⟩) ∧
    Position.advanceBy? .stop ⟨UInt64.size - 1, 1, 0⟩ ['\n'] = none ∧
    Position.advanceBy? .wrap ⟨UInt64.size - 1, 1, 0⟩ ['\n'] = some ⟨0, 1, 1⟩ ∧
    (∀ o, Position.advanceBy? o ⟨UInt64.size - 1, 1, 0⟩ ['\n'] ≠
      some ⟨UInt64.size - 1 + ['\n'].count '\n', 1, 0 + (utf8Bytes ['\n']).length⟩) ∧
    (∀ o, (Diagnostic.on? o "1\n2\n3\n4\n5\n6\n7\n8" ⟨UInt64.size - 1, 1, 0⟩ "\n").bind
      (·.snippet?) = none) ∧
    (Diagnostic.on "1\n2\n3\n4\n5\n6\n7\n8" ⟨UInt64.size - 1, 1, 0⟩ "\n").snippet? ≠ none := by
  have hbyteStop : Position.advanceBy? .stop ⟨1, 1, UInt64.size - 1⟩ ['a'] = none := by decide
  have hbyteWrap : Position.advanceBy? .wrap ⟨1, 1, UInt64.size - 1⟩ ['a'] = some ⟨1, 2, 0⟩ := by
    decide
  have hlineStop : Position.advanceBy? .stop ⟨UInt64.size - 1, 1, 0⟩ ['\n'] = none := by decide
  have hlineWrap :
      Position.advanceBy? .wrap ⟨UInt64.size - 1, 1, 0⟩ ['\n'] = some ⟨0, 1, 1⟩ := by
    decide
  refine ⟨hbyteStop, hbyteWrap, ?_, hlineStop, hlineWrap, ?_, ?_, by decide +kernel⟩
  · intro o
    cases o with
    | wrap => rw [hbyteWrap]; decide
    | stop => rw [hbyteStop]; exact nofun
  · intro o
    cases o with
    | wrap => rw [hlineWrap]; decide
    | stop => rw [hlineStop]; exact nofun
  · intro o
    cases o with
    | wrap => decide +kernel
    | stop => decide +kernel

end GrammarTokens
