import GrammarTokens.Diagnostic
import GrammarTokens.Proofs.TextLines
import Mathlib.Data.Nat.Digits.Defs

/-!
# Rows of an excerpt

An excerpt shows consecutive lines, the carets directly below the line they belong to. Its numbers
stand in gutters of one width, so the columns of all lines stand below each other.
-/

namespace GrammarTokens

/-- Rows with consecutive lines, the first one with the number given. -/
def lineRows (number : Nat) (shown : List (List Char)) : List Row :=
  (shown.zipIdx number).map fun (text, number) => .line number text

/-- An excerpt with one row of carets: lines above the carets, the last one of which is `line`, and
lines below them. -/
structure Layout where
  gutter : Nat
  first : Nat
  above : List (List Char)
  line : List Char
  indent : Nat
  count : Nat
  below : List (List Char)
deriving DecidableEq, Repr

namespace Layout

def number (l : Layout) : Nat := l.first + l.above.length

def last (l : Layout) : Nat := l.number + l.below.length

def excerpt (l : Layout) : Excerpt where
  gutter := l.gutter
  rows := lineRows l.first l.above ++
    .line l.number l.line :: .carets l.indent l.count :: lineRows (l.number + 1) l.below

end Layout

lemma mem_lineRows {number : Nat} {shown : List (List Char)} {row : Row}
    (h : row ∈ lineRows number shown) :
    ∃ i text, shown[i]? = some text ∧ row = .line (number + i) text := by
  obtain ⟨⟨text, k⟩, hmem, rfl⟩ := List.mem_map.mp h
  obtain ⟨hle, hget⟩ := List.mk_mem_zipIdx_iff_le_and_getElem?_sub.mp hmem
  exact ⟨k - number, text, hget, by rw [Nat.add_sub_cancel' hle]⟩

/-- The rows that lines give rise to, with those below the line `marked`. -/
def rowsOf (marked : Nat) (below : Nat → List Char → Row) (number : Nat)
    (shown : List (List Char)) : List Row :=
  (shown.zipIdx number).flatMap fun (text, number) =>
    if number = marked then [.line number text, below number text] else [.line number text]

lemma rowsOf_append (marked : Nat) (below : Nat → List Char → Row) (number : Nat)
    (front back : List (List Char)) : rowsOf marked below number (front ++ back) =
      rowsOf marked below number front ++ rowsOf marked below (number + front.length) back := by
  rw [rowsOf, List.zipIdx_append, List.flatMap_append]
  rfl

lemma rowsOf_unmarked {marked number : Nat} {shown : List (List Char)}
    (below : Nat → List Char → Row) (h : marked < number ∨ number + shown.length ≤ marked) :
    rowsOf marked below number shown = lineRows number shown := by
  induction shown generalizing number with
  | nil => rfl
  | cons text shown ih =>
    have hne : number ≠ marked := by
      rw [List.length_cons] at h
      omega
    have hlater : marked < number + 1 ∨ number + 1 + shown.length ≤ marked := by
      rw [List.length_cons] at h
      omega
    have hrest := ih hlater
    simp only [rowsOf, lineRows, List.zipIdx_cons, List.flatMap_cons, List.map_cons,
      if_neg hne] at hrest ⊢
    rw [hrest]
    rfl

lemma rowsOf_marked (below : Nat → List Char → Row) (number : Nat) (front back : List (List Char))
    (text : List Char) :
    rowsOf (number + front.length) below number (front ++ text :: back) =
      lineRows number front ++ .line (number + front.length) text ::
        below (number + front.length) text :: lineRows (number + front.length + 1) back := by
  rw [rowsOf_append, rowsOf_unmarked below (.inr (Nat.le_refl _)), ← List.singleton_append,
    rowsOf_append, List.length_singleton, rowsOf_unmarked below (.inl (Nat.lt_succ_self _))]
  simp [rowsOf]

lemma take_drop_split {all : List (List Char)} {first marked stop : Nat} {line : List Char}
    (hfirst : first ≤ marked) (hstop : marked < stop) (hline : all[marked]? = some line) :
    (all.drop first).take (stop - first) =
      (all.drop first).take (marked - first) ++ line ::
        (all.drop (marked + 1)).take (stop - (marked + 1)) := by
  obtain ⟨hlt, rfl⟩ := List.getElem?_eq_some_iff.mp hline
  have hwidth : stop - first = marked - first + (stop - (marked + 1) + 1) := by omega
  rw [hwidth, List.take_add, List.drop_drop, Nat.add_sub_cancel' hfirst,
    List.drop_eq_getElem_cons hlt, List.take_succ_cons]

/-- The layout of the lines that a window shows, with carets below the marked one. -/
def Window.layout (w : Window) (all : List (List Char)) (line : List Char) (indent count : Nat) :
    Layout where
  gutter := (toString w.stop).length
  first := w.first + 1
  above := (all.drop w.first).take (w.marked - w.first)
  line := line
  indent := indent
  count := count
  below := (all.drop (w.marked + 1)).take (w.stop - (w.marked + 1))

section

variable {w : Window} {all : List (List Char)} {line : List Char} {indent count : Nat}

lemma Window.number_layout (hfirst : w.first ≤ w.marked) (hline : all[w.marked]? = some line) :
    (w.layout all line indent count).number = w.marked + 1 := by
  have hlt := (List.getElem?_eq_some_iff.mp hline).1
  simp only [layout, Layout.number, List.length_take, List.length_drop]
  omega

lemma Window.last_layout (hfirst : w.first ≤ w.marked) (hstop : w.marked < w.stop)
    (hcount : w.stop ≤ all.length) (hline : all[w.marked]? = some line) :
    (w.layout all line indent count).last = w.stop := by
  rw [Layout.last, Window.number_layout hfirst hline]
  simp only [layout, List.length_take, List.length_drop]
  omega

theorem excerpt?_of_marked {d : Diagnostic} {around : Nat} (hall : lines d.source.toList = all)
    (hw : d.span.window around all.length = w) (hfirst : w.first ≤ w.marked)
    (hstop : w.marked < w.stop) (hline : all[w.marked]? = some line)
    (hcarets : d.span.carets (w.marked + 1) line = .carets indent count) :
    d.excerpt? around = some (w.layout all line indent count).excerpt := by
  have hne : all.isEmpty = false := by
    cases all with
    | nil => simp at hline
    | cons => rfl
  have horder : ¬ w.stop < w.first := by omega
  have hlayout : (w.layout all line indent count).number = w.marked + 1 :=
    Window.number_layout hfirst hline
  have hrows := rowsOf_marked d.span.carets (w.first + 1)
    ((all.drop w.first).take (w.marked - w.first))
    ((all.drop (w.marked + 1)).take (w.stop - (w.marked + 1))) line
  have hnumber : w.first + 1 + ((all.drop w.first).take (w.marked - w.first)).length =
      w.marked + 1 := hlayout
  rw [hnumber, hcarets, ← take_drop_split hfirst hstop hline] at hrows
  unfold Diagnostic.excerpt?
  simp only [hall, hne, hw, if_neg horder, Bool.false_eq_true, if_false]
  rw [Layout.excerpt, hlayout]
  exact congrArg (fun rows => some (Excerpt.mk _ rows)) hrows

end

lemma length_toString_le {m n : Nat} (h : m ≤ n) : (toString m).length ≤ (toString n).length := by
  rw [Nat.toString_eq_ofList_toDigits, Nat.toString_eq_ofList_toDigits, String.length_ofList,
    String.length_ofList, Nat.length_toDigits_le_iff (by decide) Nat.length_toDigits_pos]
  have hn := (Nat.length_toDigits_le_iff (by decide) Nat.length_toDigits_pos).mp
    (Nat.le_refl (Nat.toDigits 10 n).length)
  exact Nat.lt_of_le_of_lt h hn

lemma length_toString_of_lt {n k : Nat} (hk : 0 < k) (h : n < 10 ^ k) :
    (toString n).length ≤ k := by
  rwa [Nat.toString_eq_ofList_toDigits, String.length_ofList,
    Nat.length_toDigits_le_iff (by decide) hk]

/-- What an excerpt of a diagnostic shows: consecutive lines of the source with their numbers, which
stand to the right in gutters of one width, that of the last number, and a single row of carets,
directly below one of the lines. -/
structure Diagnostic.Shows (d : Diagnostic) (around : Nat) (l : Layout) : Prop where
  excerpt_eq : d.excerpt? around = some l.excerpt
  gutter_eq : l.gutter = (toString l.last).length
  first_pos : 0 < l.first
  consecutive : l.above ++ l.line :: l.below <+: (lines d.source.toList).drop (l.first - 1)
  aligned : ∀ number text, .line number text ∈ l.excerpt.rows →
    ∃ blanks, blanks + (toString number).length = l.gutter ∧
      (Row.line number text).render l.gutter =
        repeated ' ' blanks ++ toString number ++ " | " ++ String.ofList text ++ "\n"

section

variable {w : Window} {all : List (List Char)} {line : List Char} {indent count : Nat}

lemma number_le_of_mem_layout (hfirst : w.first ≤ w.marked) (hstop : w.marked < w.stop)
    (hline : all[w.marked]? = some line) {number : Nat} {text : List Char}
    (hmem : .line number text ∈ (w.layout all line indent count).excerpt.rows) :
    number ≤ w.stop := by
  rw [Layout.excerpt, Window.number_layout hfirst hline] at hmem
  simp only [List.mem_append, List.mem_cons] at hmem
  rcases hmem with habove | heq | heq | hbelow
  · obtain ⟨i, t, hi, heq⟩ := mem_lineRows habove
    have hlt := (List.getElem?_eq_some_iff.mp hi).1
    cases heq
    simp only [Window.layout, List.length_take] at hlt ⊢
    omega
  · cases heq
    omega
  · cases heq
  · obtain ⟨i, t, hi, heq⟩ := mem_lineRows hbelow
    have hlt := (List.getElem?_eq_some_iff.mp hi).1
    cases heq
    simp only [Window.layout, List.length_take] at hlt
    omega

theorem shows_of_marked {d : Diagnostic} {around : Nat} (hall : lines d.source.toList = all)
    (hw : d.span.window around all.length = w) (hfirst : w.first ≤ w.marked)
    (hstop : w.marked < w.stop) (hcount : w.stop ≤ all.length) (hline : all[w.marked]? = some line)
    (hcarets : d.span.carets (w.marked + 1) line = .carets indent count) :
    d.Shows around (w.layout all line indent count) where
  excerpt_eq := excerpt?_of_marked hall hw hfirst hstop hline hcarets
  gutter_eq := by
    rw [Window.last_layout hfirst hstop hcount hline]
    rfl
  first_pos := Nat.succ_pos w.first
  consecutive := by
    rw [hall]
    simp only [Window.layout, Nat.add_sub_cancel, ← take_drop_split hfirst hstop hline]
    exact List.take_prefix _ _
  aligned := by
    intro number text hmem
    have hle := length_toString_le (number_le_of_mem_layout hfirst hstop hline hmem)
    exact ⟨_, Nat.sub_add_cancel hle, rfl⟩

end

namespace Diagnostic.Shows

variable {d : Diagnostic} {around : Nat} {l : Layout}

lemma last_le (h : d.Shows around l) : l.last ≤ (lines d.source.toList).length := by
  have hprefix := h.consecutive.length_le
  have hfirst := h.first_pos
  simp only [List.length_append, List.length_cons, List.length_drop] at hprefix
  simp only [Layout.last, Layout.number]
  omega

lemma gutter_le (h : d.Shows around l) {k : Nat} (hk : 0 < k)
    (hlines : (lines d.source.toList).length < 10 ^ k) : l.gutter ≤ k := by
  rw [h.gutter_eq]
  exact length_toString_of_lt hk (Nat.lt_of_le_of_lt h.last_le hlines)

end Diagnostic.Shows

lemma fits_of_mem_lineRows {gutter number : Nat} {shown : List (List Char)} {row : Row}
    (h : row ∈ lineRows number shown) : row.fits gutter := by
  obtain ⟨i, text, -, rfl⟩ := mem_lineRows h
  rfl

/-- If memory has room for the carets and the blanks before them, the rows are the snippet. -/
theorem Diagnostic.Shows.snippet?_eq {d : Diagnostic} {around : Nat} {l : Layout}
    (h : d.Shows around l) (hindent : l.gutter + 3 + l.indent ≤ maxCapacity)
    (hcount : l.count ≤ maxCapacity) :
    d.snippet? around = some (String.join (l.excerpt.rows.map (Row.render l.gutter))) := by
  have hfits : l.excerpt.rows.all (Row.fits l.gutter) := by
    rw [List.all_eq_true]
    intro row hrow
    simp only [Layout.excerpt, List.mem_append, List.mem_cons] at hrow
    rcases hrow with habove | rfl | rfl | hbelow
    · exact fits_of_mem_lineRows habove
    · rfl
    · simp [Row.fits, hindent, hcount]
    · exact fits_of_mem_lineRows hbelow
  rw [Diagnostic.snippet?, h.excerpt_eq, Option.bind_some, Excerpt.render?]
  exact if_pos hfits

/-- A text that is not too long leaves room for blanks and carets up to the end of a line. -/
theorem Diagnostic.Shows.snippet?_of_size {d : Diagnostic} {around : Nat} {l : Layout}
    (h : d.Shows around l) (hindent : l.indent ≤ d.source.utf8ByteSize)
    (hcount : l.count ≤ d.source.utf8ByteSize + 1)
    (hroom : d.source.utf8ByteSize + 22 ≤ maxCapacity) :
    d.snippet? around = some (String.join (l.excerpt.rows.map (Row.render l.gutter))) := by
  have hlines := Nat.le_trans (length_lines_le d.source.toList) (length_le_utf8Length _)
  rw [utf8Length_toList] at hlines
  have hcapacity : maxCapacity < 10 ^ 19 := by decide
  have hgutter := h.gutter_le (show 0 < 19 by decide) (by omega)
  exact h.snippet?_eq (by omega) (by omega)

end GrammarTokens
