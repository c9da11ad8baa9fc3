import GrammarTokens.Span

/-!
# Counts of 64 bits

Lines, columns and offsets are kept in 64 bits. A count that grows beyond them loses what is too
much, or the program stops; which of the two depends on how the program was built. As long as all
counts fit, counting on from a position leads where it leads with natural numbers. A text that
stands at the beginning is never long enough for anything else, but a position may come from
elsewhere.
-/

namespace GrammarTokens

/-- What becomes of a sum that does not fit into 64 bits. -/
inductive Overflow where
  /-- It is taken modulo 2^64. -/
  | wrap
  /-- The program stops. -/
  | stop
deriving DecidableEq, Repr, Inhabited

/-- A sum in 64 bits, if the program does not stop. -/
def Overflow.add? (o : Overflow) (m n : Nat) : Option Nat :=
  if m + n < UInt64.size then some (m + n)
  else match o with
    | wrap => some ((m + n) % UInt64.size)
    | stop => none

namespace Overflow

variable {o : Overflow} {m n : Nat}

theorem add?_of_lt (h : m + n < UInt64.size) : o.add? m n = some (m + n) := if_pos h

theorem add?_wrap : wrap.add? m n = some ((m + n) % UInt64.size) := by
  rw [add?]
  split
  · next h => rw [Nat.mod_eq_of_lt h]
  · rfl

theorem add?_stop_eq_some_iff {sum : Nat} :
    stop.add? m n = some sum ↔ m + n < UInt64.size ∧ sum = m + n := by
  rw [add?]
  split
  · next h => simp [h, eq_comm]
  · next h => simp [h]

end Overflow

namespace Position

/-- A position whose counts are numbers of 64 bits. -/
structure InRange (p : Position) : Prop where
  line_lt : p.line < UInt64.size
  column_lt : p.column < UInt64.size
  offset_lt : p.offset < UInt64.size

/-- Each count modulo 2^64. -/
def wrapped (p : Position) : Position :=
  ⟨p.line % UInt64.size, p.column % UInt64.size, p.offset % UInt64.size⟩

/-- The position after one more character, if the program does not stop. -/
def advance? (o : Overflow) (p : Position) (c : Char) : Option Position :=
  (o.add? p.offset c.utf8Size).bind fun offset =>
    if c = '\n' then (o.add? p.line 1).map fun line => ⟨line, 1, offset⟩
    else (o.add? p.column 1).map fun column => ⟨p.line, column, offset⟩

/-- The position after a run of characters, if the program does not stop. -/
def advanceBy? (o : Overflow) (p : Position) (cs : List Char) : Option Position :=
  cs.foldlM (advance? o) p

/-- No count grows beyond 64 bits on the way through a text. -/
def CountsFit (p : Position) (text : List Char) : Prop :=
  ∀ front, front <+: text → (p.advanceBy front).InRange

variable {o : Overflow} {p q : Position} {c : Char} {cs ds : List Char}

theorem inRange_wrapped (p : Position) : p.wrapped.InRange where
  line_lt := Nat.mod_lt _ (by decide)
  column_lt := Nat.mod_lt _ (by decide)
  offset_lt := Nat.mod_lt _ (by decide)

theorem wrapped_of_inRange (h : p.InRange) : p.wrapped = p := by
  rw [wrapped, Nat.mod_eq_of_lt h.line_lt, Nat.mod_eq_of_lt h.column_lt,
    Nat.mod_eq_of_lt h.offset_lt]

/-- What was lost before a character does not matter if as much is lost behind it. -/
theorem wrapped_advance_wrapped (p : Position) (c : Char) :
    (p.wrapped.advance c).wrapped = (p.advance c).wrapped := by
  by_cases hc : c = '\n'
  · simp [wrapped, advance, hc]
  · simp [wrapped, advance, hc]

theorem wrapped_advanceBy_wrapped (p : Position) (cs : List Char) :
    (p.wrapped.advanceBy cs).wrapped = (p.advanceBy cs).wrapped := by
  induction cs generalizing p with
  | nil => exact wrapped_of_inRange p.inRange_wrapped
  | cons c cs ih =>
    rw [advanceBy_cons, advanceBy_cons, ← ih, wrapped_advance_wrapped, ih]

theorem advance?_of_inRange (h : (p.advance c).InRange) : p.advance? o c = some (p.advance c) := by
  obtain ⟨hline, hcolumn, hoffset⟩ := h
  rw [offset_advance] at hoffset
  rw [advance?, Overflow.add?_of_lt hoffset, Option.bind_some]
  by_cases hc : c = '\n'
  · simp only [advance, if_pos hc] at hline ⊢
    rw [Overflow.add?_of_lt hline, Option.map_some]
  · simp only [advance, if_neg hc] at hcolumn ⊢
    rw [Overflow.add?_of_lt hcolumn, Option.map_some]

theorem advance?_wrap (h : p.InRange) : p.advance? .wrap c = some (p.advance c).wrapped := by
  have hline := Nat.mod_eq_of_lt h.line_lt
  rw [advance?, Overflow.add?_wrap, Option.bind_some]
  by_cases hc : c = '\n'
  · rw [if_pos hc, Overflow.add?_wrap, advance, if_pos hc]
    rfl
  · rw [if_neg hc, Overflow.add?_wrap, advance, if_neg hc, wrapped, hline]
    rfl

theorem advance?_stop_eq_some_iff (h : p.InRange) :
    p.advance? .stop c = some q ↔ (p.advance c).InRange ∧ q = p.advance c := by
  constructor
  · intro hsome
    obtain ⟨offset, hoffset, hsome⟩ := Option.bind_eq_some_iff.mp hsome
    obtain ⟨hlt, rfl⟩ := Overflow.add?_stop_eq_some_iff.mp hoffset
    have hone : 1 < UInt64.size := by decide
    by_cases hc : c = '\n'
    · rw [if_pos hc] at hsome
      obtain ⟨line, hline, rfl⟩ := Option.map_eq_some_iff.mp hsome
      obtain ⟨hlater, rfl⟩ := Overflow.add?_stop_eq_some_iff.mp hline
      rw [advance, if_pos hc]
      exact ⟨⟨hlater, hone, hlt⟩, rfl⟩
    · rw [if_neg hc] at hsome
      obtain ⟨column, hcolumn, rfl⟩ := Option.map_eq_some_iff.mp hsome
      obtain ⟨hlater, rfl⟩ := Overflow.add?_stop_eq_some_iff.mp hcolumn
      rw [advance, if_neg hc]
      exact ⟨⟨h.line_lt, hlater, hlt⟩, rfl⟩
  · rintro ⟨hrange, rfl⟩
    exact advance?_of_inRange hrange

@[simp] theorem advanceBy?_nil : p.advanceBy? o [] = some p := rfl

@[simp] theorem advanceBy?_cons :
    p.advanceBy? o (c :: cs) = (p.advance? o c).bind (advanceBy? o · cs) := rfl

theorem advanceBy?_append :
    p.advanceBy? o (cs ++ ds) = (p.advanceBy? o cs).bind (advanceBy? o · ds) := by
  rw [advanceBy?, List.foldlM_append]
  rfl

theorem CountsFit.inRange (h : p.CountsFit cs) : p.InRange := h [] List.nil_prefix

theorem countsFit_nil : p.CountsFit [] ↔ p.InRange := by
  refine ⟨CountsFit.inRange, fun h front hfront => ?_⟩
  rw [List.prefix_nil.mp hfront]
  exact h

theorem countsFit_cons : p.CountsFit (c :: cs) ↔ p.InRange ∧ (p.advance c).CountsFit cs := by
  refine ⟨fun h => ⟨h.inRange, fun front hfront => ?_⟩, fun h front hfront => ?_⟩
  · exact h (c :: front) (List.prefix_cons_inj c |>.mpr hfront)
  · cases front with
    | nil => exact h.1
    | cons d front =>
      obtain ⟨rfl, hmore⟩ := List.cons_prefix_cons.mp hfront
      exact h.2 front hmore

theorem CountsFit.of_prefix (h : p.CountsFit ds) (hcs : cs <+: ds) : p.CountsFit cs :=
  fun front hfront => h front (hfront.trans hcs)

/-- The counts of a later part fit as well, if one counts on from where it begins. -/
theorem CountsFit.behind (h : p.CountsFit (cs ++ ds)) : (p.advanceBy cs).CountsFit ds := by
  intro front hfront
  rw [← advanceBy_append]
  exact h _ ((List.prefix_append_right_inj cs).mpr hfront)

/-- As long as all counts fit, 64 bits are as good as natural numbers. -/
theorem advanceBy?_of_countsFit (h : p.CountsFit cs) :
    p.advanceBy? o cs = some (p.advanceBy cs) := by
  induction cs generalizing p with
  | nil => rfl
  | cons c cs ih =>
    have hcs := (countsFit_cons.mp h).2
    rw [advanceBy?_cons, advance?_of_inRange hcs.inRange, Option.bind_some, ih hcs, advanceBy_cons]

/-- A program that does not stop has lost the multiples of 2^64 in the end. -/
theorem advanceBy?_wrap (h : p.InRange) :
    p.advanceBy? .wrap cs = some (p.advanceBy cs).wrapped := by
  induction cs generalizing p with
  | nil => rw [advanceBy?_nil, advanceBy_nil, wrapped_of_inRange h]
  | cons c cs ih =>
    rw [advanceBy?_cons, advance?_wrap h, Option.bind_some, ih (inRange_wrapped _),
      wrapped_advanceBy_wrapped, advanceBy_cons]

/-- A program that may stop does so exactly if some count does not fit on the way. -/
theorem advanceBy?_stop_eq_some_iff (h : p.InRange) :
    p.advanceBy? .stop cs = some q ↔ p.CountsFit cs ∧ q = p.advanceBy cs := by
  induction cs generalizing p with
  | nil =>
    rw [advanceBy?_nil, countsFit_nil, advanceBy_nil, Option.some.injEq]
    exact ⟨fun heq => ⟨h, heq.symm⟩, fun hq => hq.2.symm⟩
  | cons c cs ih =>
    rw [advanceBy?_cons, Option.bind_eq_some_iff, countsFit_cons, advanceBy_cons]
    constructor
    · rintro ⟨r, hr, hq⟩
      obtain ⟨hrange, rfl⟩ := (advance?_stop_eq_some_iff h).mp hr
      obtain ⟨hcs, rfl⟩ := (ih hrange).mp hq
      exact ⟨⟨h, hcs⟩, rfl⟩
    · rintro ⟨⟨-, hcs⟩, rfl⟩
      exact ⟨_, advance?_of_inRange hcs.inRange, (ih hcs.inRange).mpr ⟨hcs, rfl⟩⟩

theorem advanceBy?_stop_eq_none_iff (h : p.InRange) :
    p.advanceBy? .stop cs = none ↔ ¬ p.CountsFit cs := by
  constructor
  · intro hnone hfit
    rw [advanceBy?_of_countsFit hfit] at hnone
    cases hnone
  · intro hlarge
    rw [Option.eq_none_iff_forall_ne_some]
    intro q hq
    exact hlarge ((advanceBy?_stop_eq_some_iff h).mp hq).1

end Position

/-- The span that characters cover from a position on, if the program does not stop. -/
def Span.over? (o : Overflow) (p : Position) (cs : List Char) : Option Span :=
  (p.advanceBy? o cs).map fun stop => ⟨p, stop⟩

theorem Span.over?_of_countsFit {o : Overflow} {p : Position} {cs : List Char}
    (h : p.CountsFit cs) : Span.over? o p cs = some (Span.over p cs) := by
  rw [over?, Position.advanceBy?_of_countsFit h]
  rfl

end GrammarTokens
