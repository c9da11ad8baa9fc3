import GrammarTokens.Overflow
import GrammarTokens.TokenJson
import Mathlib.Data.List.Nodup
import Mathlib.Data.List.Perm.Basic
import Mathlib.Tactic.Lemma

/-!
# The JSON forms of tokens

A record has two forms in JSON, an object that holds its fields by their names and an array of them
in order, and the records within it are in either form again. The forms of positions, spans and
tokens are what is read as them, and nothing else is. The form that is written is one of them.
-/

namespace GrammarTokens

namespace Json

/-- The forms of a record. An object may have other members as well, in any order; an array has the
fields alone. -/
inductive IsRecord (fields : List (String × Json)) : Json → Prop where
  | object {members : List (String × Json)} :
    (∀ field ∈ fields, members.lookup field.1 = some field.2) → IsRecord fields (.object members)
  | array : IsRecord fields (.array (fields.map Prod.snd))

lemma mapM_lookup_eq_some_iff {members fields : List (String × Json)} :
    (fields.map Prod.fst).mapM (fun name => members.lookup name) = some (fields.map Prod.snd) ↔
      ∀ field ∈ fields, members.lookup field.1 = some field.2 := by
  induction fields with
  | nil => simp
  | cons field fields ih =>
    rw [List.map_cons, List.map_cons, List.mapM_cons, List.forall_mem_cons, ← ih]
    cases members.lookup field.1 with
    | none => simp
    | some value =>
      cases (fields.map Prod.fst).mapM (fun name => members.lookup name) with
      | none => simp
      | some values => simp

theorem record?_eq_some_iff {fields : List (String × Json)} {j : Json} :
    j.record? (fields.map Prod.fst) = some (fields.map Prod.snd) ↔ j.IsRecord fields := by
  cases j with
  | object members =>
    rw [record?, mapM_lookup_eq_some_iff]
    exact ⟨.object, fun h => by cases h; assumption⟩
  | array items =>
    rw [record?]
    constructor
    · intro h
      split at h
      · cases h
        exact .array
      · cases h
    · intro h
      cases h
      simp
  | _ => exact ⟨nofun, nofun⟩

/-- If no two members have one name, a name is looked up by membership. -/
lemma lookup_eq_some_iff_mem {members : List (String × Json)} {name : String} {value : Json}
    (h : (members.map Prod.fst).Nodup) :
    members.lookup name = some value ↔ (name, value) ∈ members := by
  induction members with
  | nil => simp
  | cons member members ih =>
    obtain ⟨hnew, hnodup⟩ := List.nodup_cons.mp h
    rw [List.lookup_cons, List.mem_cons]
    by_cases hname : name = member.1
    · subst hname
      have hlater : (member.1, value) ∉ members := fun hmem =>
        hnew (List.mem_map.mpr ⟨_, hmem, rfl⟩)
      simp only [beq_self_eq_true, Option.some.injEq, hlater, or_false]
      exact ⟨fun heq => by rw [← heq], fun heq => congrArg Prod.snd heq.symm⟩
    · have hne : (name, value) ≠ member := fun heq => hname (congrArg Prod.fst heq)
      rw [beq_false_of_ne hname]
      simpa [hne] using ih hnodup

lemma isRecord_object {fields : List (String × Json)} (h : (fields.map Prod.fst).Nodup) :
    IsRecord fields (.object fields) :=
  .object fun _ hfield => (lookup_eq_some_iff_mem h).mpr hfield

lemma record?_perm {members members' : List (String × Json)}
    (hnodup : (members.map Prod.fst).Nodup) (hperm : members.Perm members')
    (names : List String) : record? names (.object members) = record? names (.object members') := by
  have hnodup' : (members'.map Prod.fst).Nodup := (hperm.map Prod.fst).nodup_iff.mp hnodup
  have hlookup (name : String) : members.lookup name = members'.lookup name := by
    apply Option.ext
    intro value
    rw [lookup_eq_some_iff_mem hnodup, lookup_eq_some_iff_mem hnodup', hperm.mem_iff]
  simp only [record?, hlookup]

lemma toNat?_eq_some_iff {j : Json} {n : Nat} :
    j.toNat? = some n ↔ n < UInt64.size ∧ j = .natural n := by
  cases j with
  | natural m =>
    rw [toNat?, natural.injEq]
    split
    · next hm => exact ⟨fun h => by cases h; exact ⟨hm, rfl⟩, fun h => congrArg some h.2⟩
    · next hm => exact ⟨nofun, fun h => absurd (h.2 ▸ h.1) hm⟩
  | _ => simp [toNat?]

lemma toString?_eq_some_iff {j : Json} {s : String} : j.toString? = some s ↔ j = .string s := by
  cases j <;> simp [toString?]

end Json

namespace Position

def IsForm (p : Position) (j : Json) : Prop :=
  p.InRange ∧ j.IsRecord [("line", .natural p.line), ("column", .natural p.column),
    ("offset", .natural p.offset)]

theorem ofJson?_eq_some_iff {j : Json} {p : Position} : ofJson? j = some p ↔ p.IsForm j := by
  constructor
  · intro h
    unfold ofJson? at h
    split at h
    · next line column offset hrecord =>
      simp only [Option.bind_eq_bind, Option.bind_eq_some_iff, Option.pure_def,
        Option.some.injEq] at h
      obtain ⟨l, hline, c, hcolumn, o, hoffset, rfl⟩ := h
      obtain ⟨hl, rfl⟩ := Json.toNat?_eq_some_iff.mp hline
      obtain ⟨hc, rfl⟩ := Json.toNat?_eq_some_iff.mp hcolumn
      obtain ⟨ho, rfl⟩ := Json.toNat?_eq_some_iff.mp hoffset
      exact ⟨⟨hl, hc, ho⟩, Json.record?_eq_some_iff.mp hrecord⟩
    · cases h
  · rintro ⟨⟨hl, hc, ho⟩, hrecord⟩
    have hread : j.record? ["line", "column", "offset"] =
        some [.natural p.line, .natural p.column, .natural p.offset] :=
      Json.record?_eq_some_iff.mpr hrecord
    simp [ofJson?, hread, Json.toNat?, hl, hc, ho]

lemma isForm_toJson {p : Position} (h : p.InRange) : p.IsForm p.toJson :=
  ⟨h, Json.isRecord_object (by simp)⟩

end Position

namespace Span

structure InRange (s : Span) : Prop where
  start : s.start.InRange
  stop : s.stop.InRange

def IsForm (s : Span) (j : Json) : Prop :=
  ∃ start stop, s.start.IsForm start ∧ s.stop.IsForm stop ∧
    j.IsRecord [("start", start), ("end", stop)]

theorem ofJson?_eq_some_iff {j : Json} {s : Span} : ofJson? j = some s ↔ s.IsForm j := by
  constructor
  · intro h
    unfold ofJson? at h
    split at h
    · next start stop hrecord =>
      simp only [Option.bind_eq_bind, Option.bind_eq_some_iff, Option.pure_def,
        Option.some.injEq] at h
      obtain ⟨p, hstart, q, hstop, rfl⟩ := h
      exact ⟨start, stop, Position.ofJson?_eq_some_iff.mp hstart,
        Position.ofJson?_eq_some_iff.mp hstop, Json.record?_eq_some_iff.mp hrecord⟩
    · cases h
  · rintro ⟨start, stop, hstart, hstop, hrecord⟩
    have hread : j.record? ["start", "end"] = some [start, stop] :=
      Json.record?_eq_some_iff.mpr hrecord
    rw [← Position.ofJson?_eq_some_iff] at hstart hstop
    simp [ofJson?, hread, hstart, hstop]

lemma isForm_toJson {s : Span} (h : s.InRange) : s.IsForm s.toJson :=
  ⟨_, _, Position.isForm_toJson h.start, Position.isForm_toJson h.stop,
    Json.isRecord_object (by simp)⟩

end Span

namespace Token

/-- The JSON forms of a kind: its name, and an object that has the name for its only key and nothing
behind it. -/
inductive Kind.IsForm (kind : Kind) : Json → Prop where
  | name : IsForm kind (.string kind.name)
  | key : IsForm kind (.object [(kind.name, .null)])

lemma Kind.ofName?_eq_some_iff {s : String} {kind : Kind} :
    ofName? s = some kind ↔ s = kind.name := by
  constructor
  · intro h
    have hname := List.find?_some h
    exact (of_decide_eq_true hname).symm
  · rintro rfl
    exact ofName?_name kind

theorem Kind.ofJson?_eq_some_iff {j : Json} {kind : Kind} :
    Kind.ofJson? j = some kind ↔ kind.IsForm j := by
  constructor
  · intro h
    unfold Kind.ofJson? at h
    split at h
    · obtain rfl := Kind.ofName?_eq_some_iff.mp h
      exact .name
    · obtain rfl := Kind.ofName?_eq_some_iff.mp h
      exact .key
    · cases h
  · intro h
    cases h with
    | name => exact ofName?_name kind
    | key => exact ofName?_name kind

def IsForm (t : Token) (j : Json) : Prop :=
  ∃ kind span, t.kind.IsForm kind ∧ t.span.IsForm span ∧
    j.IsRecord [("kind", kind), ("text", .string t.text), ("span", span)]

theorem ofJson?_eq_some_iff {j : Json} {t : Token} : ofJson? j = some t ↔ t.IsForm j := by
  constructor
  · intro h
    unfold ofJson? at h
    split at h
    · next kind text span hrecord =>
      simp only [Option.bind_eq_bind, Option.bind_eq_some_iff, Option.pure_def,
        Option.some.injEq] at h
      obtain ⟨k, hkind, x, htext, s, hspan, rfl⟩ := h
      obtain rfl := Json.toString?_eq_some_iff.mp htext
      exact ⟨kind, span, Kind.ofJson?_eq_some_iff.mp hkind, Span.ofJson?_eq_some_iff.mp hspan,
        Json.record?_eq_some_iff.mp hrecord⟩
    · cases h
  · rintro ⟨kind, span, hkind, hspan, hrecord⟩
    have hread : j.record? ["kind", "text", "span"] = some [kind, .string t.text, span] :=
      Json.record?_eq_some_iff.mpr hrecord
    rw [← Kind.ofJson?_eq_some_iff] at hkind
    rw [← Span.ofJson?_eq_some_iff] at hspan
    simp [ofJson?, hread, hkind, hspan, Json.toString?]

lemma isForm_toJson {t : Token} (h : t.span.InRange) : t.IsForm t.toJson :=
  ⟨_, _, .name, Span.isForm_toJson h, Json.isRecord_object (by simp)⟩

lemma listOfJson?_listToJson {tokens : List Token} (h : ∀ t ∈ tokens, t.span.InRange) :
    listOfJson? (listToJson tokens) = some tokens := by
  unfold listOfJson? listToJson
  induction tokens with
  | nil => rfl
  | cons t tokens ih =>
    obtain ⟨ht, htokens⟩ := List.forall_mem_cons.mp h
    have hread := ofJson?_eq_some_iff.mpr (isForm_toJson ht)
    have hlater := ih htokens
    dsimp only at hlater ⊢
    rw [List.map_cons, List.mapM_cons, hread, hlater]
    rfl

end Token

/-- Tokens are read back from what is written of them, if the counts of their spans fit into 64
bits. Tokens, spans and positions are read from their forms, each from the forms of the value that
is read and from nothing else, so all forms of one value give this value. In an object whose members
have different names their order does not matter. -/
theorem json_forms_of_tokens :
    (∀ tokens : List Token, (∀ t ∈ tokens, t.span.InRange) →
      Token.listOfJson? (Token.listToJson tokens) = some tokens) ∧
    (∀ j t, Token.ofJson? j = some t ↔ t.IsForm j) ∧
    (∀ j s, Span.ofJson? j = some s ↔ s.IsForm j) ∧
    (∀ j p, Position.ofJson? j = some p ↔ p.IsForm j) ∧
    ∀ members members' : List (String × Json), (members.map Prod.fst).Nodup →
      members.Perm members' →
      Token.ofJson? (.object members) = Token.ofJson? (.object members') ∧
      Span.ofJson? (.object members) = Span.ofJson? (.object members') ∧
      Position.ofJson? (.object members) = Position.ofJson? (.object members') := by
  refine ⟨fun _ => Token.listOfJson?_listToJson, fun _ _ => Token.ofJson?_eq_some_iff,
    fun _ _ => Span.ofJson?_eq_some_iff, fun _ _ => Position.ofJson?_eq_some_iff, ?_⟩
  intro members members' hnodup hperm
  have hrecord := Json.record?_perm hnodup hperm
  simp only [Token.ofJson?, Span.ofJson?, Position.ofJson?, hrecord, true_and]

/-- A token with counts that only fit into 64 bits is written and read back. It is also read from an
object with one more member, whichever way round, that holds an array for the span. -/
theorem json_forms_of_tokens_large_counts :
    ∃ (t : Token) (members : List (String × Json)),
      t = ⟨.actionBlock, "é", ⟨⟨1, 9007199254740993, 18446744073709551615⟩, ⟨0, 0, 0⟩⟩⟩ ∧
      members = [("note", .null), ("span", .array [t.span.start.toJson,
          .array [.natural 0, .natural 0, .natural 0]]), ("text", .string "é"),
        ("kind", .object [("ActionBlock", .null)])] ∧
      (∀ u ∈ [t, t], u.span.InRange) ∧ Token.listOfJson? (Token.listToJson [t, t]) = some [t, t] ∧
      (members.map Prod.fst).Nodup ∧ members.Perm members.reverse ∧
      t.IsForm (.object members.reverse) := by
  obtain ⟨hback, htoken, -, -, horder⟩ := json_forms_of_tokens
  obtain ⟨t, ht⟩ : ∃ t : Token, t =
    ⟨.actionBlock, "é", ⟨⟨1, 9007199254740993, 18446744073709551615⟩, ⟨0, 0, 0⟩⟩⟩ := ⟨_, rfl⟩
  obtain ⟨members, hmembers⟩ : ∃ members : List (String × Json), members =
    [("note", .null), ("span", .array [t.span.start.toJson,
      .array [.natural 0, .natural 0, .natural 0]]), ("text", .string "é"),
      ("kind", .object [("ActionBlock", .null)])] := ⟨_, rfl⟩
  have hrange : t.span.InRange := by
    rw [ht]
    exact ⟨⟨by decide, by decide, by decide⟩, ⟨by decide, by decide, by decide⟩⟩
  have hall : ∀ u ∈ [t, t], u.span.InRange := by simpa using hrange
  have hnodup : (members.map Prod.fst).Nodup := by rw [hmembers]; simp
  have hperm : members.Perm members.reverse := (List.reverse_perm members).symm
  have hread : Token.ofJson? (.object members) = some t := by
    rw [hmembers, ht]
    decide
  rw [(horder members members.reverse hnodup hperm).1, htoken] at hread
  exact ⟨t, members, ht, hmembers, hall, hback _ hall, hnodup, hperm, hread⟩

end GrammarTokens
