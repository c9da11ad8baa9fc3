import GrammarTokens.Proofs.Runs
import Mathlib.Data.List.ReduceOption

/-!
# Mixed calls of a lexer

A lexer can be asked with `nextToken`, which goes on answering for ever, and with `next?`, which
falls silent behind the last item. Both draw on one state. However the two are mixed, the tokens
come out as `nextToken` alone would return them, and a finished lexer is not moved any more.
-/

namespace GrammarTokens

/-- The two ways to ask a lexer for what comes next. -/
inductive Call where
  | nextToken
  | next
deriving DecidableEq, Repr

namespace Call

variable {ρ : Type} [CharFeed ρ]

def run : Call → Lexer ρ → Option (Except LexError Token) × Lexer ρ
  | nextToken, l => (some l.nextToken.1, l.nextToken.2)
  | next, l => l.next?

/-- The response of the call that meets the last answer. -/
def finishing (last : Except LexError Token) : Call → Option (Except LexError Token)
  | nextToken => some last
  | next => Lexer.itemOf last

def repeating (last : Except LexError Token) : Call → Option (Except LexError Token)
  | nextToken => some last
  | next => none

/-- The responses to the calls that come behind the last token. -/
def closing (last : Except LexError Token) : List Call → List (Option (Except LexError Token))
  | [] => []
  | call :: calls => call.finishing last :: calls.map (·.repeating last)

lemma run_of_token {l m : Lexer ρ} {token : Token} (h : l.nextToken = (.ok token, m))
    (htoken : token.isEndOfStream = false) (call : Call) :
    call.run l = (some (.ok token), m) := by
  cases call with
  | nextToken => rw [run, h]
  | next => exact Lexer.next?_of_token h htoken

lemma run_of_finishes {l final : Lexer ρ} {last : Except LexError Token}
    (h : l.Finishes last final) (call : Call) : call.run l = (call.finishing last, final) := by
  cases call with
  | nextToken => rw [run, h.nextToken_eq, finishing]
  | next => exact Lexer.next?_of_finishes h

lemma run_of_finished {l : Lexer ρ} {last : Except LexError Token} (hfinished : l.isFinished)
    (hlast : l.nextToken = (last, l)) (call : Call) : call.run l = (call.repeating last, l) := by
  cases call with
  | nextToken => rw [run, hlast, repeating]
  | next => exact Lexer.next?_of_finished hfinished

end Call

namespace Lexer

variable {ρ : Type} [CharFeed ρ]

def respond : List Call → Lexer ρ → List (Option (Except LexError Token)) × Lexer ρ
  | [], l => ([], l)
  | call :: calls, l =>
    let (response, m) := call.run l
    let (responses, n) := respond calls m
    (response :: responses, n)

lemma respond_of_finished {l : Lexer ρ} {last : Except LexError Token} (hfinished : l.isFinished)
    (hlast : l.nextToken = (last, l)) (calls : List Call) :
    respond calls l = (calls.map (·.repeating last), l) := by
  induction calls with
  | nil => rfl
  | cons call calls ih =>
    simp only [respond, Call.run_of_finished hfinished hlast, ih, List.map_cons]

lemma respond_cons_of_token {l m : Lexer ρ} {token : Token} (h : l.nextToken = (.ok token, m))
    (htoken : token.isEndOfStream = false) (call : Call) (calls : List Call) :
    respond (call :: calls) l = (some (.ok token) :: (respond calls m).1, (respond calls m).2) := by
  simp only [respond, Call.run_of_token h htoken]

lemma respond_cons_of_finishes {l final : Lexer ρ} {last : Except LexError Token}
    (h : l.Finishes last final) (call : Call) (calls : List Call) :
    respond (call :: calls) l = (Call.closing last (call :: calls), final) := by
  simp only [respond, Call.run_of_finishes h, respond_of_finished h.finished h.repeats.1,
    Call.closing]

variable {l m final : Lexer ρ} {tokens : List Token} {last : Except LexError Token}

theorem responses_eq (hpasses : l.Passes tokens m) (hfinal : m.Finishes last final)
    (calls : List Call) :
    (respond calls l).1 = (tokens.take calls.length).map (fun token => some (.ok token)) ++
      Call.closing last (calls.drop tokens.length) := by
  induction hpasses generalizing calls with
  | nil =>
    cases calls with
    | nil => rfl
    | cons call calls => rw [respond_cons_of_finishes hfinal]; rfl
  | cons hnext htoken _ ih =>
    cases calls with
    | nil => rfl
    | cons call calls => rw [respond_cons_of_token hnext htoken, ih hfinal]; rfl

theorem passes_respond (hpasses : l.Passes tokens m) (hfinal : m.Finishes last final)
    {calls : List Call} (hcalls : calls.length ≤ tokens.length) :
    l.Passes (tokens.take calls.length) (respond calls l).2 ∧
      (respond calls l).2.status = .running := by
  induction hpasses generalizing calls with
  | nil =>
    obtain rfl := List.length_eq_zero_iff.mp (Nat.le_zero.mp hcalls)
    exact ⟨.nil, hfinal.running⟩
  | cons hnext htoken _ ih =>
    cases calls with
    | nil => exact ⟨.nil, running_of_token hnext htoken⟩
    | cons call calls =>
      obtain ⟨hfront, hrun⟩ := ih hfinal (Nat.le_of_succ_le_succ hcalls)
      rw [respond_cons_of_token hnext htoken]
      exact ⟨.cons hnext htoken hfront, hrun⟩

theorem respond_behind (hpasses : l.Passes tokens m) (hfinal : m.Finishes last final)
    {calls : List Call} (hcalls : tokens.length < calls.length) : (respond calls l).2 = final := by
  induction hpasses generalizing calls with
  | nil =>
    cases calls with
    | nil => cases hcalls
    | cons call calls => rw [respond_cons_of_finishes hfinal]
  | cons hnext htoken _ ih =>
    cases calls with
    | nil => cases hcalls
    | cons call calls =>
      rw [respond_cons_of_token hnext htoken]
      exact ih hfinal (Nat.lt_of_succ_lt_succ hcalls)

/-- Whatever calls there were, the next answer is one that a running lexer gives behind tokens. -/
theorem exists_passes_of_respond (hrun : l.status = .running) {answer : Except LexError Token}
    {calls : List Call} (h : (respond calls l).2.nextToken = (answer, m)) :
    ∃ tokens k, l.Passes tokens k ∧ k.status = .running ∧ k.nextToken = (answer, m) := by
  obtain ⟨tokens, k, last, final, hpasses, hfinal⟩ := exists_finishes l hrun
  by_cases hcalls : calls.length ≤ tokens.length
  · obtain ⟨hfront, hrunning⟩ := passes_respond hpasses hfinal hcalls
    exact ⟨_, _, hfront, hrunning, h⟩
  · rw [respond_behind hpasses hfinal (Nat.lt_of_not_le hcalls), hfinal.repeats.1] at h
    cases h
    exact ⟨tokens, k, hpasses, hfinal.running, hfinal.nextToken_eq⟩

/-- Through `next?` an error can come out at one place only. -/
theorem index_of_item_error (hpasses : l.Passes tokens m) (hfinal : m.Finishes last final)
    {calls : List Call} {i : Nat} {e : LexError} (hcall : calls[i]? = some .next)
    (hresponse : (respond calls l).1[i]? = some (some (.error e))) : i = tokens.length := by
  induction hpasses generalizing calls i with
  | nil =>
    cases calls with
    | nil => cases hcall
    | cons call calls =>
      cases i with
      | zero => rfl
      | succ i =>
        rw [List.getElem?_cons_succ] at hcall
        rw [respond_cons_of_finishes hfinal] at hresponse
        simp [Call.closing, hcall, Call.repeating] at hresponse
  | cons hnext htoken _ ih =>
    cases calls with
    | nil => cases hcall
    | cons call calls =>
      rw [respond_cons_of_token hnext htoken] at hresponse
      cases i with
      | zero => cases hresponse
      | succ i => exact congrArg (· + 1) (ih hfinal hcall hresponse)

lemma count_of_passes (h : l.Passes tokens m) : m.count = l.count + tokens.length := by
  induction h with
  | nil => rfl
  | cons hnext htoken _ ih =>
    obtain ⟨s, rfl⟩ := state_of_token hnext htoken
    rw [ih, List.length_cons]
    dsimp only
    omega

lemma log_of_passes (h : l.Passes tokens m) :
    m.log.toList = l.log.toList ++ tokens.map fun token => .scanned token.kind token.span := by
  induction h with
  | nil => simp
  | cons hnext htoken _ ih =>
    obtain ⟨s, rfl⟩ := state_of_token hnext htoken
    simp [ih]

/-- The entry of the log for the call that meets the last answer. -/
def closingEvent (last : Except LexError Token) (tokens : Nat) : Event :=
  match last with
  | .ok _ => .ended tokens
  | .error e => .failed e tokens

lemma level_closingEvent (last : Except LexError Token) (tokens : Nat) :
    (closingEvent last tokens).level = .debug := by
  cases last <;> rfl

omit [CharFeed ρ] in
lemma levels_of_scanned (tokens : List Token) :
    (tokens.map fun token => Event.scanned token.kind token.span).map
        (fun event => (event.level, event)) =
      tokens.map fun token => (Event.Level.trace, .scanned token.kind token.span) := by
  rw [List.map_map]
  rfl

lemma state_of_finishes (h : l.Finishes last final) :
    final.count = l.count ∧ final.log.toList = l.log.toList ++ [closingEvent last l.count] := by
  obtain ⟨s, rfl, rfl⟩ | ⟨e, s, rfl, rfl⟩ := h.state
  · exact ⟨rfl, Array.toList_push⟩
  · exact ⟨rfl, Array.toList_push⟩

lemma mem_closing {calls : List Call} {answer : Except LexError Token}
    (h : some answer ∈ Call.closing last calls) : answer = last := by
  cases calls with
  | nil => cases h
  | cons call calls =>
    rcases List.mem_cons.mp h with h | h
    · cases call with
      | nextToken => exact Option.some.inj h
      | next =>
        cases last with
        | ok token => cases h
        | error e => exact Option.some.inj h
    · obtain ⟨call, -, h⟩ := List.mem_map.mp h
      cases call with
      | nextToken => exact (Option.some.inj h).symm
      | next => cases h

theorem tokensAmong_respond (hpasses : l.Passes tokens m) (hfinal : m.Finishes last final)
    (calls : List Call) :
    tokensAmong (respond calls l).1.reduceOption = tokens.take calls.length := by
  have hgives := gives_of_finishes hpasses hfinal
  have hclosing : tokensAmong (Call.closing last (calls.drop tokens.length)).reduceOption = [] := by
    apply tokensAmong_eq_nil
    intro token htoken
    have hmem := List.reduceOption_mem_iff.mp htoken
    exact hgives.last_final token (mem_closing hmem).symm
  have hproper : ∀ token ∈ tokens.take calls.length, token.isEndOfStream = false :=
    fun token htoken => hgives.tokens_proper token (List.mem_of_mem_take htoken)
  have hfront : ((tokens.take calls.length).map fun token => some (Except.ok token)).reduceOption =
      (tokens.take calls.length).map (.ok : Token → Except LexError Token) := by
    simp [List.reduceOption, List.filterMap_map]
  rw [responses_eq hpasses hfinal, List.reduceOption_append, tokensAmong_append, hclosing, hfront,
    tokensAmong_tokens hproper, List.append_nil]

/-- A lexer that still runs has returned the tokens among the responses, and nothing else. -/
theorem passes_of_running (hrun : l.status = .running) {calls : List Call}
    (h : (respond calls l).2.isFinished = false) :
    l.Passes (tokensAmong (respond calls l).1.reduceOption) (respond calls l).2 := by
  obtain ⟨tokens, k, last, final, hpasses, hfinal⟩ := exists_finishes l hrun
  by_cases hcalls : calls.length ≤ tokens.length
  · rw [tokensAmong_respond hpasses hfinal]
    exact (passes_respond hpasses hfinal hcalls).1
  · rw [respond_behind hpasses hfinal (Nat.lt_of_not_le hcalls), hfinal.finished] at h
    cases h

/-- What calls in a row get from a fresh lexer, and how they leave it, if `nextToken` alone returns
`tokens` and then `last`, and leaves `final`. -/
structure Served (tokens : List Token) (last : Except LexError Token) (final : Lexer ρ)
    (calls : List Call) (responses : List (Option (Except LexError Token))) (l : Lexer ρ) :
    Prop where
  responses_eq : responses = (tokens.take calls.length).map (fun token => some (.ok token)) ++
    Call.closing last (calls.drop tokens.length)
  tokens_eq : tokensAmong responses.reduceOption = tokens.take calls.length
  count_eq : l.count = (tokens.take calls.length).length
  isFinished_iff : l.isFinished ↔ tokens.length < calls.length
  settled : l.isFinished → l = final ∧ ∀ call : Call, call.run l = (call.repeating last, l)
  one_error : ∀ (i j : Nat) (e e' : LexError),
    calls[i]? = some Call.next → responses[i]? = some (some (.error e)) →
    calls[j]? = some Call.next → responses[j]? = some (some (.error e')) → i = j
  log_eq : l.log.toList.map (fun event => (event.level, event)) =
    (tokens.take calls.length).map
        (fun token => (Event.Level.trace, .scanned token.kind token.span)) ++
      if tokens.length < calls.length then [(.debug, closingEvent last tokens.length)] else []

theorem served_running {l : Lexer ρ} {calls : List Call} (hcount : l.count = 0)
    (hlog : l.log = #[]) (hpasses : l.Passes tokens m) (hfinal : m.Finishes last final)
    (hcalls : calls.length ≤ tokens.length) :
    Served tokens last final calls (respond calls l).1 (respond calls l).2 := by
  obtain ⟨hfront, hrun⟩ := passes_respond hpasses hfinal hcalls
  have hrunning := Bool.eq_false_iff.mp (isFinished_eq_false_iff.mpr hrun)
  refine ⟨responses_eq hpasses hfinal calls, tokensAmong_respond hpasses hfinal calls, ?_,
    iff_of_false hrunning (Nat.not_lt_of_le hcalls), fun h => absurd h hrunning, ?_, ?_⟩
  · rw [count_of_passes hfront, hcount, Nat.zero_add]
  · intro i j e e' hi hei hj hej
    rw [index_of_item_error hpasses hfinal hi hei, index_of_item_error hpasses hfinal hj hej]
  · rw [log_of_passes hfront, hlog, if_neg (Nat.not_lt_of_le hcalls), List.append_nil]
    exact levels_of_scanned _

theorem served_finished {l : Lexer ρ} {calls : List Call} (hcount : l.count = 0)
    (hlog : l.log = #[]) (hpasses : l.Passes tokens m) (hfinal : m.Finishes last final)
    (hcalls : tokens.length < calls.length) :
    Served tokens last final calls (respond calls l).1 (respond calls l).2 := by
  have hall : tokens.take calls.length = tokens := List.take_of_length_le (Nat.le_of_lt hcalls)
  obtain ⟨hsame, hentry⟩ := state_of_finishes hfinal
  refine ⟨responses_eq hpasses hfinal calls, tokensAmong_respond hpasses hfinal calls, ?_, ?_, ?_,
    ?_, ?_⟩
  · rw [respond_behind hpasses hfinal hcalls, hsame, count_of_passes hpasses, hcount, hall,
      Nat.zero_add]
  · rw [respond_behind hpasses hfinal hcalls]
    exact iff_of_true hfinal.finished hcalls
  · rw [respond_behind hpasses hfinal hcalls]
    exact fun _ => ⟨rfl, Call.run_of_finished hfinal.finished hfinal.repeats.1⟩
  · intro i j e e' hi hei hj hej
    rw [index_of_item_error hpasses hfinal hi hei, index_of_item_error hpasses hfinal hj hej]
  · rw [respond_behind hpasses hfinal hcalls, hentry, log_of_passes hpasses,
      count_of_passes hpasses, hcount, hlog, hall, if_pos hcalls, Nat.zero_add, List.map_append,
      List.map_singleton, level_closingEvent]
    exact congrArg (· ++ _) (levels_of_scanned tokens)

/-- Calls of both kinds, mixed in any way, get the tokens that `nextToken` alone would return, and
then its last answer, which the iterator leaves out if it is the mark of the end and gives once if
it is an error. The lexer counts the tokens and finishes with the call that meets the last answer.
From then on no call changes it. The log has an entry for every token and one for the end. The
iterator alone collects the tokens, or the error. -/
theorem respond_ofSource (source : Source ρ) (options : Options) :
    ∃ tokens last final, (ofSource source options).Gives tokens last ∧
      (last = .ok (.endOfStream final.source.position) ∨ ∃ e, last = .error e) ∧
      (ofSource source options).collect.1 = last.map (fun _ => tokens) ∧
      ∀ calls, ∃ responses l, respond calls (ofSource source options) = (responses, l) ∧
        Served tokens last final calls responses l := by
  obtain ⟨tokens, m, last, final, hpasses, hfinal⟩ :=
    exists_finishes (ofSource source options) rfl
  refine ⟨tokens, last, final, gives_of_finishes hpasses hfinal, hfinal.repeats.2,
    collect_of_finishes hpasses hfinal, ?_⟩
  intro calls
  refine ⟨_, _, rfl, ?_⟩
  by_cases hcalls : calls.length ≤ tokens.length
  · exact served_running rfl rfl hpasses hfinal hcalls
  · exact served_finished rfl rfl hpasses hfinal (Nat.lt_of_not_le hcalls)

end Lexer

end GrammarTokens
