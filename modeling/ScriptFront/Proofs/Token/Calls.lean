import ScriptFront.Proofs.Token.Marks

/-!
# A reader as a cursor

A reader can be asked for its next item, for all tokens that are left, and to go back to the start,
in any order.  Whatever it has been asked before, its answers are those of a cursor in one fixed
list: the items of its text.
-/

namespace ScriptFront

/-! ## Calls and answers -/

/-- What a reader can be asked for. -/
inductive Call where
  | next
  | tokens
  | restart
deriving DecidableEq, Repr

/-- What a reader answers. -/
inductive Answer where
  | item (item? : Option Item)
  | tokens (result : Except Fault (List Token))
  | restarted

section Answers

variable {State Other : Type} {answer : State → Call → Answer × State}
  {otherAnswer : Other → Call → Answer × Other}

/-- The answers to calls that are made one after the other. -/
def answers (answer : State → Call → Answer × State) (state : State) : List Call → List Answer
  | [] => []
  | call :: calls => (answer state call).1 :: answers answer (answer state call).2 calls

/-- Two that give the same answer to each call and stay related give the same answers to any
calls. -/
theorem answers_eq_of_related
    {Related : State → Other → Prop}
    (each : ∀ state other call, Related state other →
      (answer state call).1 = (otherAnswer other call).1 ∧
        Related (answer state call).2 (otherAnswer other call).2)
    {state : State} {other : Other} (related : Related state other) (calls : List Call) :
    answers answer state calls = answers otherAnswer other calls := by
  induction calls generalizing state other with
  | nil => rfl
  | cons call calls inductionHypothesis =>
      obtain ⟨sameAnswer, stillRelated⟩ := each state other call related
      rw [answers, answers, sameAnswer, inductionHypothesis stillRelated]

end Answers

def Reader.answer (reader : Reader) : Call → Answer × Reader
  | .next => (.item reader.next.1, reader.next.2)
  | .tokens => (.tokens reader.tokens.1, reader.tokens.2)
  | .restart => (.restarted, reader.restart)

def MarkedReader.answer
    (reach : LexicalCause → List Char → Nat) (reader : MarkedReader) : Call → Answer × MarkedReader
  | .next => (.item (reader.next reach).1, (reader.next reach).2)
  | .tokens => (.tokens (reader.tokens reach).1, (reader.tokens reach).2)
  | .restart => (.restarted, reader.restart)

/-- Marks make no difference to the answers, wherever failed steps leave them. -/
theorem MarkedReader.answers_unmarked
    (reach : LexicalCause → List Char → Nat) (reader : MarkedReader) (calls : List Call) :
    answers (answer reach) reader calls = answers Reader.answer reader.unmarked calls := by
  have each (marked : MarkedReader) (other : Reader) (call : Call)
      (related : marked.unmarked = other) :
      (marked.answer reach call).1 = (other.answer call).1 ∧
        (marked.answer reach call).2.unmarked = (other.answer call).2 := by
    subst related
    cases call with
    | next =>
        obtain ⟨sameItem, sameReader⟩ := marked.next_unmarked reach
        exact ⟨congrArg Answer.item sameItem, sameReader⟩
    | tokens =>
        obtain ⟨sameTokens, sameReader⟩ := marked.tokens_unmarked reach
        exact ⟨congrArg Answer.tokens sameTokens, sameReader⟩
    | restart => exact ⟨rfl, marked.unmarked_restart⟩
  exact answers_eq_of_related each rfl calls

/-! ## A cursor in a list -/

def Item.fault? : Item → Option Fault
  | .ok _ => none
  | .error fault => some fault

def Item.token? : Item → Option Token
  | .ok token => some token
  | .error _ => none

/-- The first fault among items, or their tokens without whitespace and comments if there is
none. -/
def tokensAmong (items : List Item) : Except Fault (List Token) :=
  match items.findSome? Item.fault? with
  | some fault => .error fault
  | none => .ok ((items.filterMap Item.token?).filter fun token =>
      match token.kind with
      | .whitespace | .comment _ => false
      | _ => true)

theorem tokensAmong_eq (items : List Item) :
    tokensAmong items =
      match items.findSome? Item.fault? with
      | some fault => .error fault
      | none => .ok (Token.significant (items.filterMap Item.token?)) := by
  rw [tokensAmong]
  cases items.findSome? Item.fault? with
  | some fault => rfl
  | none =>
      refine congrArg Except.ok (List.filter_congr fun token _ => ?_)
      rw [Token.isTrivia]
      cases token.kind <;> rfl

theorem significantTokens_eq (items : List Item) : significantTokens items = tokensAmong items := by
  induction items with
  | nil => rfl
  | cons item items inductionHypothesis =>
      cases item with
      | error fault => exact significantTokens_cons_error fault items
      | ok token =>
          have sameFault : (Except.ok token :: items).findSome? Item.fault? =
              items.findSome? Item.fault? := rfl
          have first : (Except.ok token :: items).filterMap Item.token? =
              token :: items.filterMap Item.token? := rfl
          rw [significantTokens_cons_ok, inductionHypothesis, tokensAmong_eq, tokensAmong_eq,
            sameFault, first]
          cases items.findSome? Item.fault? with
          | some fault => rfl
          | none => exact congrArg Except.ok (List.filter_append [token] _).symm

/-- The tokens of a text are items of it. -/
theorem of_mem_tokenize
    {source : String} {file : Option String} {tokens : List Token} {token : Token}
    (lexed : tokenize source file = .ok tokens) (member : token ∈ tokens) :
    .ok token ∈ rawItems source file ∧ token.isTrivia = false := by
  rw [tokenize, significantTokens_eq, tokensAmong_eq] at lexed
  split at lexed
  · cases lexed
  · obtain rfl := Except.ok.inj lexed
    rcases List.mem_filter.1 member with ⟨isItem, means⟩
    rcases List.mem_filterMap.1 isItem with ⟨item, isAmong, isToken⟩
    refine ⟨?_, by simpa using means⟩
    cases item with
    | error fault => cases isToken
    | ok other => exact Option.some.inj isToken ▸ isAmong

/-- A list of items and a place in it. -/
structure ItemCursor where
  items : List Item
  place : Nat

/-- The next item is the one at the place, which then moves on; all tokens that are left are taken
from the items behind the place, which then moves to the end. -/
def ItemCursor.answer (cursor : ItemCursor) : Call → Answer × ItemCursor
  | .next =>
    match cursor.items[cursor.place]? with
    | none => (.item none, cursor)
    | some item => (.item (some item), { cursor with place := cursor.place + 1 })
  | .tokens =>
    (.tokens (tokensAmong (cursor.items.drop cursor.place)),
      { cursor with place := cursor.items.length })
  | .restart => (.restarted, { cursor with place := 0 })

/-- The reader reads the text whose items the list holds, and the items behind the place of the
cursor are left. -/
structure Reader.StandsAt
    (source : String) (file : Option String) (reader : Reader) (cursor : ItemCursor) : Prop where
  sameText : reader.source = source.toList
  sameFile : reader.file = file
  whole : cursor.items = rawItems source file
  left : reader.remaining = cursor.items.drop cursor.place

namespace Reader

variable {source : String} {file : Option String} {reader : Reader} {cursor : ItemCursor}

/-- One call is answered alike, and the reader then stands where the cursor does. -/
theorem StandsAt.answer (stands : StandsAt source file reader cursor) (call : Call) :
    (reader.answer call).1 = (cursor.answer call).1 ∧
      StandsAt source file (reader.answer call).2 (cursor.answer call).2 := by
  obtain ⟨isText, isFile, whole, left⟩ := stands
  cases call with
  | next =>
      obtain ⟨isHead, isTail⟩ := reader.next_eq
      rw [left, List.head?_drop] at isHead
      rw [left, List.tail_drop] at isTail
      have stillText := reader.source_next.trans isText
      have stillFile := reader.file_next.trans isFile
      cases isItem : cursor.items[cursor.place]? with
      | none =>
          have ended : cursor.items.length ≤ cursor.place := List.getElem?_eq_none_iff.1 isItem
          have nothingLeft :
              cursor.items.drop (cursor.place + 1) = cursor.items.drop cursor.place := by
            rw [List.drop_of_length_le ended, List.drop_of_length_le (Nat.le_succ_of_le ended)]
          simp only [Reader.answer, ItemCursor.answer, isItem, isHead]
          exact ⟨trivial, stillText, stillFile, whole, isTail.trans nothingLeft⟩
      | some item =>
          simp only [Reader.answer, ItemCursor.answer, isItem, isHead]
          exact ⟨trivial, stillText, stillFile, whole, isTail⟩
  | tokens =>
      have sameTokens : reader.tokens.1 = tokensAmong (cursor.items.drop cursor.place) := by
        rw [← significantTokens_eq, ← left]
        rfl
      exact ⟨congrArg Answer.tokens sameTokens, isText, isFile, whole, List.drop_length.symm⟩
  | restart =>
      have fromStart : reader.restart.remaining = rawItems source file := by
        rw [restart, isText, isFile]
        rfl
      exact ⟨rfl, isText, isFile, whole, fromStart.trans whole.symm⟩

end Reader

/-- Whatever a text is, there is one list of items, up to the end of input or the first fault, such
that a reader of the text answers any calls in any order like a cursor that starts in front of that
list.  A reader that keeps its state in marks does so too, wherever the steps that fail leave
them. -/
theorem calls_follow_items (source : String) (file : Option String) :
    ∃ front last, rawItems source file = front ++ [last] ∧
      ((∃ token, last = .ok token ∧ token.kind = .endOfInput) ∨ ∃ fault, last = .error fault) ∧
      (∀ item ∈ front, ∃ token, item = .ok token ∧ token.kind ≠ .endOfInput) ∧
      ∀ calls : List Call,
        answers Reader.answer (.ofSource source file) calls =
            answers ItemCursor.answer ⟨front ++ [last], 0⟩ calls ∧
          ∀ reach, answers (MarkedReader.answer reach) (.ofSource source file) calls =
            answers ItemCursor.answer ⟨front ++ [last], 0⟩ calls := by
  obtain ⟨front, last, whole, isLast, notBefore⟩ :=
    (Scanner.sound_start source.toList).items_end file
  have isList : rawItems source file = front ++ [last] := whole
  have stands : Reader.StandsAt source file (.ofSource source file) ⟨front ++ [last], 0⟩ :=
    ⟨rfl, rfl, isList.symm, isList⟩
  have follows (calls : List Call) :
      answers Reader.answer (.ofSource source file) calls =
        answers ItemCursor.answer ⟨front ++ [last], 0⟩ calls :=
    answers_eq_of_related (fun _ _ call related => related.answer call) stands calls
  refine ⟨front, last, isList, isLast, notBefore, ?_⟩
  intro calls
  refine ⟨follows calls, ?_⟩
  intro reach
  rw [MarkedReader.answers_unmarked, MarkedReader.unmarked_ofSource, follows]

end ScriptFront
