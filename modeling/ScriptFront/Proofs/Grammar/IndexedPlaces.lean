import ScriptFront.Proofs.Grammar.IndexedParser
import ScriptFront.Proofs.Grammar.Passing

/-!
# Places of a parser with an index

An index that is not behind the first end of the input is a place in the tokens in front of it.
What the parser finds there and where it goes is what the place says.
-/

namespace ScriptFront

/-- Tokens with their first end of the input. -/
structure Input where
  front : List Token
  final : Token
  behind : List Token
  noEnd : ∀ token ∈ front, token.kind ≠ .endOfInput
  isEnd : final.kind = .endOfInput

namespace Input

def tokens (input : Input) : List Token := input.front ++ input.final :: input.behind

/-- The parser is at the place, with a number of open argument lists. -/
structure Stands (input : Input) (depth : Nat) (cursor : Cursor) (parser : Parser) : Prop where
  tokens_eq : parser.tokens = input.tokens
  depth_eq : parser.commandDepth = depth
  current_le : parser.current ≤ input.front.length
  ahead : cursor.ahead = input.front.drop parser.current
  ending : cursor.ending = ⟨input.final.location, input.final.spaced⟩
  afterBody : cursor.afterBody =
    (input.front.take parser.current).getLast?.any fun token => decide (token.kind = .dedent)

end Input

/-- The tokens differ at most in the text of an end of the input. -/
structure Token.Alike (token other : Token) : Prop where
  kind : token.kind = other.kind
  location : token.location = other.location
  spaced : token.spaced = other.spaced
  eq_of_real : token.kind ≠ .endOfInput → token = other

namespace Token.Alike

variable {token other : Token}

theorem describe (alike : token.Alike other) : token.describe = other.describe := by
  by_cases isEnd : token.kind = .endOfInput
  · have alsoEnd : other.kind = .endOfInput := alike.kind ▸ isEnd
    simp only [Token.describe, isEnd, alsoEnd]
  · rw [alike.eq_of_real isEnd]

theorem fault (alike : token.Alike other) (refusal : Refusal) :
    refusal.fault token = refusal.fault other := by
  rw [Refusal.fault, Refusal.fault, alike.describe, alike.location]

end Token.Alike

namespace Input

variable {input : Input} {depth : Nat} {cursor next : Cursor} {parser : Parser} {token : Token}
  {kind : Kind}

theorem findIdx_tokens (input : Input) :
    input.tokens.findIdx (·.kind = .endOfInput) = input.front.length := by
  rw [tokens, List.findIdx_append, List.findIdx_cons, input.isEnd]
  have absent : input.front.findIdx (·.kind = .endOfInput) = input.front.length := by
    rw [List.findIdx_eq_length]
    intro token member
    exact decide_eq_false (input.noEnd token member)
  simp [absent]

theorem length_tokens (input : Input) :
    input.tokens.length = input.front.length + 1 + input.behind.length := by
  rw [tokens, List.length_append, List.length_cons]
  omega

namespace Stands

theorem firstEnd (stands : input.Stands depth cursor parser) :
    parser.firstEnd = input.front.length := by
  rw [Parser.firstEnd, stands.tokens_eq]
  exact input.findIdx_tokens

theorem size (stands : input.Stands depth cursor parser) :
    parser.current + cursor.size = input.front.length := by
  have le := stands.current_le
  rw [Cursor.size, stands.ahead, List.length_drop]
  omega

/-- The tokens that the parser has not taken. -/
theorem left (stands : input.Stands depth cursor parser) :
    parser.tokens.drop parser.current = cursor.ahead ++ input.final :: input.behind := by
  rw [stands.tokens_eq, tokens, List.drop_append_of_le_length stands.current_le, stands.ahead]

/-- Up to the first end of the input the parser finds the tokens ahead. -/
theorem get
    (stands : input.Stands depth cursor parser) {distance : Nat} (le : distance ≤ cursor.size) :
    ∃ token, parser.tokens[parser.current + distance]? = some token ∧
      token.Alike (cursor.peekAt distance) := by
  have total := stands.size
  rw [stands.tokens_eq, tokens, Cursor.peekAt]
  by_cases isEnd : distance = cursor.size
  · have index : parser.current + distance = input.front.length := by omega
    have noneAhead : cursor.ahead.getD distance cursor.ending.token = cursor.ending.token := by
      rw [isEnd]
      simp [Cursor.size]
    refine ⟨input.final, by rw [index]; simp, ?_⟩
    rw [noneAhead, stands.ending]
    exact ⟨input.isEnd, rfl, rfl, fun real => absurd input.isEnd real⟩
  · have inFront : parser.current + distance < input.front.length := by omega
    have inAhead : distance < cursor.ahead.length := Nat.lt_of_le_of_ne le isEnd
    have same : input.front[parser.current + distance]? = some cursor.ahead[distance] := by
      rw [← List.getElem?_drop, ← stands.ahead]
      exact List.getElem?_eq_getElem inAhead
    refine ⟨cursor.ahead[distance], ?_, ?_⟩
    · rw [List.getElem?_append_left inFront]
      exact same
    · rw [List.getD_eq_getElem?_getD, List.getElem?_eq_getElem inAhead]
      exact ⟨rfl, rfl, rfl, fun _ => rfl⟩

theorem get_of_takes
    (stands : input.Stands depth cursor parser) (takes : cursor.Takes token next) :
    parser.tokens[parser.current]? = some token := by
  rcases stands.get (Nat.zero_le _) with ⟨found, isFound, alike⟩
  have member : token ∈ input.front.drop parser.current := by
    rw [← stands.ahead, takes.ahead]
    exact List.mem_cons_self
  have isToken : cursor.peekAt 0 = token := takes.peek
  have real : found.kind ≠ .endOfInput := by
    rw [alike.kind, isToken]
    exact input.noEnd token (List.mem_of_mem_drop member)
  rw [← isToken, ← alike.eq_of_real real]
  exact isFound

/-- The parser behind the next token. -/
theorem behind_takes
    (stands : input.Stands depth cursor parser) (takes : cursor.Takes token next) :
    input.Stands depth next { parser with current := parser.current + 1 } := by
  have total := stands.size
  have shorter : next.size + 1 = cursor.size := by
    rw [Cursor.size, Cursor.size, takes.ahead, List.length_cons]
  have isAhead := takes.ahead
  rw [stands.ahead] at isAhead
  have taken : input.front.take (parser.current + 1) =
      input.front.take parser.current ++ [token] := by
    rw [List.take_add_one, ← List.head?_drop, isAhead]
    rfl
  refine ⟨stands.tokens_eq, stands.depth_eq, ?_, ?_, takes.ending.trans stands.ending, ?_⟩
  · show parser.current + 1 ≤ input.front.length
    omega
  · show next.ahead = input.front.drop (parser.current + 1)
    rw [← List.drop_drop, isAhead]
    rfl
  · show next.afterBody = (input.front.take (parser.current + 1)).getLast?.any _
    rw [taken, List.getLast?_append, takes.afterBody]
    rfl

/-- The parser behind some more tokens. -/
theorem behind_all
    {taken : List Token} (stands : input.Stands depth cursor parser)
    (isAhead : cursor.ahead = taken ++ token :: next.ahead)
    (sameEnding : next.ending = cursor.ending)
    (isAfterBody : next.afterBody = decide (token.kind = .dedent)) :
    input.Stands depth next { parser with current := parser.current + (taken.length + 1) } := by
  induction taken generalizing cursor parser with
  | nil => exact stands.behind_takes ⟨isAhead, sameEnding, isAfterBody⟩
  | cons first others inductionHypothesis =>
      have takes := Cursor.takes_past isAhead
      have same : parser.current + 1 + (others.length + 1) =
          parser.current + ((first :: others).length + 1) := by
        rw [List.length_cons]
        omega
      have behind := inductionHypothesis (stands.behind_takes takes) rfl sameEnding
      rw [same] at behind
      exact behind

/-- The number of open argument lists does not matter to the place. -/
theorem withDepth
    (stands : input.Stands depth cursor parser) (other : Nat) :
    input.Stands other cursor { parser with commandDepth := other } :=
  ⟨stands.tokens_eq, rfl, stands.current_le, stands.ahead, stands.ending, stands.afterBody⟩

end Stands

end Input

namespace Machine

open Input

variable {α β : Type} {input : Input} {depth : Nat} {cursor next : Cursor}
  {parser after : Parser} {token : Token} {kind : Kind} {machine : Machine α}
  {further : α → Machine β} {value : α}

theorem run_bind (machine : Machine α) (further : α → Machine β) (parser : Parser) :
    (machine >>= further).run parser =
      match machine.run parser with
      | (Except.ok value, next) => (further value).run next
      | (Except.error halt, next) => (Except.error halt, next) := rfl

theorem run_pure (value : α) (parser : Parser) :
    (pure value : Machine α).run parser = (.ok value, parser) := rfl

theorem run_bind_of_ok (ran : machine.run parser = (.ok value, after)) :
    (machine >>= further).run parser = (further value).run after := by
  rw [run_bind, ran]

theorem run_bind_of_error {reason : Halt} (ran : machine.run parser = (.error reason, after)) :
    (machine >>= further).run parser = (.error reason, after) := by
  rw [run_bind, ran]

theorem run_bind_assoc
    {γ : Type} (machine : Machine α) (further : α → Machine β) (last : β → Machine γ)
    (parser : Parser) :
    ((machine >>= further) >>= last).run parser =
      (machine >>= fun value => further value >>= last).run parser := by
  simp only [run_bind]
  rcases machine.run parser with ⟨outcome, next⟩
  cases outcome <;> rfl

/-! ## Tokens -/

theorem run_state (parser : Parser) : state.run parser = (.ok parser, parser) := rfl

theorem run_tokenAt {index : Nat} (found : parser.tokens[index]? = some token) :
    (tokenAt index).run parser = (.ok token, parser) := by
  simp only [run, tokenAt, found]

theorem run_peek (stands : input.Stands depth cursor parser) :
    ∃ token, peek.run parser = (.ok token, parser) ∧ token.Alike cursor.peek := by
  rcases stands.get (Nat.zero_le _) with ⟨token, found, alike⟩
  exact ⟨token, (run_bind_of_ok (run_state parser)).trans (run_tokenAt found), alike⟩

/-- Further ahead than the end of the input there is still some token. -/
theorem run_peekAt
    (stands : input.Stands depth cursor parser) (distance : Nat) :
    ∃ token, (peekAt distance).run parser = (.ok token, parser) ∧
      (distance ≤ cursor.size → token.Alike (cursor.peekAt distance)) := by
  have total := stands.size
  have count : parser.tokens.length = input.front.length + 1 + input.behind.length := by
    rw [stands.tokens_eq]
    exact input.length_tokens
  have filled : parser.tokens.length ≠ 0 := by omega
  have ran (token : Token)
      (found : parser.tokens[min (parser.current + distance) (parser.tokens.length - 1)]? =
        some token) :
      (peekAt distance).run parser = (.ok token, parser) := by
    rw [peekAt, run_bind_of_ok (run_state parser), if_neg filled]
    exact run_tokenAt found
  by_cases le : distance ≤ cursor.size
  · rcases stands.get le with ⟨token, found, alike⟩
    refine ⟨token, ran token ?_, fun _ => alike⟩
    rw [Nat.min_eq_left (by omega)]
    exact found
  · have inside :
        min (parser.current + distance) (parser.tokens.length - 1) < parser.tokens.length := by
      omega
    exact ⟨_, ran _ (List.getElem?_eq_getElem inside), fun absurdity => absurd absurdity le⟩

theorem peek_kind_eq_end_iff (stands : input.Stands depth cursor parser) :
    cursor.peek.kind = .endOfInput ↔ cursor.atEnd = true := by
  rw [Cursor.atEnd, List.isEmpty_iff]
  constructor
  · intro isEnd
    cases isAhead : cursor.ahead with
    | nil => rfl
    | cons first rest =>
        rw [(Cursor.takes_past isAhead).peek] at isEnd
        have member : first ∈ input.front.drop parser.current := by
          rw [← stands.ahead, isAhead]
          exact List.mem_cons_self
        exact absurd isEnd (input.noEnd first (List.mem_of_mem_drop member))
  · intro isNil
    rw [Cursor.peek, Cursor.peekAt, isNil]
    rfl

theorem run_check (stands : input.Stands depth cursor parser) (kind : Kind) :
    (check kind).run parser = (.ok (cursor.isAt kind), parser) := by
  rcases run_peek stands with ⟨token, ran, alike⟩
  rw [check, run_bind_of_ok ran, run_pure, Cursor.isAt, alike.kind]

theorem run_check_of_accepts
    (stands : input.Stands depth cursor parser) (accepts : cursor.Accepts kind next) :
    (check kind).run parser = (.ok true, parser) := by
  have isAt : cursor.isAt kind = true := decide_eq_true accepts.peek_kind
  rw [run_check stands, isAt]

theorem run_check_of_ne
    (stands : input.Stands depth cursor parser) (differs : cursor.peek.kind ≠ kind) :
    (check kind).run parser = (.ok false, parser) := by
  have notAt : cursor.isAt kind = false := decide_eq_false differs
  rw [run_check stands, notAt]

theorem run_isAtEnd (stands : input.Stands depth cursor parser) :
    isAtEnd.run parser = (.ok cursor.atEnd, parser) := by
  rcases run_peek stands with ⟨token, ran, alike⟩
  rw [isAtEnd, run_bind_of_ok ran, run_pure, alike.kind]
  congr 2
  rw [Bool.eq_iff_iff, decide_eq_true_iff]
  exact peek_kind_eq_end_iff stands

theorem run_jump {distance : Nat} (le : parser.current + distance ≤ parser.firstEnd) :
    (jump distance).run parser =
      (.ok (), { parser with current := parser.current + distance }) := by
  show (if parser.current + distance ≤ parser.firstEnd then _ else _) = _
  rw [if_pos le]

theorem run_advance
    (stands : input.Stands depth cursor parser) (takes : cursor.Takes token next) :
    ∃ after, advance.run parser = (.ok token, after) ∧ input.Stands depth next after := by
  have filled : cursor.atEnd = false := by
    rw [Cursor.atEnd, takes.ahead]
    rfl
  have total := stands.size
  have inFront : parser.current < input.front.length := by
    have positive : 0 < cursor.size := by
      rw [Cursor.size, takes.ahead]
      exact Nat.succ_pos _
    omega
  have stands_after := stands.behind_takes takes
  refine ⟨_, ?_, stands_after⟩
  rw [advance, run_bind_of_ok (run_isAtEnd stands), filled, if_neg Bool.false_ne_true,
    run_bind_of_ok (run_jump (by rw [stands.firstEnd]; omega))]
  exact (run_bind_of_ok (run_state _)).trans (run_tokenAt (stands.get_of_takes takes))

theorem run_afterBody (stands : input.Stands depth cursor parser) :
    afterBody.run parser = (.ok cursor.afterBody, parser) := by
  rw [afterBody, run_bind_of_ok (run_state parser), stands.afterBody]
  by_cases atStart : parser.current = 0
  · rw [if_pos atStart, atStart]
    rfl
  · have inFront : parser.current - 1 < input.front.length := by
      have le := stands.current_le
      omega
    have found : parser.tokens[parser.current - 1]? = some input.front[parser.current - 1] := by
      rw [stands.tokens_eq, tokens, List.getElem?_append_left inFront]
      exact List.getElem?_eq_getElem inFront
    have isLast : (input.front.take parser.current).getLast? =
        some input.front[parser.current - 1] := by
      rw [List.getLast?_take, if_neg atStart, List.getElem?_eq_getElem inFront]
      rfl
    rw [if_neg atStart, run_bind_of_ok (run_tokenAt found), run_pure, isLast]
    rfl

theorem run_matchToken_of_accepts
    (stands : input.Stands depth cursor parser) (accepts : cursor.Accepts kind next) :
    ∃ after, (matchToken kind).run parser = (.ok true, after) ∧ input.Stands depth next after := by
  have checked := run_check_of_accepts stands accepts
  rcases accepts with ⟨token, takes, -⟩
  rcases run_advance stands takes with ⟨after, ran, stands_after⟩
  refine ⟨after, ?_, stands_after⟩
  rw [matchToken, run_bind_of_ok checked, if_pos rfl, run_bind_of_ok ran, run_pure]

theorem run_matchToken_of_ne
    (stands : input.Stands depth cursor parser) (differs : cursor.peek.kind ≠ kind) :
    (matchToken kind).run parser = (.ok false, parser) := by
  rw [matchToken, run_bind_of_ok (run_check_of_ne stands differs), if_neg Bool.false_ne_true,
    run_pure]

theorem run_consume
    {wanted : List Expectation} (stands : input.Stands depth cursor parser)
    (accepts : cursor.Accepts kind next) :
    ∃ after, (consume kind wanted).run parser = (.ok (), after) ∧
      input.Stands depth next after := by
  have checked := run_check_of_accepts stands accepts
  rcases accepts with ⟨token, takes, -⟩
  rcases run_advance stands takes with ⟨after, ran, stands_after⟩
  refine ⟨after, ?_, stands_after⟩
  rw [consume, run_bind_of_ok checked, if_pos rfl, run_bind_of_ok ran, run_pure]

theorem run_unexpected
    {wanted : List Expectation} (stands : input.Stands depth cursor parser) :
    (unexpected wanted : Machine α).run parser =
      (.error (.refused ((Refusal.unexpected wanted).fault cursor.peek)), parser) := by
  rcases run_peek stands with ⟨token, ran, alike⟩
  rw [unexpected, run_bind_of_ok ran, alike.fault]
  rfl

theorem run_nonAssociative
    {operator : Operator} (stands : input.Stands depth cursor parser) :
    (nonAssociative operator : Machine α).run parser =
      (.error (.refused ((Refusal.chained operator).fault cursor.peek)), parser) := by
  rcases run_peek stands with ⟨token, ran, alike⟩
  rw [nonAssociative, run_bind_of_ok ran, alike.fault]
  rfl

theorem run_consume_of_ne
    {wanted : List Expectation} (stands : input.Stands depth cursor parser)
    (differs : cursor.peek.kind ≠ kind) :
    (consume kind wanted).run parser =
      (.error (.refused ((Refusal.unexpected wanted).fault cursor.peek)), parser) := by
  rw [consume, run_bind_of_ok (run_check_of_ne stands differs), if_neg Bool.false_ne_true]
  exact run_unexpected stands

theorem run_peek_of_takes
    (stands : input.Stands depth cursor parser) (takes : cursor.Takes token next) :
    peek.run parser = (.ok token, parser) :=
  (run_bind_of_ok (run_state parser)).trans (run_tokenAt (stands.get_of_takes takes))

theorem run_consumeIdentifier
    {wanted : List Expectation} {name : String} (stands : input.Stands depth cursor parser)
    (accepts : cursor.Accepts (.identifier name) next) :
    ∃ after, (consumeIdentifier wanted).run parser = (.ok name, after) ∧
      input.Stands depth next after := by
  rcases accepts with ⟨token, takes, isName⟩
  rcases run_advance stands takes with ⟨after, ran, stands_after⟩
  refine ⟨after, ?_, stands_after⟩
  rw [consumeIdentifier, run_bind_of_ok (run_peek_of_takes stands takes), isName]
  exact (run_bind_of_ok ran).trans (run_pure name after)

theorem run_consumeIdentifier_of_ne
    {wanted : List Expectation} (stands : input.Stands depth cursor parser)
    (differs : ∀ name, cursor.peek.kind ≠ .identifier name) :
    (consumeIdentifier wanted).run parser =
      (.error (.refused ((Refusal.unexpected wanted).fault cursor.peek)), parser) := by
  rcases run_peek stands with ⟨token, ran, alike⟩
  rw [consumeIdentifier, run_bind_of_ok ran, alike.kind]
  split
  · rename_i name isName
    exact absurd isName (differs name)
  · exact run_unexpected stands

/-! ## Newlines -/

theorem run_skipNewlines
    {fuel : Nat} (stands : input.Stands depth cursor parser) (enough : cursor.size < fuel) :
    ∃ after, (skipNewlines fuel).run parser = (.ok (), after) ∧
      input.Stands depth cursor.skipNewlines after := by
  induction cursor using Cursor.skipNewlines.induct generalizing fuel parser with
  | case1 cursor absent =>
      obtain ⟨less, rfl⟩ := Nat.exists_eq_add_of_lt enough
      have differs := Cursor.peek_kind_ne_of_accept? absent (by simp)
      refine ⟨parser, ?_, (Cursor.skipNewlines_of_none absent).symm ▸ stands⟩
      rw [skipNewlines, run_bind_of_ok (run_matchToken_of_ne stands differs),
        if_neg Bool.false_ne_true, run_pure]
  | case2 cursor newline present shorter inductionHypothesis =>
      obtain ⟨less, rfl⟩ := Nat.exists_eq_add_of_lt enough
      rcases run_matchToken_of_accepts stands (Cursor.accepts_of_accept? present) with
        ⟨behind, ran, stands_behind⟩
      have enoughBehind : newline.next.size < cursor.size + less := by omega
      rcases inductionHypothesis stands_behind enoughBehind with ⟨after, ranOn, stands_after⟩
      refine ⟨after, ?_, (Cursor.skipNewlines_of_some present).symm ▸ stands_after⟩
      rw [skipNewlines, run_bind_of_ok ran, if_pos rfl]
      exact ranOn

theorem run_loopFuel (parser : Parser) :
    loopFuel.run parser = (.ok (parser.tokens.length + 1), parser) := rfl

theorem size_lt_loopFuel (stands : input.Stands depth cursor parser) :
    cursor.size < parser.tokens.length + 1 := by
  have total := stands.size
  have count := input.length_tokens
  rw [stands.tokens_eq]
  omega

/-- The distance behind all newlines ahead. -/
theorem run_behindNewlines
    {rest : Cursor} {lines : List Token} {distance fuel : Nat}
    (stands : input.Stands depth cursor parser) (isAhead : cursor.ahead = lines ++ rest.ahead)
    (sameEnding : rest.ending = cursor.ending) (areNewlines : ∀ line ∈ lines, line.kind = .newline)
    (stops : rest.peek.kind ≠ .newline) (le : distance ≤ lines.length)
    (enough : lines.length - distance < fuel) :
    (behindNewlines fuel distance).run parser = (.ok lines.length, parser) := by
  induction fuel generalizing distance with
  | zero => omega
  | succ fuel inductionHypothesis =>
      have inside : distance ≤ cursor.size := by
        rw [Cursor.size, isAhead, List.length_append]
        omega
      rcases run_peekAt stands distance with ⟨token, ran, alike⟩
      rw [behindNewlines, run_bind_of_ok ran, (alike inside).kind]
      by_cases atLine : distance < lines.length
      · have isLine : (cursor.peekAt distance).kind = .newline := by
          rw [Cursor.peekAt, isAhead, List.getD_eq_getElem?_getD, List.getElem?_append_left atLine,
            List.getElem?_eq_getElem atLine]
          exact areNewlines _ (List.getElem_mem atLine)
        rw [if_pos isLine]
        exact inductionHypothesis (by omega) (by omega)
      · have isLast : distance = lines.length := by omega
        have isRest : cursor.peekAt distance = rest.peek := by
          rw [Cursor.peek, Cursor.peekAt, Cursor.peekAt, isAhead, isLast, sameEnding,
            List.getD_eq_getElem?_getD, List.getElem?_append_right (Nat.le_refl _), Nat.sub_self,
            List.getD_eq_getElem?_getD]
        rw [isRest, if_neg stops, run_pure, isLast]

/-! ## Looking ahead -/

theorem run_peekBinaryOperator (stands : input.Stands depth cursor parser) :
    peekBinaryOperator.run parser =
      (.ok (cursor.binary?.map fun sign => (sign.operator, sign.binding)), parser) := by
  rw [peekBinaryOperator, run_bind_of_ok (run_afterBody stands), Cursor.binary?]
  cases cursor.afterBody with
  | true => rfl
  | false =>
      rcases run_peek stands with ⟨token, ran, alike⟩
      have isKind := alike.kind.trans cursor.peek_kind_eq
      rw [if_neg Bool.false_ne_true, run_bind_of_ok ran, if_neg Bool.false_ne_true, isKind]
      cases isFirst : cursor.take? with
      | none => rfl
      | some first =>
          cases isSign : first.token.kind with
          | operator sign => simp only [isSign, run_pure, Option.map_map, Function.comp_def]
          | _ => simp only [isSign, run_pure, Option.map_none]

theorem run_atSymbolKey (stands : input.Stands depth cursor parser) :
    atSymbolKey.run parser = (.ok cursor.symbolKey?.isSome, parser) := by
  rcases run_peek stands with ⟨token, ran, alike⟩
  have isKind := alike.kind.trans cursor.peek_kind_eq
  rw [atSymbolKey, run_bind_of_ok ran, Cursor.symbolKey?, isKind]
  cases isFirst : cursor.take? with
  | none => rfl
  | some word =>
      have takes := Cursor.takes_of_take? isFirst
      have oneAhead : 1 ≤ cursor.size := by
        rw [Cursor.size, takes.ahead]
        exact Nat.succ_le_succ (Nat.zero_le _)
      rcases run_peekAt stands 1 with ⟨second, ranSecond, alikeSecond⟩
      rcases run_peekAt stands 2 with ⟨third, ranThird, alikeThird⟩
      have isSecond : second.kind = word.next.peek.kind := by
        rw [(alikeSecond oneAhead).kind, takes.peekAt_succ]
        rfl
      obtain ⟨kind, isFirstKind⟩ : ∃ kind, word.token.kind = kind := ⟨_, rfl⟩
      cases kind with
      | identifier | keyword =>
          simp only [isFirstKind, if_true]
          rw [run_bind_of_ok ranSecond, isSecond]
          cases isColon : word.next.accept? (.mark .colon) with
          | none =>
              rw [if_neg (Cursor.peek_kind_ne_of_accept? isColon (by simp)), run_pure]
              rfl
          | some colon =>
              have accepts := Cursor.accepts_of_accept? isColon
              have twoAhead : 2 ≤ cursor.size := by
                have shorter := accepts.size_lt
                have shorterBehind := takes.size_lt
                omega
              rcases accepts with ⟨sign, takesColon, isSign⟩
              have sameSpaced : third.spaced = colon.next.peek.spaced := by
                rw [(alikeThird twoAhead).spaced, takes.peekAt_succ, takesColon.peekAt_succ]
                rfl
              rw [if_pos (takesColon.peek ▸ isSign), run_bind_of_ok ranThird, run_pure, sameSpaced]
              cases isSpaced : colon.next.peek.spaced <;> simp [isSpaced]
      | _ =>
          simp only [isFirstKind, if_false, Bool.false_eq_true, run_pure]
          rfl

theorem run_atHashSeparator (stands : input.Stands depth cursor parser) :
    atHashSeparator.run parser = (.ok cursor.separator?.isSome, parser) := by
  rw [atHashSeparator, Cursor.separator?]
  cases isColon : cursor.accept? (.mark .colon) with
  | none =>
      have differs := Cursor.peek_kind_ne_of_accept? isColon (by simp)
      rw [run_bind_of_ok (run_check_of_ne stands differs), if_neg Bool.false_ne_true, run_pure]
      cases cursor.afterBody <;> rfl
  | some colon =>
      have accepts := Cursor.accepts_of_accept? isColon
      have oneAhead : 1 ≤ cursor.size := by
        have shorter := accepts.size_lt
        omega
      have checked := run_check_of_accepts stands accepts
      rcases run_peekAt stands 1 with ⟨second, ran, alike⟩
      rcases accepts with ⟨sign, takes, -⟩
      have sameSpaced : second.spaced = colon.next.peek.spaced := by
        rw [(alike oneAhead).spaced, takes.peekAt_succ]
        rfl
      rw [run_bind_of_ok checked, if_pos rfl, run_bind_of_ok ran, sameSpaced]
      cases isSpaced : colon.next.peek.spaced with
      | false =>
          rw [if_neg Bool.false_ne_true, run_pure]
          cases cursor.afterBody <;> simp [isSpaced]
      | true =>
          rw [if_pos rfl, run_bind_of_ok (run_afterBody stands), run_pure]
          cases cursor.afterBody <;> simp [isSpaced]

/-- The tokens behind the parentheses that open some places ahead. -/
theorem run_continuesBehind
    {parens distance : Nat} {rest : List Token} (stands : input.Stands depth cursor parser)
    (isRest : cursor.ahead.drop distance = rest) (le : distance ≤ cursor.size) :
    (continuesBehind parens distance (rest ++ input.final :: input.behind)).run parser =
      (.ok (match Cursor.behindParens? parens rest with
        | some (token :: _) => Cursor.continuesArgument token
        | _ => false), parser) := by
  induction rest generalizing parens distance with
  | nil =>
      rw [List.nil_append, continuesBehind, input.isEnd]
      rfl
  | cons token rest inductionHypothesis =>
      have total : distance + (rest.length + 1) = cursor.size := by
        have count := congrArg List.length isRest
        rw [List.length_drop, List.length_cons] at count
        rw [Cursor.size] at le ⊢
        omega
      have isBehind : cursor.ahead.drop (distance + 1) = rest := by
        rw [← List.drop_drop, isRest]
        rfl
      have leBehind : distance + 1 ≤ cursor.size := by omega
      have member : token ∈ input.front.drop parser.current := by
        rw [← stands.ahead]
        exact List.mem_of_mem_drop (isRest ▸ List.mem_cons_self)
      have real := input.noEnd token (List.mem_of_mem_drop member)
      rw [List.cons_append, continuesBehind, Cursor.behindParens?]
      cases isKind : token.kind with
      | endOfInput => exact absurd isKind real
      | mark sign =>
          cases sign with
          | leftParen => exact inductionHypothesis isBehind leBehind
          | rightParen =>
              by_cases isOuter : parens ≤ 1
              · have isZero : parens - 1 = 0 := by omega
                rcases run_peekAt stands (distance + 1) with ⟨next, ran, alike⟩
                have sameKind := (alike leBehind).kind
                have isNext : cursor.peekAt (distance + 1) = rest.getD 0 cursor.ending.token := by
                  rw [← isBehind, Cursor.peekAt]
                  simp [List.getD_eq_getElem?_getD]
                simp only [isZero, if_true, isOuter, run_bind_of_ok ran, sameKind, isNext]
                cases rest with
                | nil => rfl
                | cons first others =>
                    obtain ⟨kind, isFirst⟩ : ∃ kind, first.kind = kind := ⟨_, rfl⟩
                    have isGot : (first :: others).getD 0 cursor.ending.token = first := rfl
                    simp only [isGot, Cursor.continuesArgument, isFirst, reduceCtorEq, if_false,
                      Kind.mark.injEq]
                    cases kind with
                    | mark other => cases other <;> rfl
                    | _ => rfl
              · have more : parens - 1 ≠ 0 := by omega
                simp only [more, if_false, isOuter, reduceCtorEq, Kind.mark.injEq, if_true]
                exact inductionHypothesis isBehind leBehind
          | _ => exact inductionHypothesis isBehind leBehind
      | _ => exact inductionHypothesis isBehind leBehind

theorem run_continuesAfterParens (stands : input.Stands depth cursor parser) :
    continuesAfterParens.run parser = (.ok cursor.continuesBehindParens, parser) := by
  have total := stands.size
  have count := input.length_tokens
  have le : parser.current ≤ parser.tokens.length := by
    rw [stands.tokens_eq]
    omega
  rw [continuesAfterParens, run_bind_of_ok (run_state parser), if_pos le, stands.left]
  exact run_continuesBehind stands List.drop_zero (Nat.zero_le _)

theorem run_atCommandArgument (stands : input.Stands depth cursor parser) :
    atCommandArgument.run parser = (.ok cursor.atArgument, parser) := by
  rcases run_peek stands with ⟨token, ran, alike⟩
  rcases run_peekAt stands 1 with ⟨next, ranNext, alikeNext⟩
  obtain ⟨kind, isKind⟩ : ∃ kind, cursor.peek.kind = kind := ⟨_, rfl⟩
  rw [atCommandArgument, run_bind_of_ok ran, Cursor.atArgument, alike.spaced]
  cases cursor.peek.spaced with
  | false => rfl
  | true =>
      rw [if_pos rfl, run_bind_of_ok ranNext, alike.kind]
      by_cases oneAhead : 1 ≤ cursor.size
      · have sameKind := (alikeNext oneAhead).kind
        have sameSpaced := (alikeNext oneAhead).spaced
        obtain ⟨behind, isBehind⟩ : ∃ behind, (cursor.peekAt 1).kind = behind := ⟨_, rfl⟩
        simp only [isKind, sameKind, sameSpaced, Bool.true_and, Cursor.namesSymbol,
          Cursor.isLayout, isBehind]
        cases kind with
        | mark sign => cases sign <;> cases behind <;> rfl
        | operator sign => cases behind <;> rfl
        | _ => rfl
      · have isEnd : kind = .endOfInput := by
          rw [← isKind, peek_kind_eq_end_iff stands, Cursor.atEnd, List.isEmpty_iff]
          apply List.eq_nil_of_length_eq_zero
          rw [Cursor.size] at oneAhead
          omega
        simp only [isKind, isEnd, run_pure, Bool.and_false]

end Machine

end ScriptFront
