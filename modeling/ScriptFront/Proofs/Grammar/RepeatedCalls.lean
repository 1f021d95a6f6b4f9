import ScriptFront.Proofs.Grammar.IndexedCalls
import ScriptFront.Proofs.Grammar.Locality
import ScriptFront.Proofs.Grammar.WellBracketed

/-!
# Calls of a parser that was called before

A call of a parser leaves nothing behind but the index.  The next one comes to what a new parser
comes to that is made of the tokens which are left, although a parser looks back at the token in
front of its index: whether that closed a body matters behind another token only.
-/

namespace ScriptFront

namespace Cursor

/-- The same place, whatever was taken in front of it. -/
def anew (cursor : Cursor) : Cursor := ⟨cursor.ahead, cursor.ending, false⟩

theorem takes_anew_iff {cursor next : Cursor} {token : Token} :
    cursor.anew.Takes token next ↔ cursor.Takes token next :=
  ⟨fun takes => ⟨takes.ahead, takes.ending, takes.afterBody⟩,
    fun takes => ⟨takes.ahead, takes.ending, takes.afterBody⟩⟩

theorem accepts_anew_iff {cursor next : Cursor} {kind : Kind} :
    cursor.anew.Accepts kind next ↔ cursor.Accepts kind next := by
  simp only [Accepts, takes_anew_iff]

theorem namesKey_anew_iff {cursor next : Cursor} {name : String} :
    cursor.anew.NamesKey name next ↔ cursor.NamesKey name next := by
  simp only [NamesKey, takes_anew_iff]

/-- The results of reading from a place and from the same place anew: they are the same, or both
refuse the token that is next. -/
inductive Restarted {α : Type} (cursor : Cursor) :
    Except (Refusal × Cursor) (α × Cursor) → Except (Refusal × Cursor) (α × Cursor) → Prop where
  | same (result : Except (Refusal × Cursor) (α × Cursor)) : Restarted cursor result result
  | refused (refusal : Refusal) :
      Restarted cursor (.error (refusal, cursor)) (.error (refusal, cursor.anew))

namespace Restarted

variable {α β : Type} {cursor : Cursor} {first second : Outcome cursor.size α}

theorem map (change : α → β) (restarted : cursor.Restarted first.result second.result) :
    cursor.Restarted (first.map change).result (second.map change).result := by
  rw [Outcome.result_map, Outcome.result_map]
  generalize first.result = before at restarted ⊢
  generalize second.result = after at restarted ⊢
  cases restarted with
  | same => exact .same _
  | refused refusal => exact .refused refusal

theorem andThen
    (restarted : cursor.Restarted first.result second.result)
    (further : α → (next : Cursor) → next.size < cursor.size → Outcome (next.size + 1) β) :
    cursor.Restarted (first.andThen further).result (second.andThen further).result := by
  cases second with
  | done value next shorter =>
      cases first with
      | done other place _ =>
          cases restarted
          exact .same _
      | stuck => cases restarted
  | stuck refusal stop =>
      cases first with
      | done => cases restarted
      | stuck =>
          cases restarted with
          | same => exact .same _
          | refused => exact .refused refusal

/-- Of a program only the place that a refusal speaks of could be told apart. -/
theorem program_eq (before after : Except (Refusal × Cursor) (List Node × Cursor)) :
    cursor.Restarted before after →
      (match after with
        | .ok (nodes, _) => Except.ok nodes
        | .error (refusal, stop) => .error (refusal.fault stop.peek)) =
      match before with
        | .ok (nodes, _) => .ok nodes
        | .error (refusal, stop) => .error (refusal.fault stop.peek) := by
  intro restarted
  cases restarted with
  | same => rfl
  | refused => rfl

end Restarted

end Cursor

namespace Phrase

open Cursor

theorem primary_anew (inCommand : Bool) (cursor : Cursor) :
    cursor.Restarted (primary inCommand cursor).result (primary inCommand cursor.anew).result := by
  rcases cursor with ⟨_ | ⟨token, rest⟩, ending, afterBody⟩
  · rw [primary, primary]
    exact .refused _
  · rcases token with ⟨kind, lexeme, location, spaced⟩
    rw [primary, primary]
    cases kind with
    | integer | float | constant | fragment | identifier => exact .same _
    | keyword word => cases word <;> exact .same _
    | mark sign => cases sign <;> first | exact .same _ | exact .refused _
    | _ => exact .refused _

theorem unary_anew (inCommand : Bool) (cursor : Cursor) :
    cursor.Restarted (unary inCommand cursor).result (unary inCommand cursor.anew).result := by
  have operand := primary_anew inCommand cursor
  rcases cursor with ⟨_ | ⟨token, rest⟩, ending, afterBody⟩
  · rw [unary, unary]
    exact operand
  · rcases token with ⟨kind, lexeme, location, spaced⟩
    rw [unary, unary]
    cases kind with
    | operator operator =>
        cases isUnary : operator.isUnary with
        | true =>
            simp only [unary?, take?, anew, isUnary, if_true]
            exact .same _
        | false =>
            simp only [unary?, take?, anew, isUnary, Bool.false_eq_true, if_false]
            exact operand
    | _ => exact operand

theorem binary_anew (inCommand : Bool) (level : Nat) (cursor : Cursor) :
    cursor.Restarted (binary inCommand level cursor).result
      (binary inCommand level cursor.anew).result := by
  have operand := unary_anew inCommand cursor
  rw [binary, binary]
  exact operand.andThen _

theorem entry_anew (inCommand : Bool) (cursor : Cursor) :
    cursor.Restarted (entry inCommand cursor).result (entry inCommand cursor.anew).result := by
  have first := binary_anew inCommand Binding.loosest cursor
  rw [entry, entry]
  cases found : cursor.symbolKey? with
  | none =>
      have alsoNone : cursor.anew.symbolKey? = none := by
        refine symbolKey?_eq_none_iff.2 ?_
        intro name next names
        exact symbolKey?_eq_none_iff.1 found name next (namesKey_anew_iff.1 names)
      rw [alsoNone]
      exact first.andThen _
  | some key =>
      have names := namesKey_anew_iff.2 (namesKey_of_symbolKey? found)
      rcases symbolKey?_of_namesKey names with ⟨again, foundAgain, sameName, sameNext⟩
      rw [foundAgain]
      have sameValue : (binary inCommand Binding.loosest again.next).result =
          (binary inCommand Binding.loosest key.next).result := by
        rw [sameNext]
      simp only [Outcome.result_widen, Outcome.result_map, sameName, sameValue]
      exact .same _

theorem statement_anew (cursor : Cursor) :
    cursor.Restarted (statement cursor).result (statement cursor.anew).result := by
  have first := entry_anew false cursor
  rw [statement, statement]
  exact first.andThen _

/-- A program is the same, or has the same fault, whatever was taken in front of it. -/
theorem readProgram_anew (cursor : Cursor) :
    cursor.anew.readProgram.1 = cursor.readProgram.1 := by
  rw [readProgram_eq, readProgram_eq]
  by_cases isNewline : cursor.peek.kind = .newline
  · rcases accepts_of_peek_kind isNewline (by simp) with ⟨line, accepts⟩
    have sameLines : cursor.anew.skipNewlines = cursor.skipNewlines := by
      rw [accepts.skipNewlines_eq, (accepts_anew_iff.2 accepts).skipNewlines_eq]
    rw [result_statements_congr sameLines]
  · have here : cursor.skipNewlines = cursor := skipNewlines_of_none (accept?_eq_none isNewline)
    have alsoHere : cursor.anew.skipNewlines = cursor.anew :=
      skipNewlines_of_none (accept?_eq_none isNewline)
    have sameEnd : cursor.anew.endsStatements false = cursor.endsStatements false := rfl
    rw [result_statements, result_statements, here, alsoHere, sameEnd]
    cases cursor.endsStatements false with
    | true => rfl
    | false =>
        rw [if_neg Bool.false_ne_true, if_neg Bool.false_ne_true]
        have restarted := (statement_anew cursor).andThen fun first next _ =>
          (statements false next).map (first :: ·)
        exact Restarted.program_eq _ _ restarted

end Phrase

namespace Cursor

variable {cursor : Cursor} {nodes : List Node}

theorem readProgram_of_end (isEnd : cursor.ahead = []) : cursor.readProgram = (.ok [], cursor) := by
  have absent : cursor.accept? .newline = none := by
    refine accept?_eq_none ?_
    rw [peek, peekAt, isEnd]
    exact Kind.noConfusion
  have here : cursor.skipNewlines = cursor := skipNewlines_of_none absent
  have ends : cursor.skipNewlines.endsStatements false = true := by
    rw [here, endsStatements, atEnd, isEnd]
    rfl
  have reads : Phrase.Reads (.statements false) cursor [] cursor.skipNewlines := .noStatements ends
  rw [here] at reads
  exact readProgram_of_reads reads

/-- Behind a program nothing is left. -/
theorem ahead_readProgram (read : cursor.readProgram.1 = .ok nodes) :
    cursor.readProgram.2.ahead = [] := by
  rcases readProgram_eq_ok_iff.1 read with ⟨last, reads⟩
  rw [readProgram_of_reads reads]
  exact ahead_eq_nil_of_program reads

theorem ahead_afterCalls
    {earlier : Nat} (read : (cursor.afterCalls earlier).readProgram.1 = .ok nodes) (more : Nat) :
    (cursor.afterCalls (earlier + 1 + more)).ahead = [] := by
  induction more with
  | zero => exact ahead_readProgram read
  | succ more inductionHypothesis =>
      have stays := readProgram_of_end inductionHypothesis
      rw [← Nat.add_assoc, afterCalls, stays]
      exact inductionHypothesis

end Cursor

namespace Parser

variable {tokens : List Token}

theorem getLast?_endedTokens (tokens : List Token) :
    (endedTokens tokens).getLast?.map Token.kind = some .endOfInput := by
  simp only [endedTokens]
  split
  · assumption
  · rw [List.getLast?_append]
    rfl

theorem isTrivia_endedTokens : ∀ token ∈ endedTokens tokens, token.isTrivia = false := by
  intro token member
  simp only [endedTokens] at member
  split at member
  · simpa using (List.mem_filter.1 member).2
  · rcases List.mem_append.1 member with inFront | isEnd
    · simpa using (List.mem_filter.1 inFront).2
    · rw [List.mem_singleton.1 isEnd]
      rfl

theorem endedTokens_eq_self
    (means : ∀ token ∈ tokens, token.isTrivia = false)
    (ends : tokens.getLast?.map Token.kind = some .endOfInput) : endedTokens tokens = tokens := by
  simp only [endedTokens, Token.significant_eq_self means]
  exact if_pos ends

/-- The tokens that are left carry meaning, and the last of them ends the input. -/
theorem drop_endedTokens
    {index : Nat} (le : index < (endedTokens tokens).length) :
    (∀ token ∈ (endedTokens tokens).drop index, token.isTrivia = false) ∧
      ((endedTokens tokens).drop index).getLast?.map Token.kind = some .endOfInput := by
  refine ⟨?_, ?_⟩
  · intro token member
    exact isTrivia_endedTokens token (List.mem_of_mem_drop member)
  · rw [List.getLast?_drop, if_neg (Nat.not_le_of_lt le)]
    exact getLast?_endedTokens tokens

end Parser

namespace Input

variable {input : Input} {cursor : Cursor} {parser : Parser}

/-- A list of tokens that carry meaning is ahead up to its first end. -/
theorem ofTokens_eq
    (means : ∀ token ∈ input.tokens, token.isTrivia = false) :
    Cursor.ofTokens input.tokens =
      ⟨input.front, ⟨input.final.location, input.final.spaced⟩, false⟩ := by
  have noEnd : input.front.find? (·.kind = .endOfInput) = none := by
    refine List.find?_eq_none.2 ?_
    intro token member isKind
    exact input.noEnd token member (of_decide_eq_true isKind)
  have found : input.tokens.find? (·.kind = .endOfInput) = some input.final := by
    rw [tokens, List.find?_append, noEnd, Option.none_or]
    exact List.find?_cons_of_pos (decide_eq_true input.isEnd)
  have isFront : input.tokens.takeWhile (·.kind ≠ .endOfInput) = input.front := by
    rw [tokens, List.takeWhile_append_of_pos]
    · simp [input.isEnd]
    · intro token member
      exact decide_eq_true (input.noEnd token member)
  simp only [Cursor.ofTokens, Token.significant_eq_self means, found, isFront]

/-- A new parser that is made of the tokens which are left stands where the old one stands, but
nothing was taken in front of it. -/
theorem Stands.restart
    {depth : Nat} (stands : input.Stands depth cursor parser)
    (means : ∀ token ∈ parser.tokens.drop parser.current, token.isTrivia = false) :
    ∃ rest : Input, rest.tokens = parser.tokens.drop parser.current ∧
      Cursor.ofTokens rest.tokens = cursor.anew ∧
      rest.Stands 0 cursor.anew ⟨rest.tokens, 0, 0⟩ := by
  have noEnd : ∀ token ∈ cursor.ahead, token.kind ≠ .endOfInput := by
    intro token member
    rw [stands.ahead] at member
    exact input.noEnd token (List.mem_of_mem_drop member)
  let rest : Input := ⟨cursor.ahead, input.final, input.behind, noEnd, input.isEnd⟩
  have isRest : rest.tokens = parser.tokens.drop parser.current := stands.left.symm
  refine ⟨rest, isRest, ?_, rfl, rfl, Nat.zero_le _, rfl, stands.ending, rfl⟩
  rw [ofTokens_eq (isRest ▸ means), Cursor.anew, stands.ending]

/-- The next call of a parser, and the only call of a new one that is made of the tokens which are
left. -/
theorem Stands.parse_left
    {tokens : List Token} {fuel : Nat} (stands : input.Stands 0 cursor parser)
    (sameTokens : input.tokens = Parser.endedTokens tokens)
    (enough : 8 * input.tokens.length ≤ fuel) :
    let left := parser.tokens.drop parser.current
    left.getLast?.map Token.kind = some .endOfInput ∧
      Parser.ofTokens left = ⟨left, 0, 0⟩ ∧
      ((Machine.parse fuel).run parser).1 = ((Machine.parse fuel).run (Parser.ofTokens left)).1 ∧
      ((Machine.parse fuel).run parser).1 = (parseTokens left).mapError Halt.refused := by
  intro left
  have total := stands.size
  have count := input.length_tokens
  have meant : (∀ token ∈ left, token.isTrivia = false) ∧
      left.getLast?.map Token.kind = some .endOfInput := by
    have inside : parser.current < (Parser.endedTokens tokens).length := by
      rw [← sameTokens]
      omega
    have isEnded : left = (Parser.endedTokens tokens).drop parser.current := by
      rw [← sameTokens, ← stands.tokens_eq]
    rw [isEnded]
    exact Parser.drop_endedTokens inside
  have isNew : Parser.ofTokens left = ⟨left, 0, 0⟩ := by
    rw [Parser.ofTokens, Parser.endedTokens_eq_self meant.1 meant.2]
  rcases stands.restart meant.1 with ⟨rest, isRest, isAnew, stands_rest⟩
  have isLeft : rest.tokens = left := isRest
  have enoughRest : 8 * rest.tokens.length ≤ fuel := by
    rw [isRest, List.length_drop, stands.tokens_eq]
    omega
  rcases run_parse enough stands with ⟨after, ran, -⟩
  rcases run_parse enoughRest stands_rest with ⟨afterRest, ranRest, -⟩
  have isProgram : parseTokens left = cursor.readProgram.1 := by
    rw [parseTokens, ← isLeft, isAnew, Phrase.readProgram_anew]
  rw [Phrase.readProgram_anew, isLeft, ← isNew] at ranRest
  refine ⟨meant.2, isNew, ?_, ?_⟩
  · rw [ran, ranRest]
  · rw [ran, isProgram]

/-- A parser that has come to statements is at the end. -/
theorem Stands.parse_after_statements
    {fuel earlier : Nat} {nodes : List Node} (stands : input.Stands 0 cursor parser)
    (enough : 8 * input.tokens.length ≤ fuel)
    (parsed : ((Machine.parse fuel).run (parser.afterCalls fuel earlier)).1 = .ok nodes)
    (more : Nat) :
    ((Machine.parse fuel).run (parser.afterCalls fuel (earlier + 1 + more))).1 = .ok [] := by
  rcases run_parse enough (stands_afterCalls enough stands earlier) with ⟨_, ranEarlier, -⟩
  rcases run_parse enough (stands_afterCalls enough stands (earlier + 1 + more)) with ⟨_, ran, -⟩
  rw [ranEarlier] at parsed
  cases read : (cursor.afterCalls earlier).readProgram.1 with
  | error fault =>
      rw [read] at parsed
      cases parsed
  | ok statements =>
      have isEnd := Cursor.ahead_afterCalls read more
      rw [ran, Cursor.readProgram_of_end isEnd]
      rfl

end Input

namespace Machine

/-- A parser that was called before is a new one but for its index, whatever its calls came to.  The
next call comes to what it would come to if the parser were made of the tokens that are left, the end
among them; and once a call has come to statements, later calls come to none. -/
theorem parse_again (tokens : List Token) (calls extra : Nat) :
    let fuel := 8 * (Parser.endedTokens tokens).length + extra
    let parser := (Parser.ofTokens tokens).afterCalls fuel calls
    let left := parser.tokens.drop parser.current
    parser = ⟨Parser.endedTokens tokens, parser.current, 0⟩ ∧
      left.getLast?.map Token.kind = some .endOfInput ∧
      Parser.ofTokens left = ⟨left, 0, 0⟩ ∧
      ((parse fuel).run parser).1 = ((parse fuel).run (Parser.ofTokens left)).1 ∧
      ((parse fuel).run parser).1 = (parseTokens left).mapError Halt.refused ∧
      ∀ earlier nodes, earlier < calls →
        ((parse fuel).run ((Parser.ofTokens tokens).afterCalls fuel earlier)).1 = .ok nodes →
          ((parse fuel).run parser).1 = .ok [] := by
  intro fuel parser left
  rcases Input.stands_ofTokens tokens with ⟨input, sameTokens, stands_first⟩
  have enough : 8 * input.tokens.length ≤ fuel := by
    rw [sameTokens]
    exact Nat.le_add_right _ _
  have stands := Input.stands_afterCalls enough stands_first calls
  rcases stands.parse_left sameTokens enough with ⟨isEnded, isNew, sameRun, isProgram⟩
  refine ⟨?_, isEnded, isNew, sameRun, isProgram, ?_⟩
  · calc
      parser
      _ = ⟨parser.tokens, parser.current, parser.commandDepth⟩ := rfl
      _ = ⟨Parser.endedTokens tokens, parser.current, 0⟩ := by
        rw [stands.tokens_eq.trans sameTokens, stands.depth_eq]
  · intro earlier nodes before parsed
    obtain ⟨more, rfl⟩ := Nat.exists_eq_add_of_le before
    exact stands_first.parse_after_statements enough parsed more

/-- A list of arguments that does not end is refused in the middle, and the last of its tokens is a
program of its own. -/
theorem parse_again_in_arguments :
    ∃ tokens : List Token,
      tokens.map Token.kind = [.identifier "f", .mark .leftParen, .identifier "g", .integer 1,
        .integer 2] ∧
      let parser := Parser.ofTokens tokens
      (∃ fault, ((parse 48).run parser).1 = .error (.refused fault)) ∧
      ((parse 48).run (parser.afterCalls 48 1)).1 = .ok [.integer 2] ∧
      ((parse 48).run (parser.afterCalls 48 2)).1 = .ok [] := by
  let token (kind : Kind) (spaced : Bool) : Token := ⟨kind, "", ⟨1, 1, none⟩, spaced⟩
  let tokens := [token (.identifier "f") false, token (.mark .leftParen) false,
    token (.identifier "g") false, token (.integer 1) true, token (.integer 2) true]
  have enough : 8 * (Parser.endedTokens tokens).length + 0 = 48 := by decide
  have stopped : ((Parser.ofTokens tokens).afterCalls 48 1).tokens.drop
      ((Parser.ofTokens tokens).afterCalls 48 1).current =
        [token (.integer 2) true, token .endOfInput false] := by decide +kernel
  have first := parse_again tokens 0 0
  have second := parse_again tokens 1 0
  have third := parse_again tokens 2 0
  rw [enough] at first second third
  rcases first with ⟨-, -, -, -, isRefused, -⟩
  rcases second with ⟨-, -, -, -, isProgram, -⟩
  rcases third with ⟨-, -, -, -, -, later⟩
  have parsed : ((parse 48).run ((Parser.ofTokens tokens).afterCalls 48 1)).1 =
      .ok [.integer 2] := by
    rw [isProgram, stopped]
    with_unfolding_all rfl
  have refused : ∃ fault, parseTokens (Parser.endedTokens tokens) = .error fault :=
    ⟨_, by with_unfolding_all rfl⟩
  rcases refused with ⟨fault, isFault⟩
  have halts := isRefused.trans (congrArg (Except.mapError Halt.refused) isFault)
  exact ⟨tokens, rfl, ⟨fault, halts⟩, parsed, later 1 _ (by decide) parsed⟩

end Machine

end ScriptFront
