import Mathlib.Data.List.TakeWhile
import ScriptFront.Proofs.Grammar.IndexedPhrases

/-!
# Calls of a parser with an index

A parser may be called again after it has come to a value or has refused a token; it goes on from
the token at which it stands.  No call fails in any other way, whatever the tokens are: each comes
to an end, with functions nested no deeper than eight times the number of tokens, every token it
looks at exists, and the index stays in front of the first end of the input or at it.
-/

namespace ScriptFront

namespace Parser

theorem endedTokens_eq_append (tokens : List Token) :
    ∃ more, endedTokens tokens = Token.significant tokens ++ more := by
  simp only [endedTokens]
  split
  · exact ⟨[], (List.append_nil _).symm⟩
  · exact ⟨_, rfl⟩

theorem endedTokens_of_noEnd
    {tokens : List Token} (noEnd : ∀ token ∈ Token.significant tokens, token.kind ≠ .endOfInput) :
    endedTokens tokens =
      Token.significant tokens ++ [(Cursor.missingEnding (Token.significant tokens)).token] := by
  unfold endedTokens
  rw [if_neg]
  intro isEnd
  rcases Option.map_eq_some_iff.1 isEnd with ⟨last, isLast, isKind⟩
  exact noEnd last (List.mem_of_getLast? isLast) isKind

/-- The parser after a number of calls. -/
def afterCalls (fuel : Nat) (parser : Parser) : Nat → Parser
  | 0 => parser
  | calls + 1 => ((Machine.parse fuel).run (afterCalls fuel parser calls)).2

/-- Between calls the parser holds the tokens it was made of.  It stands at one of them, up to the
first that ends the input, where the cursor stands, and no argument list is open. -/
structure Rests (parser : Parser) (tokens : List Token) (cursor : Cursor) : Prop where
  tokens_eq : parser.tokens = endedTokens tokens
  current_le : parser.current ≤ parser.firstEnd
  firstEnd_lt : parser.firstEnd < parser.tokens.length
  ahead_eq : cursor.ahead = (parser.tokens.take parser.firstEnd).drop parser.current
  noneOpen : parser.commandDepth = 0

/-- What a call may come to that leaves the parser like this: statements, or a fault at the next
token which says what was expected in its place. -/
inductive Answers (parser : Parser) : Except Halt (List Node) → Prop where
  | statements (nodes : List Node) : Answers parser (.ok nodes)
  | fault {token : Token} {message : String} {wanted : List String}
      (isNext : parser.tokens[parser.current]? = some token) (some : wanted ≠ []) :
      Answers parser
        (.error (.refused (.syntactic message token.location token.describe wanted)))

end Parser

namespace Cursor

/-- The place reached by a number of calls. -/
def afterCalls (cursor : Cursor) : Nat → Cursor
  | 0 => cursor
  | calls + 1 => (afterCalls cursor calls).readProgram.2

end Cursor

namespace Input

open Machine

variable {input : Input} {cursor : Cursor} {parser : Parser} {fuel : Nat}

/-- Up to its first end the input of a parser is what lies ahead of a cursor. -/
theorem stands_of_split
    {tokens front behind : List Token} {final : Token}
    (isSplit : Parser.endedTokens tokens = front ++ final :: behind)
    (noEnd : ∀ token ∈ front, token.kind ≠ .endOfInput) (isEnd : final.kind = .endOfInput)
    (isCursor : Cursor.ofTokens tokens = ⟨front, ⟨final.location, final.spaced⟩, false⟩) :
    ∃ input : Input, input.tokens = Parser.endedTokens tokens ∧
      input.Stands 0 (Cursor.ofTokens tokens) (Parser.ofTokens tokens) := by
  refine ⟨⟨front, final, behind, noEnd, isEnd⟩, isSplit.symm, ?_⟩
  rw [isCursor]
  exact ⟨isSplit, rfl, Nat.zero_le _, rfl, rfl, rfl⟩

/-- A new parser is at the first token that carries meaning. -/
theorem stands_ofTokens (tokens : List Token) :
    ∃ input : Input, input.tokens = Parser.endedTokens tokens ∧
      input.Stands 0 (Cursor.ofTokens tokens) (Parser.ofTokens tokens) := by
  cases found : (Token.significant tokens).find? (·.kind = .endOfInput) with
  | some final =>
      rcases List.find?_eq_some_iff_append.1 found with ⟨isEnd, front, behind, isSplit, areOthers⟩
      have noEnd : ∀ token ∈ front, token.kind ≠ .endOfInput := by simpa using areOthers
      have atEnd : final.kind = .endOfInput := by simpa using isEnd
      rcases Parser.endedTokens_eq_append tokens with ⟨more, isEnded⟩
      have isFront : (Token.significant tokens).takeWhile (·.kind ≠ .endOfInput) = front := by
        rw [isSplit, List.takeWhile_append_of_pos (by simpa using noEnd)]
        simp [atEnd]
      have isInput : Parser.endedTokens tokens = front ++ final :: (behind ++ more) := by
        rw [isEnded, isSplit, List.append_assoc]
        rfl
      apply stands_of_split isInput noEnd atEnd
      simp only [Cursor.ofTokens, found, isFront]
  | none =>
      have noEnd : ∀ token ∈ Token.significant tokens, token.kind ≠ .endOfInput := by
        simpa using found
      have isFront : (Token.significant tokens).takeWhile (·.kind ≠ .endOfInput) =
          Token.significant tokens := by
        rw [List.takeWhile_eq_self_iff]
        simpa using noEnd
      apply stands_of_split (Parser.endedTokens_of_noEnd noEnd) noEnd rfl
      simp only [Cursor.ofTokens, found, isFront]
      rfl

theorem Stands.rests
    {tokens : List Token} (sameTokens : input.tokens = Parser.endedTokens tokens)
    (stands : input.Stands 0 cursor parser) : parser.Rests tokens cursor := by
  have count := input.length_tokens
  have isFront : parser.tokens.take parser.firstEnd = input.front := by
    rw [stands.firstEnd, stands.tokens_eq, Input.tokens, List.take_left]
  refine ⟨stands.tokens_eq.trans sameTokens, ?_, ?_, ?_, stands.depth_eq⟩
  · rw [stands.firstEnd]
    exact stands.current_le
  · rw [stands.firstEnd, stands.tokens_eq]
    omega
  · rw [isFront]
    exact stands.ahead

/-- A call reads the program that lies ahead. -/
theorem run_parse
    (enough : 8 * input.tokens.length ≤ fuel) (stands : input.Stands 0 cursor parser) :
    ∃ after, (Machine.parse fuel).run parser =
        (cursor.readProgram.1.mapError Halt.refused, after) ∧
      input.Stands 0 cursor.readProgram.2 after ∧
      after.Answers (cursor.readProgram.1.mapError Halt.refused) := by
  have total := stands.size
  have count := input.length_tokens
  have fits : 8 * cursor.size + 7 < fuel := by omega
  have follows := agrees_exec input fuel (.statements []) cursor fits parser stands
  rw [Cursor.readProgram, Machine.parse]
  generalize (exec fuel (.statements [])).run parser = ran at follows ⊢
  cases isRead : Phrase.statements false cursor with
  | done nodes next shorter =>
      rw [isRead] at follows
      cases follows with
      | done stands_after => exact ⟨_, rfl, stands_after, .statements nodes⟩
  | stuck refusal stop =>
      rw [isRead] at follows
      cases follows with
      | @refused _ _ after stands_after some =>
          rcases stands_after.get (Nat.zero_le _) with ⟨token, isNext, alike⟩
          have sameFault : refusal.fault token = refusal.fault stop.peek := alike.fault refusal
          have wants : refusal.wanted.map Expectation.words ≠ [] := by simpa using some
          have answers : after.Answers (.error (.refused (refusal.fault token))) :=
            .fault isNext wants
          rw [sameFault] at answers
          exact ⟨after, rfl, stands_after, answers⟩

theorem stands_afterCalls
    (enough : 8 * input.tokens.length ≤ fuel) (stands : input.Stands 0 cursor parser)
    (calls : Nat) :
    input.Stands 0 (cursor.afterCalls calls) (parser.afterCalls fuel calls) := by
  induction calls with
  | zero => exact stands
  | succ calls inductionHypothesis =>
      rcases run_parse enough inductionHypothesis with ⟨after, ran, stands_after, -⟩
      rw [Parser.afterCalls, ran]
      exact stands_after

end Input

namespace Machine

/-- Every call of a parser comes to what the program ahead says: its statements, or a fault at the
token where the parser stands then.  The parser does not run out of fuel, look for a token that does
not exist, move behind the first end of the input or count below zero. -/
theorem parse_afterCalls (tokens : List Token) (calls extra : Nat) :
    let fuel := 8 * (Parser.endedTokens tokens).length + extra
    let ran := (Machine.parse fuel).run ((Parser.ofTokens tokens).afterCalls fuel calls)
    let read := ((Cursor.ofTokens tokens).afterCalls calls).readProgram
    ran.1 = read.1.mapError Halt.refused ∧ ran.2.Answers ran.1 ∧ ran.2.Rests tokens read.2 := by
  intro fuel ran read
  rcases Input.stands_ofTokens tokens with ⟨input, sameTokens, stands⟩
  have enough : 8 * input.tokens.length ≤ fuel := by
    rw [sameTokens]
    exact Nat.le_add_right _ _
  have stands_before := Input.stands_afterCalls enough stands calls
  rcases Input.run_parse enough stands_before with ⟨after, isRan, stands_after, answers⟩
  have isRun : ran = (read.1.mapError Halt.refused, after) := isRan
  rw [isRun]
  exact ⟨rfl, answers, stands_after.rests sameTokens⟩

/-- A dedent that closes no body is refused again and again. -/
example :
    let parser := Parser.ofTokens [⟨.dedent, "", ⟨0, 0, none⟩, false⟩]
    (Machine.parse 16).run (parser.afterCalls 16 2) =
      (.error (.refused (.syntactic (Fault.unexpectedMessage "dedent" ["expression"])
        ⟨0, 0, none⟩ "dedent" ["expression"])), parser) := by
  with_unfolding_all rfl

end Machine

end ScriptFront
