import ScriptFront.Proofs.Grammar.ClosedPrograms
import ScriptFront.Proofs.Grammar.IndexedCalls

/-!
# What stands behind the first end

A parser holds all tokens it was made of, those behind the first end of the input too, and some of
its functions look ahead by index.  None of them comes to anything else because of those tokens:
wherever the parser stands, each runs as if the first end were the last token.
-/

namespace ScriptFront

/-- Where the functions of the grammar are called: statements, and the rest of a list that is not
the arguments of a call, outside of argument lists without parentheses, and the rest of a hash behind
its first pair. -/
def Production.Called : Production → Nat → Prop
  | .statements _, depth | .bodyStatements _, depth | .statement, depth
  | .parameterTail _, depth => depth = 0
  | .hashTail before, depth => depth = 0 ∧ before ≠ []
  | _, _ => True

namespace Machine

variable {α : Type}

/-- Two runs come to the same, and leave their parsers at the same index with as many argument lists
open. -/
structure SameRun (first second : Except Halt α × Parser) : Prop where
  outcome : first.1 = second.1
  current : first.2.current = second.2.current
  commandDepth : first.2.commandDepth = second.2.commandDepth

end Machine

namespace Parser

variable {final : Token}

theorem significant_of_end
    (isEnd : final.kind = .endOfInput) (front behind : List Token) :
    Token.significant (front ++ final :: behind) =
      Token.significant front ++ final :: Token.significant behind := by
  have means : final.kind.isTrivia = false := by
    rw [isEnd]
    rfl
  rw [Token.significant_append, Token.significant_cons means]

/-- Everything in front of an end of the input is kept, and that end with it. -/
theorem endedTokens_of_end
    (isEnd : final.kind = .endOfInput) (front behind : List Token) :
    ∃ rest, endedTokens (front ++ final :: behind) = Token.significant front ++ final :: rest := by
  rcases endedTokens_eq_append (front ++ final :: behind) with ⟨more, isEnded⟩
  refine ⟨Token.significant behind ++ more, ?_⟩
  rw [isEnded, significant_of_end isEnd, List.append_assoc]
  rfl

/-- No second end is put behind the last token if that is one. -/
theorem endedTokens_of_last (isEnd : final.kind = .endOfInput) (front : List Token) :
    endedTokens (front ++ [final]) = Token.significant front ++ [final] := by
  have areSignificant := significant_of_end isEnd front []
  have isLast : (Token.significant front ++ [final]).getLast?.map Token.kind =
      some .endOfInput := by
    rw [List.getLast?_append, ← isEnd]
    rfl
  unfold endedTokens
  rw [areSignificant]
  exact if_pos isLast

end Parser

namespace Input

open Machine

variable {α : Type} {input other : Input} {depth : Nat} {cursor : Cursor}
  {parser parserOther : Parser} {ran ranOther : Except Halt α × Parser}
  {expected : Except (Refusal × Cursor) (α × Cursor)}

/-- The tokens are the same up to the first end. -/
structure SameUpToEnd (input other : Input) : Prop where
  front : other.front = input.front
  final : other.final = input.final

theorem exists_of_end
    {front : List Token} {final : Token} (noEnd : ∀ token ∈ front, token.kind ≠ .endOfInput)
    (isEnd : final.kind = .endOfInput) (behind : List Token) :
    ∃ input : Input, input.front = Token.significant front ∧ input.final = final ∧
      input.tokens = Parser.endedTokens (front ++ final :: behind) := by
  have noEndHere : ∀ token ∈ Token.significant front, token.kind ≠ .endOfInput := by
    intro token member
    exact noEnd token (List.mem_filter.1 member).1
  rcases Parser.endedTokens_of_end isEnd front behind with ⟨rest, isEnded⟩
  exact ⟨⟨Token.significant front, final, rest, noEndHere, isEnd⟩, rfl, rfl, isEnded.symm⟩

/-- The input without what stands behind the end. -/
def cut (input : Input) : Input := { input with behind := [] }

theorem sameUpToEnd_cut (input : Input) : input.SameUpToEnd input.cut := ⟨rfl, rfl⟩

theorem length_cut_le (input : Input) : input.cut.tokens.length ≤ input.tokens.length := by
  have isFront : input.cut.front.length = input.front.length := rfl
  have noneBehind : input.cut.behind.length = 0 := rfl
  rw [length_tokens, length_tokens, isFront, noneBehind]
  omega

/-- The place at which a parser with this index stands. -/
def placeAt (input : Input) (index : Nat) : Cursor :=
  ⟨input.front.drop index, ⟨input.final.location, input.final.spaced⟩,
    (input.front.take index).getLast?.any fun token => decide (token.kind = .dedent)⟩

theorem stands_placeAt
    {index : Nat} (le : index ≤ input.front.length) (depth : Nat) :
    input.Stands depth (input.placeAt index) ⟨input.tokens, index, depth⟩ :=
  ⟨rfl, rfl, le, rfl, rfl, rfl⟩

/-- What stands behind the first end does not matter to the place of a parser. -/
theorem Stands.sameUpToEnd
    (stands : input.Stands depth cursor parser) (same : input.SameUpToEnd other) :
    other.Stands depth cursor { parser with tokens := other.tokens } := by
  rcases same with ⟨sameFront, sameFinal⟩
  refine ⟨rfl, stands.depth_eq, ?_, ?_, ?_, ?_⟩
  · rw [sameFront]
    exact stands.current_le
  · rw [sameFront]
    exact stands.ahead
  · rw [sameFinal]
    exact stands.ending
  · rw [sameFront]
    exact stands.afterBody

/-- Parsers at one place have the same index. -/
theorem Stands.current_eq
    (stands : input.Stands depth cursor parser) (standsOther : other.Stands depth cursor parserOther)
    (same : input.SameUpToEnd other) : parser.current = parserOther.current := by
  have total := stands.size
  have totalOther := standsOther.size
  rw [same.front] at totalOther
  omega

/-- Two runs that come to what is expected come to the same. -/
theorem Follows.sameRun
    (follows : input.Follows depth expected ran) (followsOther : other.Follows depth expected ranOther)
    (same : input.SameUpToEnd other) : SameRun ran ranOther := by
  cases follows with
  | done stands =>
      cases followsOther with
      | done standsOther =>
          exact ⟨rfl, stands.current_eq standsOther same,
            stands.depth_eq.trans standsOther.depth_eq.symm⟩
  | refused stands =>
      cases followsOther with
      | refused standsOther =>
          exact ⟨rfl, stands.current_eq standsOther same,
            stands.depth_eq.trans standsOther.depth_eq.symm⟩

/-- A function that reads the same from both lists of tokens runs alike on them. -/
theorem Agrees.sameRun
    {call callOther : Callees} {production : Production}
    (agrees : input.Agrees call production cursor)
    (agreesOther : other.Agrees callOther production cursor) (same : input.SameUpToEnd other)
    (stands : input.Stands depth cursor parser)
    (standsOther : other.Stands depth cursor parserOther) (called : production.Called depth) :
    SameRun ((call production).run parser) ((callOther production).run parserOther) := by
  cases production with
  | statements | bodyStatements | statement | parameterTail =>
      obtain rfl : depth = 0 := called
      exact (agrees parser stands).sameRun (agreesOther parserOther standsOther) same
  | hashTail before =>
      rcases called with ⟨rfl, filled⟩
      have isSplit : before = before.dropLast ++ [before.getLast filled] :=
        (List.dropLast_concat_getLast filled).symm
      exact (agrees _ _ parser isSplit stands).sameRun
        (agreesOther _ _ parserOther isSplit standsOther) same
  | entry | expressionList | binary | climb | unary | primary | stringParts =>
      exact (agrees depth parser stands).sameRun (agreesOther depth parserOther standsOther) same

theorem exec_sameRun
    {production : Production} {fuel : Nat} (same : input.SameUpToEnd other)
    (stands : input.Stands depth cursor parser)
    (standsOther : other.Stands depth cursor parserOther) (called : production.Called depth)
    (enough : 8 * cursor.size + production.rank < fuel) :
    SameRun ((exec fuel production).run parser) ((exec fuel production).run parserOther) :=
  (agrees_exec input fuel production cursor enough).sameRun
    (agrees_exec other fuel production cursor enough) same stands standsOther called

theorem parse_sameRun
    {fuel : Nat} (same : input.SameUpToEnd other) (stands : input.Stands 0 cursor parser)
    (standsOther : other.Stands 0 cursor parserOther) (enough : 8 * input.tokens.length ≤ fuel)
    (enoughOther : 8 * other.tokens.length ≤ fuel) (calls : Nat) :
    SameRun ((Machine.parse fuel).run (parser.afterCalls fuel calls))
      ((Machine.parse fuel).run (parserOther.afterCalls fuel calls)) := by
  have stands_after := stands_afterCalls enough stands calls
  have stands_after_other := stands_afterCalls enoughOther standsOther calls
  have called : (Production.statements []).Called 0 := rfl
  refine exec_sameRun same stands_after stands_after_other called ?_
  have total := stands_after.size
  have count := input.length_tokens
  have isRank : (Production.statements []).rank = 7 := rfl
  omega

end Input

namespace Machine

open Input

/-- No token behind the first end of the input has an effect: neither on the statements or the fault
that a list of tokens comes to, nor on any of the calls of a parser, nor on any function that one of
them calls, wherever the parser stands. -/
theorem sameRun_of_end
    {front : List Token} {final : Token} (noEnd : ∀ token ∈ front, token.kind ≠ .endOfInput)
    (isEnd : final.kind = .endOfInput) (behind : List Token) :
    parseTokens (front ++ final :: behind) = parseTokens (front ++ [final]) ∧
      (∀ calls extra,
        let fuel := 8 * (Parser.endedTokens (front ++ final :: behind)).length + extra
        SameRun
          ((parse fuel).run ((Parser.ofTokens (front ++ final :: behind)).afterCalls fuel calls))
          ((parse fuel).run ((Parser.ofTokens (front ++ [final])).afterCalls fuel calls))) ∧
      ∀ (production : Production) (index depth fuel : Nat), production.Called depth →
        index ≤ (Token.significant front).length →
        8 * ((Token.significant front).length - index) + production.rank < fuel →
        SameRun
          ((exec fuel production).run
            ⟨Parser.endedTokens (front ++ final :: behind), index, depth⟩)
          ((exec fuel production).run
            ⟨Parser.endedTokens (front ++ [final]), index, depth⟩) := by
  rcases exists_of_end noEnd isEnd behind with ⟨input, isFront, isFinal, areTokens⟩
  have areCut : input.cut.tokens = Parser.endedTokens (front ++ [final]) := by
    rw [Parser.endedTokens_of_last isEnd, ← isFront, ← isFinal]
    rfl
  have same := input.sameUpToEnd_cut
  refine ⟨?_, ?_, ?_⟩
  · have isInFront : ∃ token ∈ front ++ [final], token.kind = .endOfInput :=
      ⟨final, List.mem_append_right _ List.mem_cons_self, isEnd⟩
    rw [parseTokens, parseTokens, List.append_cons, Cursor.ofTokens_append_of_end isInFront]
  · intro calls extra fuel
    have stands := stands_placeAt (Nat.zero_le input.front.length) 0
    have enough : 8 * input.tokens.length ≤ fuel := by
      rw [areTokens]
      exact Nat.le_add_right _ _
    have enoughCut : 8 * input.cut.tokens.length ≤ fuel :=
      Nat.le_trans (Nat.mul_le_mul_left 8 input.length_cut_le) enough
    have alike := parse_sameRun same stands (stands.sameUpToEnd same) enough enoughCut calls
    rw [Parser.ofTokens, Parser.ofTokens, ← areTokens, ← areCut]
    exact alike
  · intro production index depth fuel called le enough
    rw [← isFront] at le enough
    have stands := stands_placeAt le depth
    have size : (input.placeAt index).size = input.front.length - index := List.length_drop
    have alike := exec_sameRun same stands (stands.sameUpToEnd same) called (size ▸ enough)
    rw [← areTokens, ← areCut]
    exact alike

/-- The operator behind the end would make the parentheses the start of a larger argument. -/
theorem sameRun_of_end_behind_parens :
    ∃ (front behind : List Token) (final : Token),
      front.map Token.kind =
        [.identifier "f", .mark .leftParen, .integer 1, .mark .rightParen] ∧
      behind.map Token.kind = [.operator .plus, .integer 2] ∧ final.kind = .endOfInput ∧
      parseTokens (front ++ final :: behind) = .ok [.call "f" [.integer 1] none] ∧
      parseTokens (front ++ behind) =
        .ok [.call "f" [.binary .plus (.group (.integer 1)) (.integer 2)] none] ∧
      SameRun ((parse 64).run (Parser.ofTokens (front ++ final :: behind)))
        ((parse 64).run (Parser.ofTokens (front ++ [final]))) ∧
      SameRun ((exec 40 .primary).run ⟨Parser.endedTokens (front ++ final :: behind), 0, 0⟩)
        ((exec 40 .primary).run ⟨Parser.endedTokens (front ++ [final]), 0, 0⟩) := by
  let token (kind : Kind) : Token := ⟨kind, "", ⟨1, 1, none⟩, true⟩
  let front := [token (.identifier "f"), token (.mark .leftParen), token (.integer 1),
    token (.mark .rightParen)]
  let behind := [token (.operator .plus), token (.integer 2)]
  let final := token .endOfInput
  have noEnd : ∀ token ∈ front, token.kind ≠ .endOfInput := by decide
  have isEnd : final.kind = .endOfInput := rfl
  rcases sameRun_of_end noEnd isEnd behind with ⟨same, calls, called⟩
  have parsed : parseTokens (front ++ [final]) = .ok [.call "f" [.integer 1] none] := by
    with_unfolding_all rfl
  refine ⟨front, behind, final, rfl, rfl, rfl, same.trans parsed, by with_unfolding_all rfl,
    calls 0 0, called .primary 0 0 40 trivial (Nat.zero_le _) ?_⟩
  decide

end Machine

end ScriptFront
