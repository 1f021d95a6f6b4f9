import ScriptFront.Proofs.Grammar.Delimiters
import ScriptFront.Proofs.Grammar.FollowedReading
import ScriptFront.Proofs.Grammar.HeaderEnds

/-!
# Arguments with and without parentheses

Where no block is among them, the arguments between two parentheses are those of a list that ends
with the input.  Such a list is seen to start behind a blank, unless a reserved word stands first.
-/

namespace ScriptFront

namespace Phrase

open Cursor

variable {cursor other next : Cursor} {inCommand : Bool}

/-! ## Inside and outside of argument lists -/

/-- The phrase is read, in an argument list without parentheses or outside of one. -/
def Form.ReadsIn (inCommand : Bool) : (form : Form) → Cursor → form.Value → Cursor → Prop
  | .entry _, cursor, first, next => Reads (.entry inCommand) cursor first next
  | .entries _, cursor, list, next => Reads (.entries inCommand) cursor list next
  | .binary _ level, cursor, node, next => Reads (.binary inCommand level) cursor node next
  | .climb _ level left, cursor, node, next => Reads (.climb inCommand level left) cursor node next
  | .unary _, cursor, node, next => Reads (.unary inCommand) cursor node next
  | .primary _, cursor, node, next => Reads (.primary inCommand) cursor node next
  | .named _ name, cursor, node, next => Reads (.named inCommand name) cursor node next
  | .trailingBlock _ name list, cursor, node, next =>
      Reads (.trailingBlock inCommand name list) cursor node next
  | _, _, _, _ => True

/-- Where no block is ahead it does not matter to which call one would belong. -/
theorem Reads.readsIn
    {form : Form} {value : form.Value} (reads : Reads form cursor value next)
    (noBlock : ∀ token ∈ cursor.ahead, token.kind ≠ .mark .blockArrow) (inCommand : Bool) :
    form.ReadsIn inCommand cursor value next := by
  induction reads with
  | keyed names _ isValue =>
      rcases names with ⟨word, middle, takes, isWord, isColon, spaced, isName⟩
      have noBlockBehind := isColon.forall_behind (takes.forall_behind noBlock)
      exact .keyed ⟨word, middle, takes, isWord, isColon, spaced, isName⟩ (isValue noBlockBehind)
  | expression unnamed _ alone isNode => exact .expression unnamed (isNode noBlock) alone
  | pair unnamed readsKey separates _ isKey isValue =>
      have noBlockBehind := separates.2.1.forall_behind (readsKey.forall_behind noBlock)
      exact .pair unnamed (isKey noBlock) separates (isValue noBlockBehind)
  | lastEntry _ ends isFirst => exact .lastEntry (isFirst noBlock) ends
  | moreEntries readsFirst comma _ isFirst areOthers =>
      have noBlockBehind := comma.forall_behind (readsFirst.forall_behind noBlock)
      exact .moreEntries (isFirst noBlock) comma (areOthers noBlockBehind)
  | binary readsLeft _ isLeft further =>
      exact .binary (isLeft noBlock) (further (readsLeft.forall_behind noBlock))
  | stop looser => exact .stop looser
  | climb continues tight readsRight single _ isRight further =>
      have noBlockRight := continues.2.1.forall_behind noBlock
      exact .climb continues tight (isRight noBlockRight) single
        (further (readsRight.forall_behind noBlockRight))
  | operand unsigned _ isNode => exact .operand unsigned (isNode noBlock)
  | unary sign isUnary _ isOperand =>
      exact .unary sign isUnary (isOperand (sign.forall_behind noBlock))
  | integer here => exact .integer here
  | float here => exact .float here
  | constant here => exact .constant here
  | string here areParts => exact .string here areParts
  | name here _ isNode => exact .name here (isNode (here.forall_behind noBlock))
  | classWord here isNode => exact .classWord here isNode
  | moduleWord here isNode => exact .moduleWord here isNode
  | colon here isNode => exact .colon here isNode
  | array here areElements => exact .array here areElements
  | brace here isNode => exact .brace here isNode
  | paren here isNode => exact .paren here isNode
  | block here isBlock => exact .block here isBlock
  | method arrow isBlock => exact .method arrow isBlock
  | call noMethod areArguments _ _ isNode =>
      exact .call noMethod areArguments (isNode (areArguments.forall_behind noBlock))
  | withBlock arrow =>
      rcases arrow.ahead with ⟨token, isAhead, isArrow⟩
      exact absurd isArrow (noBlock token (isAhead ▸ List.mem_cons_self))
  | withoutBlock => exact .withoutBlock (Or.inr (peek_kind_ne_of_forall noBlock (by simp)))
  | _ => trivial

/-! ## Where argument lists start -/

/-- A symbol is written without a blank. -/
theorem Reads.symbol_names
    {node : Node} (reads : Reads .symbol cursor node next) :
    (!cursor.peek.spaced && namesSymbol cursor.peek) = true := by
  cases reads with
  | symbolString hugs here =>
      simp only [namesSymbol, hugs, here.peek_kind, Bool.not_false, Bool.and_self]
  | symbolName hugs here names =>
      rw [here.peek] at hugs ⊢
      unfold namesSymbol
      split
      · rw [hugs]
        rfl
      · rw [hugs, names]
        rfl

/-- Behind a blank a list of arguments is seen to start unless its first token is a reserved word,
an operator, a parenthesis or a block. -/
theorem Reads.entries_atArgument
    {list : List Entry} (reads : Reads (.entries inCommand) cursor list next)
    (spaced : cursor.peek.spaced = true) (noParens : cursor.peek.kind ≠ .mark .leftParen)
    (noSign : ∀ operator, cursor.peek.kind ≠ .operator operator)
    (noWord : ∀ keyword, cursor.peek.kind ≠ .keyword keyword)
    (noBlock : cursor.peek.kind ≠ .mark .blockArrow) : cursor.atArgument = true := by
  have behindColon (isColon : cursor.peek.kind = .mark .colon) :
      (!(cursor.peekAt 1).spaced && namesSymbol (cursor.peekAt 1)) = true := by
    have ofBinary {level : Nat} {node : Node} {last : Cursor}
        (reads : Reads (.binary inCommand level) cursor node last) :
        (!(cursor.peekAt 1).spaced && namesSymbol (cursor.peekAt 1)) = true := by
      cases reads with
      | binary isLeft =>
          cases isLeft with
          | unary sign => exact absurd sign.peek_kind (noSign _)
          | operand _ isPrimary =>
              cases isPrimary with
              | colon here isSymbol =>
                  rcases here with ⟨colon, takes, -⟩
                  rw [takes.peekAt_one]
                  exact isSymbol.symbol_names
              | integer here | float here | constant here | string here | name here
              | classWord here | moduleWord here | array here | brace here | paren here
              | block here => cases isColon.symm.trans here.peek_kind
    have ofEntry {first : Entry} {last : Cursor}
        (reads : Reads (.entry inCommand) cursor first last) :
        (!(cursor.peekAt 1).spaced && namesSymbol (cursor.peekAt 1)) = true := by
      cases reads with
      | keyed names =>
          rcases names with ⟨word, middle, takes, isWord, -⟩
          rw [takes.peek] at isColon
          rw [isColon] at isWord
          simp at isWord
      | expression _ isNode => exact ofBinary isNode
      | pair _ isKey => exact ofBinary isKey
    cases reads with
    | lastEntry isFirst => exact ofEntry isFirst
    | moreEntries isFirst => exact ofEntry isFirst
  have starts := reads.entries_starts
  unfold atArgument
  simp only [spaced, Bool.true_and]
  generalize isKind : cursor.peek.kind = kind at starts
  cases kind with
  | operator sign => exact absurd isKind (noSign sign)
  | keyword word => exact absurd isKind (noWord word)
  | mark sign =>
      cases sign with
      | colon => exact behindColon isKind
      | leftParen => exact absurd isKind noParens
      | blockArrow => exact absurd isKind noBlock
      | leftBracket | leftBrace => rfl
      | _ => cases starts
  | integer | float | fragment | identifier | constant => rfl
  | _ => cases starts

end Phrase

/-! ## Lists of arguments -/

def Bracket.isParen : Bracket → Bool
  | .paren => true
  | _ => false

namespace Token

open ScriptFront.Bracket Cursor

/-- A search for a closing parenthesis takes notice of the open ones. -/
theorem behindParens?_of_unclosed
    {depth deeper : Nat} {tokens : List Token}
    (leaves : unclosed (List.replicate depth .paren) (only isParen (tokens.map Token.kind)) =
      some (List.replicate deeper .paren)) (rest : List Token) :
    behindParens? (depth + 1) (tokens ++ rest) = behindParens? (deeper + 1) rest := by
  induction tokens generalizing depth with
  | nil =>
      have same : List.replicate depth Bracket.paren = List.replicate deeper .paren :=
        Option.some.inj leaves
      have sameDepth : depth = deeper := by simpa using congrArg List.length same
      rw [sameDepth]
      rfl
  | cons token tail inductionHypothesis =>
      rw [List.map_cons, only_cons, unclosed_append] at leaves
      rw [List.cons_append, behindParens?]
      by_cases isLeft : token.kind = .mark .leftParen
      · rw [if_pos isLeft]
        have opens : token.kind.opens? = some .paren := by
          rw [isLeft]
          rfl
        rw [unclosed_only_of_opens opens rfl] at leaves
        exact inductionHypothesis leaves
      · rw [if_neg isLeft]
        by_cases isRight : token.kind = .mark .rightParen
        · rw [if_pos isRight]
          have closes : token.kind.closes? = some .paren := by
            rw [isRight]
            rfl
          cases depth with
          | zero =>
              rw [isRight] at leaves
              cases leaves
          | succ outer =>
              rw [List.replicate_succ, unclosed_only_of_closes closes rfl] at leaves
              rw [if_neg (by omega)]
              exact inductionHypothesis leaves
        · rw [if_neg isRight]
          have other : token.kind.isOf isParen = false := by
            cases isKind : token.kind with
            | mark sign =>
                rw [isKind] at isLeft isRight
                cases sign <;> first | rfl | exact absurd rfl isLeft | exact absurd rfl isRight
            | _ => rfl
          rw [only_eq_nil other] at leaves
          exact inductionHypothesis leaves

/-- Tokens that can be written between the parentheses of a call: in a line, without blocks, and
with a partner for each parenthesis. -/
structure BetweenParens (tokens : List Token) : Prop where
  noTrivia : ∀ token ∈ tokens, token.kind.isTrivia = false
  inLine : ∀ token ∈ tokens, token.kind.isLayout = false
  noBlock : ∀ token ∈ tokens, token.kind ≠ .mark .blockArrow
  balanced : Nested (only isParen (tokens.map Token.kind))

theorem BetweenParens.paired {tokens : List Token} (between : BetweenParens tokens) :
    Paired tokens := by
  intro depth rest
  have leaves := unclosed_above between.balanced (List.replicate depth .paren)
  exact behindParens?_of_unclosed leaves rest

theorem BetweenParens.ne_of_isLayout
    {tokens : List Token} (between : BetweenParens tokens) {kind : Kind}
    (isLayout : kind.isLayout = true) : ∀ token ∈ tokens, token.kind ≠ kind := by
  rintro token member rfl
  cases (between.inLine token member).symm.trans isLayout

end Token

namespace Phrase

open Cursor

variable {given : List Token} {closer : Token} {ending other : Ending} {flag : Bool}
  {last next : Cursor} {list : List Node}

/-- The parenthesis that closes the arguments is the one behind them. -/
theorem Reads.enclosed_ends
    (reads : Reads (.enclosed .rightParen) ⟨given ++ [closer], ending, flag⟩ list last)
    (paired : Token.Paired given) (isCloser : closer.kind = .mark .rightParen) :
    last = ⟨[], ending, false⟩ := by
  have searched : behindParens? 1 (given ++ [closer]) = some [] := by
    rw [paired 0, behindParens?, isCloser]
    rfl
  rcases reads.spans with ⟨closing, ⟨passed, isPassed, sameEnding, pass⟩, closes⟩
  rcases closes with ⟨token, takes, isKind⟩
  have found : behindParens? 1 (given ++ [closer]) = some last.ahead := by
    have isWhole : given ++ [closer] = passed ++ closing.ahead := isPassed
    rw [isWhole, pass 0, takes.ahead, behindParens?, isKind]
    rfl
  have isEnd : last.ahead = [] := Option.some.inj (found.symm.trans searched)
  have inLine : last.afterBody = false := takes.inLine (by simp [isKind])
  have isEnding : last.ending = ending := takes.ending.trans sameEnding
  cases last
  simp_all

/-- Another end of the line behind a list, which may stand in another argument list as well. -/
theorem Reads.entries_exchanged
    {entries : List Entry} {inCommand : Bool} (back more : Cursor)
    (reads : Reads (.entries inCommand) (back.led given) entries next)
    (between : Token.BetweenParens given) (isEnd : next.ahead = back.ahead)
    (stops : back.peek.kind.stopsLine = true) (stopsMore : more.peek.kind.stopsLine = true)
    (noBlock : ∀ token ∈ back.ahead, token.kind ≠ .mark .blockArrow)
    (noBlockMore : more.peek.kind ≠ .mark .blockArrow) (inList : Bool) :
    Reads (.entries inList) (more.led given) entries (more.led []) := by
  have readsIn : Reads (.entries inList) (back.led given) entries next :=
    reads.readsIn (List.forall_mem_append.2 ⟨between.noBlock, noBlock⟩) inList
  have firm : Token.Firm given :=
    firm_of_passes readsIn.passes readsIn.endsFirm (by rw [isEnd]; rfl) between.inLine
  refine readsIn.followed back more firm stops stopsMore isEnd rfl ?_
  intro isArrow
  exact absurd isArrow noBlockMore

/-- The end of the input in place of the parenthesis behind a list. -/
theorem Reads.entries_unclosed
    {entries : List Entry} {inCommand : Bool} (between : Token.BetweenParens given)
    (isCloser : closer.kind = .mark .rightParen)
    (reads : Reads (.entries inCommand) ⟨given ++ [closer], ending, false⟩ entries next)
    (isLast : next.ahead = [closer]) (inList : Bool) (other : Ending) :
    Reads (.entries inList) ⟨given, other, false⟩ entries ⟨[], other, false⟩ := by
  let back : Cursor := ⟨[closer], ending, false⟩
  let more : Cursor := ⟨[], other, false⟩
  have stops : closer.kind.stopsLine = true := by
    rw [isCloser]
    rfl
  have noBlock : ∀ token ∈ [closer], token.kind ≠ .mark .blockArrow := by
    simp [isCloser]
  have whole : more.led given = ⟨given, other, false⟩ := by
    rw [led, List.append_nil]
  rw [← whole]
  exact reads.entries_exchanged back more between isLast stops rfl noBlock Kind.noConfusion inList

/-- The parenthesis behind a list in place of the end of the input. -/
theorem Reads.entries_closed
    {entries : List Entry} {inCommand : Bool} (between : Token.BetweenParens given)
    (isCloser : closer.kind = .mark .rightParen)
    (reads : Reads (.entries inCommand) ⟨given, ending, false⟩ entries next)
    (isEnd : next.ahead = []) (inList : Bool) (other : Ending) :
    Reads (.entries inList) ⟨given ++ [closer], other, false⟩ entries
      ⟨[closer], other, false⟩ := by
  let back : Cursor := ⟨[], ending, false⟩
  let more : Cursor := ⟨[closer], other, false⟩
  have stops : closer.kind.stopsLine = true := by
    rw [isCloser]
    rfl
  have noBlock : closer.kind ≠ .mark .blockArrow := by
    simp [isCloser]
  have whole : back.led given = ⟨given, ending, false⟩ := by
    rw [led, List.append_nil]
  rw [← whole] at reads
  exact reads.entries_exchanged back more between isEnd rfl stops (List.forall_mem_nil _) noBlock
    inList

end Phrase

end ScriptFront
