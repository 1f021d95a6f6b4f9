import ScriptFront.Proofs.Grammar.CallSpellings
import ScriptFront.Proofs.Grammar.Chains

/-!
# Parentheses behind a blank

Parentheses directly behind a name hold the arguments of a call.  Behind a blank they are only the
start of the first argument if an operator or a comma follows the one that closes them.  Which one
that is, is found by counting parentheses, and an expression between them is read up to the same
one, whatever calls it holds in turn.
-/

namespace ScriptFront

namespace Cursor

/-- Here the line stops, and not in front of a block. -/
structure ClosesLine (cursor : Cursor) : Prop where
  stops : cursor.peek.kind.stopsLine = true
  noBlock : cursor.peek.kind ≠ .mark .blockArrow

variable {back : Cursor} {closer : Token} {kind : Kind}

theorem led_append (back : Cursor) (front more : List Token) :
    back.led (front ++ more) = (back.led more).led front := by
  rw [led, List.append_assoc]
  rfl

theorem closesLine_of_mark
    {mark : Mark} (isCloser : closer.kind = .mark mark)
    (stops : (Kind.mark mark).stopsLine = true) (noBlock : mark ≠ .blockArrow) (back : Cursor)
    (more : List Token) : (back.led (closer :: more)).ClosesLine := by
  have isHere : (back.led (closer :: more)).peek.kind = .mark mark := isCloser
  refine ⟨?_, ?_⟩
  · rw [isHere]
    exact stops
  · rw [isHere]
    exact fun isArrow => noBlock (Kind.mark.inj isArrow)

theorem closesLine_of_paren
    (isCloser : closer.kind = .mark .rightParen) (back : Cursor) (more : List Token) :
    (back.led (closer :: more)).ClosesLine :=
  closesLine_of_mark isCloser rfl Mark.noConfusion back more

theorem closesLine_of_end (isEnd : back.ahead = []) : back.ClosesLine := by
  have isHere : back.peek.kind = .endOfInput := by
    rw [peek_of_end isEnd]
    rfl
  refine ⟨?_, ?_⟩
  · rw [isHere]
    rfl
  · simp [isHere]

theorem ClosesLine.peek_kind_ne (closes : back.ClosesLine) (other : kind.stopsLine = false) :
    back.peek.kind ≠ kind := by
  intro isKind
  have stops := closes.stops
  rw [isKind, other] at stops
  cases stops

theorem ClosesLine.not_continues (closes : back.ClosesLine)
    {operator : Operator} {binding : Binding} {next : Cursor} :
    ¬(back.led []).Continues operator binding next := by
  rintro ⟨-, isSign, -⟩
  exact closes.peek_kind_ne rfl isSign.peek_kind

end Cursor

/-- The tokens are an expression wherever their line stops behind them. -/
def Token.AreExpression (tokens : List Token) (node : Node) : Prop :=
  ∀ back : Cursor, back.ClosesLine →
    Phrase.Reads .expression (back.led tokens) node (back.led [])

namespace Phrase

open Cursor

variable {inCommand : Bool} {level : Nat} {cursor next back : Cursor} {node : Node}

/-- A name with the colon of a key behind it takes no arguments. -/
theorem Reads.named_before_colon
    {name : String} {behind : Cursor} (reads : Reads (.named inCommand name) cursor node next)
    (isColon : cursor.Accepts (.mark .colon) behind) (spaced : behind.peek.spaced = true) :
    next = cursor := by
  have atColon := isColon.peek_kind
  cases reads with
  | method arrow => cases atColon.symm.trans arrow.peek_kind
  | call _ areArguments isCall =>
      cases areArguments with
      | parenthesized opens => cases atColon.symm.trans opens.peek_kind
      | larger opens => cases atColon.symm.trans opens
      | command _ starts => cases (not_atArgument_of_colon isColon spaced).symm.trans starts
      | noArguments =>
          cases isCall with
          | withBlock arrow => cases atColon.symm.trans arrow.peek_kind
          | withoutBlock => rfl

/-- An expression that goes on up to something else than a colon does not start with a key. -/
theorem Reads.symbolKey?_eq_none
    (reads : Reads (.binary inCommand level) cursor node next)
    (noColon : next.peek.kind ≠ .mark .colon) : cursor.symbolKey? = none := by
  refine symbolKey?_eq_none_iff.2 ?_
  rintro key behind ⟨word, middle, takes, isWord, isColon, spaced, -⟩
  have isHere : cursor.peek.kind = word.kind := by rw [takes.peek]
  have atColon := isColon.peek_kind
  have noConstant {name : String} {place : Cursor} : ¬middle.Accepts (.constant name) place := by
    intro names
    cases atColon.symm.trans names.peek_kind
  cases reads with
  | binary isLeft further =>
      cases isLeft with
      | unary sign =>
          have isSign := isHere.symm.trans sign.peek_kind
          simp [isSign] at isWord
      | operand _ isPrimary =>
          cases isPrimary with
          | name here isNamed =>
              obtain rfl := here.unique ⟨word, takes, isHere.symm.trans here.peek_kind⟩
              obtain rfl := isNamed.named_before_colon isColon spaced
              cases further with
              | stop => exact noColon atColon
              | climb continues => cases atColon.symm.trans continues.2.1.peek_kind
          | classWord here isClass =>
              obtain rfl := here.unique ⟨word, takes, isHere.symm.trans here.peek_kind⟩
              cases isClass with
              | classDefinition names => exact noConstant names
              | derivedClass names => exact noConstant names
          | moduleWord here isModule =>
              obtain rfl := here.unique ⟨word, takes, isHere.symm.trans here.peek_kind⟩
              cases isModule with
              | moduleDefinition names => exact noConstant names
          | integer here | float here | constant here | string here | colon here | array here
          | brace here | paren here | block here =>
              have isOther := isHere.symm.trans here.peek_kind
              simp [isOther] at isWord

/-- What starts with a parenthesis and is not joined by an operator ends with the parenthesis that
closes it. -/
theorem Reads.entry_group
    {opener : Token} {rest : List Token} {ending : Ending}
    (reads : Reads (.entry false) ⟨opener :: rest, ending, false⟩ (.single (.group node)) next)
    (isOpener : opener.kind = .mark .leftParen) :
    Reads .group ⟨rest, ending, false⟩ (.group node) next := by
  cases reads with
  | expression _ isNode =>
      cases isNode with
      | binary isLeft further =>
          rcases further.climb_operand rfl with ⟨rfl, rfl⟩
          rcases isLeft.unary_parens isOpener with ⟨behind, opens, isGroup⟩
          obtain rfl := opens.unique (accepts_cons isOpener (by simp))
          exact isGroup

/-- The tokens of a group are an expression, up to the parenthesis that closes it. -/
theorem Reads.areExpression
    {given : List Token} {closer : Token} {ending : Ending}
    (reads : Reads .group ⟨given ++ [closer], ending, false⟩ (.group node) next)
    (isCloser : closer.kind = .mark .rightParen) (isEnd : next.ahead = [])
    (inLine : ∀ token ∈ given, token.kind.isLayout = false) : Token.AreExpression given node := by
  cases reads with
  | @group _ closing _ _ isInner closes =>
      rcases isInner.passed with ⟨passed, isPassed, -⟩
      rcases closes.ahead with ⟨last, isLast, -⟩
      rw [isEnd] at isLast
      rw [isLast] at isPassed
      obtain ⟨rfl, sameLast⟩ := List.append_inj' isPassed rfl
      have isBehind : closing.ahead = [closer] := isLast.trans sameLast.symm
      have isFirm : Token.Firm given := by
        refine firm_of_passes isInner.passes isInner.endsFirm ?_ inLine
        rw [isBehind]
      have isParen := closesLine_of_paren isCloser ⟨[], ending, false⟩ []
      intro other closesOther
      refine isInner.followed _ other isFirm isParen.stops closesOther.stops isBehind rfl ?_
      intro isBlock
      exact absurd isBlock closesOther.noBlock

/-! ## What stands behind an operand -/

theorem Reads.binary_of_operand
    (isOperand : Reads (.unary inCommand) cursor node next)
    (noSign : ∀ operator, next.peek.kind ≠ .operator operator) :
    Reads (.binary inCommand level) cursor node next := by
  refine .binary isOperand (.stop ?_)
  intro operator binding behind continues
  exact absurd continues.2.1.peek_kind (noSign operator)

theorem Reads.entry_of_binary
    (reads : Reads (.binary inCommand Binding.loosest) cursor node next)
    (noColon : next.peek.kind ≠ .mark .colon) :
    Reads (.entry inCommand) cursor (.single node) next :=
  .expression (reads.symbolKey?_eq_none noColon) reads (separator?_eq_none noColon)

theorem Reads.entries_of_binary
    (reads : Reads (.binary inCommand Binding.loosest) cursor node (back.led []))
    (closes : back.ClosesLine) : Reads (.entries inCommand) cursor [.single node] (back.led []) :=
  .lastEntry (reads.entry_of_binary (closes.peek_kind_ne rfl)) (closes.peek_kind_ne rfl)

/-- An operator with a number behind it, at the end of a line. -/
theorem reads_climb_link (closes : back.ClosesLine) (link : Link) (left : Node) :
    Reads (.climb inCommand Binding.loosest left) (back.led link.tokens)
      (.binary link.operator left link.operand.node) (back.led []) := by
  have isRight : Reads (.binary inCommand link.binding.operandLevel)
      (back.led [link.operand.token]) link.operand.node (back.led []) := by
    have isOperand : Reads (.unary inCommand) (back.led [link.operand.token]) link.operand.node
        (back.led []) := link.operand.reads _ _ _ _
    exact isOperand.binary_of_operand fun _ => closes.peek_kind_ne rfl
  have single : (back.led []).chained? link.binding = none := by
    refine chained?_eq_none_iff.2 ?_
    intro _ operator binding next continues
    exact absurd continues closes.not_continues
  have continues : (back.led link.tokens).Continues link.operator link.binding
      (back.led [link.operand.token]) :=
    ⟨rfl, accepts_cons link.isSign (by simp), link.isBinding⟩
  refine .climb continues (Operator.loosest_le_level link.isBinding) isRight single (.stop ?_)
  intro operator binding next continues
  exact absurd continues closes.not_continues

theorem Reads.call_operand
    {name : String} {word opener : Token} {rest : List Token} {list : List Node}
    (areArguments : Reads .arguments (back.led (opener :: rest)) list next)
    (isWord : word.kind = .identifier name) (isOpener : opener.kind = .mark .leftParen)
    (noBlock : next.peek.kind ≠ .mark .blockArrow) :
    Reads (.unary false) (back.led (word :: opener :: rest)) (.call name list none) next := by
  have noMethod : (back.led (opener :: rest)).peek.kind ≠ .mark .arrow := by
    intro isArrow
    cases isOpener.symm.trans isArrow
  exact .operand_of_kind isWord (by simp) (.name (accepts_cons isWord (by simp))
    (.call noMethod areArguments (.withoutBlock (Or.inr noBlock))))

end Phrase

/-! ## Parentheses behind a name -/

namespace Token.AreExpression

open Phrase Cursor

variable {inCommand : Bool} {node : Node} {name : String} {word opener closer : Token}
  {given : List Token}

theorem group
    (isNode : AreExpression given node) (isCloser : closer.kind = .mark .rightParen)
    (back : Cursor) (more : List Token) :
    Reads .group (back.led (given ++ closer :: more)) (.group node) (back.led more) := by
  rw [led_append]
  exact .group (isNode _ (closesLine_of_paren isCloser back more))
    (accepts_cons isCloser (by simp))

/-- Parentheses are an operand, also in an argument list. -/
theorem operand
    (isNode : AreExpression given node) (isOpener : opener.kind = .mark .leftParen)
    (isCloser : closer.kind = .mark .rightParen) (back : Cursor) (more : List Token) :
    Reads (.unary inCommand) (back.led (opener :: (given ++ closer :: more))) (.group node)
      (back.led more) :=
  .operand_of_kind isOpener (by simp)
    (.paren (accepts_cons isOpener (by simp)) (isNode.group isCloser back more))

/-- The search for the closing parenthesis ends where the expression does. -/
theorem continuesBehindParens
    (isNode : AreExpression given node) (isOpener : opener.kind = .mark .leftParen)
    (isCloser : closer.kind = .mark .rightParen) (back : Cursor) (more : List Token) :
    (back.led (opener :: (given ++ closer :: more))).continuesBehindParens =
      (back.led more).ahead.head?.any continuesArgument := by
  have opens : (back.led (opener :: (given ++ closer :: more))).Accepts (.mark .leftParen)
      (back.led (given ++ closer :: more)) := accepts_cons isOpener (by simp)
  rcases (isNode.group isCloser back more).spans with ⟨closing, inner, closes⟩
  rcases behindParens?_of_parens opens inner closes with ⟨passed, isPassed, -, pass⟩
  refine continuesBehindParens_eq ?_
  rw [isPassed]
  exact pass 0 _

/-- Parentheses directly behind a name hold its arguments. -/
theorem call_hugging
    (isNode : AreExpression given node) (isWord : word.kind = .identifier name)
    (isOpener : opener.kind = .mark .leftParen) (hugs : opener.spaced = false)
    (isCloser : closer.kind = .mark .rightParen) (back : Cursor) (more : List Token)
    (noBlock : (back.led more).peek.kind ≠ .mark .blockArrow) :
    Reads (.unary false) (back.led (word :: opener :: (given ++ closer :: more)))
      (.call name [node] none) (back.led more) := by
  have isParen := closesLine_of_paren isCloser back more
  have isArgument : Reads .expression (back.led (given ++ closer :: more)) node
      (back.led (closer :: more)) := by
    rw [led_append]
    exact isNode _ isParen
  have filled : (back.led (given ++ closer :: more)).peek.kind ≠ .mark .rightParen := by
    intro isEmpty
    have starts := isArgument.binary_starts
    rw [isEmpty] at starts
    cases starts
  have whole : ((back.led (opener :: (given ++ closer :: more))).peek.spaced &&
      (back.led (opener :: (given ++ closer :: more))).continuesBehindParens) = false := by
    have isHere : (back.led (opener :: (given ++ closer :: more))).peek = opener := rfl
    rw [isHere, hugs, Bool.false_and]
  have areArguments : Reads .arguments (back.led (opener :: (given ++ closer :: more))) [node]
      (back.led more) :=
    .parenthesized (accepts_cons isOpener (by simp)) whole
      (.enclosed filled (isArgument.entries_of_binary isParen) (accepts_cons isCloser (by simp)))
  exact areArguments.call_operand isWord isOpener noBlock

/-- Parentheses behind a blank, with more of an argument list behind them, are a part of it. -/
theorem call_apart
    {entries : List Entry} {next : Cursor} (isNode : AreExpression given node)
    (isWord : word.kind = .identifier name)
    (isOpener : opener.kind = .mark .leftParen) (spaced : opener.spaced = true)
    (isCloser : closer.kind = .mark .rightParen) (back : Cursor) (more : List Token)
    (goesOn : (back.led more).ahead.head?.any continuesArgument = true)
    (areEntries : Reads (.entries true) (back.led (opener :: (given ++ closer :: more))) entries
      next)
    (noBlock : next.peek.kind ≠ .mark .blockArrow) :
    Reads (.unary false) (back.led (word :: opener :: (given ++ closer :: more)))
      (.call name (Entry.gather entries) none) next := by
  have part : ((back.led (opener :: (given ++ closer :: more))).peek.spaced &&
      (back.led (opener :: (given ++ closer :: more))).continuesBehindParens) = true := by
    have isHere : (back.led (opener :: (given ++ closer :: more))).peek = opener := rfl
    rw [isHere, spaced, isNode.continuesBehindParens isOpener isCloser, goesOn]
    rfl
  have areArguments : Reads .arguments (back.led (opener :: (given ++ closer :: more)))
      (Entry.gather entries) next := .larger isOpener part areEntries
  exact areArguments.call_operand isWord isOpener noBlock

/-! ## Calls with something behind their parentheses -/

theorem parens
    (isNode : AreExpression given node) (isOpener : opener.kind = .mark .leftParen)
    (isCloser : closer.kind = .mark .rightParen) :
    AreExpression (opener :: (given ++ [closer])) (.group node) := by
  intro back closes
  have isOperand : Reads (.unary false) (back.led (opener :: (given ++ [closer]))) (.group node)
      (back.led []) := isNode.operand isOpener isCloser back []
  exact isOperand.binary_of_operand fun _ => closes.peek_kind_ne rfl

theorem spaced_link
    (isNode : AreExpression given node) (isWord : word.kind = .identifier name)
    (isOpener : opener.kind = .mark .leftParen) (spaced : opener.spaced = true)
    (isCloser : closer.kind = .mark .rightParen) (link : Link) :
    AreExpression (word :: opener :: (given ++ closer :: link.tokens))
      (.call name [.binary link.operator (.group node) link.operand.node] none) := by
  intro back closes
  have isArgument : Reads (.binary true Binding.loosest)
      (back.led (opener :: (given ++ closer :: link.tokens)))
      (.binary link.operator (.group node) link.operand.node) (back.led []) :=
    .binary (isNode.operand isOpener isCloser back link.tokens) (reads_climb_link closes link _)
  have goesOn : (back.led link.tokens).ahead.head?.any continuesArgument = true := by
    simp [led, Link.tokens, continuesArgument, link.isSign, link.isBinding]
  have isCall := isNode.call_apart isWord isOpener spaced isCloser back link.tokens goesOn
    (isArgument.entries_of_binary closes) closes.noBlock
  exact isCall.binary_of_operand fun _ => closes.peek_kind_ne rfl

theorem hugging_link
    (isNode : AreExpression given node) (isWord : word.kind = .identifier name)
    (isOpener : opener.kind = .mark .leftParen) (hugs : opener.spaced = false)
    (isCloser : closer.kind = .mark .rightParen) (link : Link) :
    AreExpression (word :: opener :: (given ++ closer :: link.tokens))
      (.binary link.operator (.call name [node] none) link.operand.node) := by
  intro back closes
  have noBlock : (back.led link.tokens).peek.kind ≠ .mark .blockArrow := by
    intro isBlock
    cases link.isSign.symm.trans isBlock
  exact .binary (isNode.call_hugging isWord isOpener hugs isCloser back link.tokens noBlock)
    (reads_climb_link closes link _)

theorem spaced_list
    {comma : Token} (isNode : AreExpression given node) (isWord : word.kind = .identifier name)
    (isOpener : opener.kind = .mark .leftParen) (spaced : opener.spaced = true)
    (isCloser : closer.kind = .mark .rightParen) (isComma : comma.kind = .mark .comma)
    (operand : Operand) :
    AreExpression (word :: opener :: (given ++ [closer, comma, operand.token]))
      (.call name [.group node, operand.node] none) := by
  intro back closes
  have atComma : (back.led [comma, operand.token]).peek.kind = .mark .comma := isComma
  have isFirst : Reads (.binary true Binding.loosest)
      (back.led (opener :: (given ++ [closer, comma, operand.token]))) (.group node)
      (back.led [comma, operand.token]) := by
    refine (isNode.operand isOpener isCloser back _).binary_of_operand ?_
    simp [atComma]
  have isSecond : Reads (.binary true Binding.loosest) (back.led [operand.token]) operand.node
      (back.led []) := by
    have isOperand : Reads (.unary true) (back.led [operand.token]) operand.node (back.led []) :=
      operand.reads _ _ _ _
    exact isOperand.binary_of_operand fun _ => closes.peek_kind_ne rfl
  have areEntries : Reads (.entries true)
      (back.led (opener :: (given ++ [closer, comma, operand.token])))
      [.single (.group node), .single operand.node] (back.led []) :=
    .moreEntries (isFirst.entry_of_binary (by simp [atComma]))
      (accepts_cons isComma (by simp)) (isSecond.entries_of_binary closes)
  have goesOn : (back.led [comma, operand.token]).ahead.head?.any continuesArgument = true := by
    simp [led, continuesArgument, isComma]
  have isCall := isNode.call_apart isWord isOpener spaced isCloser back _ goesOn areEntries
    closes.noBlock
  exact isCall.binary_of_operand fun _ => closes.peek_kind_ne rfl

end Token.AreExpression

/-! ## Lists of tokens -/

/-- In front of this tail the tokens are a program that is one expression, and so they are between
parentheses. -/
structure Token.Expresses (tokens tail : List Token) (node : Node) : Prop where
  inLine : ∀ token ∈ tokens, token.kind.isLayout = false
  alone : parseTokens (tokens ++ tail) = .ok [node]
  grouped : ∀ opener closer, opener.kind = .mark .leftParen → closer.kind = .mark .rightParen →
    parseTokens (opener :: (tokens ++ closer :: tail)) = .ok [.group node]

section Parsing

open Phrase Cursor

variable {tokens given tail : List Token} {node : Node} {opener closer : Token}

/-- The tokens stand in a line, and none of them is passed over. -/
def Token.ArePlain (tokens : List Token) : Prop :=
  ∀ token ∈ tokens, token.kind.isTrivia = false ∧ token.kind.isLayout = false

theorem Operand.arePlain (operand : Operand) : Token.ArePlain [operand.token] := by
  refine List.forall_mem_singleton.2 ?_
  rcases operand.token_kind_cases with ⟨value, isKind, -⟩ | ⟨value, isKind, -⟩
  · rw [isKind]
    exact ⟨rfl, rfl⟩
  · rw [isKind]
    exact ⟨rfl, rfl⟩

namespace Token.ArePlain

variable {front more : List Token}

theorem cons {token : Token} {kind : Kind} (isKind : token.kind = kind)
    (means : kind.isTrivia = false) (inLine : kind.isLayout = false)
    (others : ArePlain more) : ArePlain (token :: more) := by
  subst isKind
  exact List.forall_mem_cons.2 ⟨⟨means, inLine⟩, others⟩

theorem significant (plain : ArePlain tokens) : Token.significant tokens = tokens :=
  Token.significant_eq_self fun token member => (plain token member).1

theorem inLine_around
    (isFront : ArePlain front) (areMore : ArePlain more)
    (inLine : ∀ token ∈ given, token.kind.isLayout = false) :
    ∀ token ∈ front ++ (given ++ more), token.kind.isLayout = false := by
  refine List.forall_mem_append.2 ⟨?_, List.forall_mem_append.2 ⟨inLine, ?_⟩⟩
  · exact fun token member => (isFront token member).2
  · exact fun token member => (areMore token member).2

/-- Where the input ends behind a line, all of the line that is not passed over lies ahead. -/
theorem ofTokens_around
    (isFront : ArePlain front) (areMore : ArePlain more)
    (inLine : ∀ token ∈ given, token.kind.isLayout = false) (ends : Token.meaningful tail = []) :
    Cursor.ofTokens (front ++ (given ++ more) ++ tail) =
      ⟨front ++ (Token.significant given ++ more),
        (Cursor.ofTokens (front ++ (given ++ more) ++ tail)).ending, false⟩ := by
  have noEnd : ∀ token ∈ front ++ (given ++ more), token.kind ≠ .endOfInput := by
    intro token member
    exact (Kind.ne_of_isLayout rfl (isFront.inLine_around areMore inLine token member)).symm
  have isAhead : (Cursor.ofTokens (front ++ (given ++ more) ++ tail)).ahead =
      front ++ (Token.significant given ++ more) := by
    rw [ahead_ofTokens, Token.meaningful_append noEnd, ends, List.append_nil,
      Token.significant_append, Token.significant_append, isFront.significant, areMore.significant]
  rw [← isAhead]
  rfl

end Token.ArePlain

theorem Token.inLine_significant (inLine : ∀ token ∈ tokens, token.kind.isLayout = false) :
    ∀ token ∈ Token.significant tokens, token.kind.isLayout = false := by
  intro token member
  exact inLine token (List.mem_filter.1 member).1

/-- A line that is a program wherever the input ends behind it. -/
theorem parseTokens_of_line
    {front more : List Token} {nodes : List Node} (isFront : Token.ArePlain front)
    (areMore : Token.ArePlain more) (inLine : ∀ token ∈ given, token.kind.isLayout = false)
    (ends : Token.meaningful tail = [])
    (reads : ∀ back : Cursor, back.ahead = [] →
      Reads (.statements false) (back.led (front ++ (Token.significant given ++ more))) nodes
        (back.led [])) :
    parseTokens (front ++ (given ++ more) ++ tail) = .ok nodes := by
  let tokens := front ++ (given ++ more) ++ tail
  let back : Cursor := ⟨[], (Cursor.ofTokens tokens).ending, false⟩
  have isList : Cursor.ofTokens tokens = back.led (front ++ (Token.significant given ++ more)) := by
    rw [led, List.append_nil]
    exact isFront.ofTokens_around areMore inLine ends
  have isProgram := reads back rfl
  rw [← isList] at isProgram
  exact parseTokens_eq_ok_iff.2 ⟨_, isProgram⟩

/-- A program in one line that is an expression. -/
theorem Token.AreExpression.parse
    {front more : List Token}
    (isNode : Token.AreExpression (front ++ (Token.significant given ++ more)) node)
    (isFront : Token.ArePlain front) (areMore : Token.ArePlain more)
    (inLine : ∀ token ∈ given, token.kind.isLayout = false) (ends : Token.meaningful tail = []) :
    parseTokens (front ++ (given ++ more) ++ tail) = .ok [node] := by
  apply parseTokens_of_line isFront areMore inLine ends
  intro back isEnd
  have closes : back.ClosesLine := closesLine_of_end isEnd
  have reads := isNode back closes
  apply reads_program_of_entry (reads.entry_of_binary (closes.peek_kind_ne rfl)) isEnd
  intro isNewline
  have starts := reads.binary_starts
  rw [isNewline] at starts
  cases starts

theorem Token.AreExpression.expresses
    {front more : List Token}
    (isNode : Token.AreExpression (front ++ (Token.significant given ++ more)) node)
    (isFront : Token.ArePlain front) (areMore : Token.ArePlain more)
    (inLine : ∀ token ∈ given, token.kind.isLayout = false) (ends : Token.meaningful tail = []) :
    Token.Expresses (front ++ (given ++ more)) tail node := by
  refine ⟨isFront.inLine_around areMore inLine, isNode.parse isFront areMore inLine ends, ?_⟩
  intro opener closer isOpener isCloser
  have isGroup := isNode.parens isOpener isCloser
  have isFrontGroup : Token.ArePlain (opener :: front) := isFront.cons isOpener rfl rfl
  have areMoreGroup : Token.ArePlain (more ++ [closer]) := by
    refine List.forall_mem_append.2 ⟨areMore, List.forall_mem_singleton.2 ?_⟩
    rw [isCloser]
    exact ⟨rfl, rfl⟩
  have whole (inner : List Token) : opener :: (front ++ (inner ++ more) ++ [closer]) =
      (opener :: front) ++ (inner ++ (more ++ [closer])) := by simp
  rw [whole] at isGroup
  have parsed := isGroup.parse isFrontGroup areMoreGroup inLine ends
  rw [← whole] at parsed
  simpa using parsed

/-- The tokens between two parentheses are an expression if the whole is read as a group. -/
theorem areExpression_of_group
    (isOpener : opener.kind = .mark .leftParen) (isCloser : closer.kind = .mark .rightParen)
    (inLine : ∀ token ∈ given, token.kind.isLayout = false) (ends : Token.meaningful tail = [])
    (parsed : parseTokens (opener :: (given ++ closer :: tail)) = .ok [.group node]) :
    Token.AreExpression (Token.significant given) node := by
  have none : Token.ArePlain [] := List.forall_mem_nil _
  have isFront : Token.ArePlain [opener] := none.cons isOpener rfl rfl
  have isCloserPlain : Token.ArePlain [closer] := none.cons isCloser rfl rfl
  have whole : opener :: (given ++ closer :: tail) = [opener] ++ (given ++ [closer]) ++ tail := by
    simp
  rw [whole] at parsed
  rcases parseTokens_eq_ok_iff.1 parsed with ⟨last, reads⟩
  rw [isFront.ofTokens_around isCloserPlain inLine ends] at reads
  have inLineGiven := Token.inLine_significant inLine
  have inLineAhead := isFront.inLine_around isCloserPlain inLineGiven
  rcases reads.lone_line (List.cons_ne_nil _ _) inLineAhead rfl with
    ⟨first, middle, other, next, isOther, isEntry, isNode, isEnd⟩
  obtain rfl := List.singleton_inj.1 isOther
  cases isNode with
  | single => exact (isEntry.entry_group isOpener).areExpression isCloser isEnd inLineGiven

/-- Behind the parentheses of a call stands an operator or a comma, and a number.  With a blank in
front of the parentheses these make an argument list with the number; without one they hold the
arguments, and the operator takes the call.  The calls can stand in parentheses in turn, so that the
same holds of the ones around them, to any depth. -/
theorem parseTokens_spaced_parens
    {name : String} {word apart hugging comma : Token} (link : Link) (operand : Operand)
    (isWord : word.kind = .identifier name)
    (isApart : apart.kind = .mark .leftParen) (spaced : apart.spaced = true)
    (isHugging : hugging.kind = .mark .leftParen) (hugs : hugging.spaced = false)
    (isOpener : opener.kind = .mark .leftParen) (isCloser : closer.kind = .mark .rightParen)
    (isComma : comma.kind = .mark .comma)
    (inLine : ∀ token ∈ given, token.kind.isLayout = false) (ends : Token.meaningful tail = [])
    (parsed : parseTokens (opener :: (given ++ closer :: tail)) = .ok [.group node]) :
    Token.Expresses (word :: apart :: (given ++ closer :: link.tokens)) tail
      (.call name [.binary link.operator (.group node) link.operand.node] none) ∧
    Token.Expresses (word :: hugging :: (given ++ closer :: link.tokens)) tail
      (.binary link.operator (.call name [node] none) link.operand.node) ∧
    Token.Expresses (word :: apart :: (given ++ [closer, comma, operand.token])) tail
      (.call name [.group node, operand.node] none) := by
  have isNode := areExpression_of_group isOpener isCloser inLine ends parsed
  have isFront {paren : Token} (isParen : paren.kind = .mark .leftParen) :
      Token.ArePlain [word, paren] :=
    .cons isWord rfl rfl (.cons isParen rfl rfl (List.forall_mem_nil _))
  have isLink : Token.ArePlain (closer :: link.tokens) :=
    .cons isCloser rfl rfl (.cons link.isSign rfl rfl link.operand.arePlain)
  have isList : Token.ArePlain [closer, comma, operand.token] :=
    .cons isCloser rfl rfl (.cons isComma rfl rfl operand.arePlain)
  refine ⟨?_, ?_, ?_⟩
  · exact (isNode.spaced_link isWord isApart spaced isCloser link).expresses
      (isFront isApart) isLink inLine ends
  · exact (isNode.hugging_link isWord isHugging hugs isCloser link).expresses
      (isFront isHugging) isLink inLine ends
  · exact (isNode.spaced_list isWord isApart spaced isCloser isComma operand).expresses
      (isFront isApart) isList inLine ends

/-- A call with parentheses behind a blank, in the parentheses of another one. -/
theorem parseTokens_spaced_parens_nested :
    ∃ tokens : List Token,
      tokens.map (fun token => (token.kind, token.spaced)) =
        [(.identifier "f", false), (.mark .leftParen, true), (.identifier "g", false),
          (.mark .leftParen, true), (.integer 1, false), (.mark .rightParen, false),
          (.operator .plus, true), (.integer 2, true), (.mark .rightParen, false),
          (.operator .star, true), (.integer 3, true)] ∧
      parseTokens tokens =
        .ok [.call "f" [.binary .star
          (.group (.call "g" [.binary .plus (.group (.integer 1)) (.integer 2)] none))
          (.integer 3)] none] := by
  let token (kind : Kind) (spaced : Bool) : Token := ⟨kind, "", ⟨1, 1, none⟩, spaced⟩
  let apart := token (.mark .leftParen) true
  let hugging := token (.mark .leftParen) false
  let closer := token (.mark .rightParen) false
  let comma := token (.mark .comma) false
  let two : Operand := ⟨token (.integer 2) true, .integer 2, rfl⟩
  let three : Operand := ⟨token (.integer 3) true, .integer 3, rfl⟩
  let plus : Link := ⟨token (.operator .plus) true, .plus, ⟨9, .left⟩, two, rfl, rfl⟩
  let star : Link := ⟨token (.operator .star) true, .star, ⟨10, .left⟩, three, rfl, rfl⟩
  have isOuter : (token (.identifier "f") false).kind = .identifier "f" := rfl
  have isInner : (token (.identifier "g") false).kind = .identifier "g" := rfl
  have isApart : apart.kind = .mark .leftParen := rfl
  have isHugging : hugging.kind = .mark .leftParen := rfl
  have isCloser : closer.kind = .mark .rightParen := rfl
  have isComma : comma.kind = .mark .comma := rfl
  have parsed : parseTokens (hugging :: ([token (.integer 1) false] ++ [closer])) =
      .ok [.group (.integer 1)] := by
    with_unfolding_all rfl
  have inner := parseTokens_spaced_parens plus two isInner isApart rfl isHugging rfl isHugging
    isCloser isComma (by decide) rfl parsed
  have parsedInner := inner.1.grouped hugging closer isHugging isCloser
  have outer := parseTokens_spaced_parens star three isOuter isApart rfl isHugging rfl isHugging
    isCloser isComma inner.1.inLine rfl parsedInner
  exact ⟨_, rfl, outer.1.alone⟩

end Parsing

end ScriptFront
