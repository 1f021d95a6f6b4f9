import ScriptFront.Operator.Binding
import ScriptFront.Token.Basic

/-!
A place in a list of tokens that is being read. Only the tokens before the first end of input lie
ahead of it; of that end its place and its spacing are kept. Taking a token leaves a shorter list.
-/

namespace ScriptFront

/-- Where the tokens end, and whether a blank stands before that end. -/
structure Ending where
  location : Location
  spaced : Bool
deriving DecidableEq, Repr

namespace Ending

def token (ending : Ending) : Token := ⟨.endOfInput, "", ending.location, ending.spaced⟩

end Ending

structure Cursor where
  /-- The tokens up to the end of input. -/
  ahead : List Token
  ending : Ending
  /-- The last token taken closed an indented body. Nothing behind it continues the expression. -/
  afterBody : Bool
deriving DecidableEq, Repr

namespace Cursor

/-- The end of tokens none of which ends the input: the place of the last one. -/
def missingEnding (tokens : List Token) : Ending :=
  ⟨(tokens.getLast?.map Token.location).getD ⟨1, 1, none⟩, false⟩

/-- The cursor before the first of the given tokens; whitespace and comments are passed over. -/
def ofTokens (tokens : List Token) : Cursor :=
  let significant := Token.significant tokens
  let ending :=
    match significant.find? (·.kind = .endOfInput) with
    | some token => ⟨token.location, token.spaced⟩
    | none => missingEnding significant
  ⟨significant.takeWhile (·.kind ≠ .endOfInput), ending, false⟩

/-- The number of tokens ahead. -/
def size (cursor : Cursor) : Nat := cursor.ahead.length

def atEnd (cursor : Cursor) : Bool := cursor.ahead.isEmpty

/-- The token some places ahead; from the end on, the end of input. -/
def peekAt (cursor : Cursor) (distance : Nat) : Token :=
  cursor.ahead.getD distance cursor.ending.token

/-- The next token. -/
def peek (cursor : Cursor) : Token := cursor.peekAt 0

/-- Whether the next token is of a kind. -/
def isAt (cursor : Cursor) (kind : Kind) : Bool := cursor.peek.kind = kind

/-! ## Taking tokens -/

/-- The cursor behind a token, given the tokens that follow it. -/
def past (cursor : Cursor) (token : Token) (rest : List Token) : Cursor :=
  ⟨rest, cursor.ending, token.kind = .dedent⟩

/-- A place further on. -/
structure Advance (cursor : Cursor) where
  next : Cursor
  shorter : next.size < cursor.size

namespace Advance

variable {cursor : Cursor}

theorem le (advance : Advance cursor) : advance.next.size ≤ cursor.size :=
  Nat.le_of_lt advance.shorter

theorem le_succ (advance : Advance cursor) : advance.next.size ≤ cursor.size + 1 :=
  Nat.le_succ_of_le advance.le

theorem lt_succ (advance : Advance cursor) : advance.next.size < cursor.size + 1 :=
  Nat.lt_succ_of_le advance.le

end Advance

/-- A token and the place behind it. -/
structure Taken (cursor : Cursor) extends Advance cursor where
  token : Token

/-- The next token and the place behind it. -/
def take? (cursor : Cursor) : Option (Taken cursor) :=
  match ahead : cursor.ahead with
  | [] => none
  | token :: rest => some ⟨⟨cursor.past token rest, by simp [size, past, ahead]⟩, token⟩

/-- The place behind the next token if that is of a kind. -/
def accept? (cursor : Cursor) (kind : Kind) : Option (Advance cursor) :=
  match cursor.take? with
  | none => none
  | some taken => if taken.token.kind = kind then some taken.toAdvance else none

/-- The place behind the newlines ahead. -/
def skipNewlines (cursor : Cursor) : Cursor :=
  match cursor.accept? .newline with
  | none => cursor
  | some newline =>
    have := newline.shorter
    newline.next.skipNewlines
termination_by cursor.size

theorem skipNewlines_of_none {cursor : Cursor} (absent : cursor.accept? .newline = none) :
    cursor.skipNewlines = cursor := by
  rw [skipNewlines, absent]

theorem skipNewlines_of_some {cursor : Cursor} {newline : Advance cursor}
    (present : cursor.accept? .newline = some newline) :
    cursor.skipNewlines = newline.next.skipNewlines := by
  rw [skipNewlines, present]

theorem size_skipNewlines_le (cursor : Cursor) : cursor.skipNewlines.size ≤ cursor.size := by
  induction cursor using skipNewlines.induct with
  | case1 cursor absent => exact Nat.le_of_eq (congrArg size (skipNewlines_of_none absent))
  | case2 cursor newline present shorter inductionHypothesis =>
    rw [skipNewlines_of_some present]
    exact Nat.le_trans inductionHypothesis (Nat.le_of_lt shorter)

/-- The place behind a dedent, if one is ahead. -/
def skipDedent (cursor : Cursor) : Cursor :=
  match cursor.accept? .dedent with
  | none => cursor
  | some dedent => dedent.next

theorem size_skipDedent_le (cursor : Cursor) : cursor.skipDedent.size ≤ cursor.size := by
  unfold skipDedent
  split
  · exact Nat.le_refl _
  · rename_i dedent _
    exact dedent.le

/-- The place behind the newlines and the indent that start an indented body, if one starts here. -/
def bodyStart? (cursor : Cursor) : Option (Advance cursor) :=
  match cursor.accept? .newline with
  | none => none
  | some newline =>
    match newline.next.skipNewlines.accept? .indent with
    | none => none
    | some indent =>
      some ⟨indent.next, Nat.lt_of_lt_of_le indent.shorter <|
        Nat.le_trans newline.next.size_skipNewlines_le newline.le⟩

/-! ## Looking ahead -/

/-- An operator that stands between operands, with its binding and the place behind it. -/
structure Binary (cursor : Cursor) extends Advance cursor where
  operator : Operator
  binding : Binding

/-- The operator ahead that continues an expression; none does behind an indented body. -/
def binary? (cursor : Cursor) : Option (Binary cursor) :=
  if cursor.afterBody then none
  else
    match cursor.take? with
    | none => none
    | some taken =>
      match taken.token.kind with
      | .operator operator => operator.binding?.map (⟨taken.toAdvance, operator, ·⟩)
      | _ => none

/-- An operator that stands before its operand, with the place behind it. -/
structure Unary (cursor : Cursor) extends Advance cursor where
  operator : Operator

/-- The operator ahead that can start an expression. -/
def unary? (cursor : Cursor) : Option (Unary cursor) :=
  match cursor.take? with
  | none => none
  | some taken =>
    match taken.token.kind with
    | .operator operator =>
      if operator.isUnary then some ⟨taken.toAdvance, operator⟩ else none
    | _ => none

/-- A key in front of its colon, with the place behind that. -/
structure SymbolKey (cursor : Cursor) extends Advance cursor where
  name : String

/-- A word with a colon directly behind it and a blank behind that names the key of a pair. -/
def symbolKey? (cursor : Cursor) : Option (SymbolKey cursor) :=
  match cursor.take? with
  | none => none
  | some word =>
    match word.token.kind with
    | .identifier _ | .keyword _ =>
      match word.next.accept? (.mark .colon) with
      | none => none
      | some colon =>
        if colon.next.peek.spaced then
          some ⟨⟨colon.next, Nat.lt_trans colon.shorter word.shorter⟩, word.token.lexeme⟩
        else none
    | _ => none

/-- The place behind a colon that makes the expression before it the key of a pair: one with a blank
behind it, and not behind an indented body. -/
def separator? (cursor : Cursor) : Option (Advance cursor) :=
  if cursor.afterBody then none
  else
    match cursor.accept? (.mark .colon) with
    | none => none
    | some colon => if colon.next.peek.spaced then some colon else none

/-- The tokens behind the parenthesis that closes the innermost of `depth` open ones, if any. -/
def behindParens? (depth : Nat) : List Token → Option (List Token)
  | [] => none
  | token :: rest =>
    if token.kind = .mark .leftParen then behindParens? (depth + 1) rest
    else if token.kind = .mark .rightParen then
      if depth ≤ 1 then some rest else behindParens? (depth - 1) rest
    else behindParens? depth rest

/-- Whether a token continues an argument that starts with parentheses. -/
def continuesArgument (token : Token) : Bool :=
  match token.kind with
  | .mark .comma => true
  | .operator operator => operator.binding?.isSome
  | _ => false

/-- Whether the parentheses that open here are only the start of a larger argument, as in
`puts (1 + 2) * 3`. -/
def continuesBehindParens (cursor : Cursor) : Bool :=
  match behindParens? 0 cursor.ahead with
  | some (token :: _) => continuesArgument token
  | _ => false

/-- Whether a token directly behind a colon makes a symbol that can be an argument. -/
def namesSymbol (token : Token) : Bool :=
  match token.kind with
  | .fragment _ => true
  | kind => kind.symbolName?.isSome

/-- Whether a token belongs to the layout, not to a line. -/
def isLayout (token : Token) : Bool :=
  match token.kind with
  | .newline | .indent | .dedent | .endOfInput => true
  | _ => false

/-- Whether an argument without parentheses starts here: behind a blank, with a token that can start
one. A unary operator must stand directly before its operand, so that `foo -1` passes an argument
and `foo - 1` subtracts. -/
def atArgument (cursor : Cursor) : Bool :=
  let token := cursor.peek
  let next := cursor.peekAt 1
  token.spaced &&
    match token.kind with
    | .integer _ | .float _ | .fragment _ | .identifier _ | .constant _ => true
    | .mark .leftBracket | .mark .leftBrace | .mark .leftParen => true
    | .mark .colon => !next.spaced && namesSymbol next
    | .operator operator => operator.isUnary && !next.spaced && !isLayout next
    | _ => false

end Cursor

end ScriptFront
