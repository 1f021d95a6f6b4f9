import ScriptFront.Grammar.Entry
import ScriptFront.Grammar.Outcome
import ScriptFront.Grammar.StringParts

/-!
The phrases of the language. Each is read by one function from a place in the tokens; where a token
does not fit, reading stops there. Operators are read by their binding levels. An argument list
without parentheses leaves a block behind it to the outermost call, so expressions are read with the
knowledge whether they stand in such a list.
-/

namespace ScriptFront

/-- The name of a parameter that was read together with the equals sign behind it. -/
def bareName? (name : String) : Option String :=
  if name.toList.getLast? = some '=' then some (String.ofList name.toList.dropLast) else none

namespace Cursor

variable {α : Type}

/-- A constant. -/
def constant (cursor : Cursor) : Outcome cursor.size Node :=
  match cursor.take? with
  | none => cursor.refuse [.constant]
  | some taken =>
    match taken.token.kind with
    | .constant name => .done (.constant name) taken.next taken.shorter
    | _ => cursor.refuse [.constant]

/-- The class that a class is derived from, if one is named. -/
def superclass (cursor : Cursor) : Outcome (cursor.size + 1) (Option Node) :=
  match cursor.accept? (.operator .less) with
  | none => cursor.yield none
  | some sign =>
    (sign.next.constant.map some).widen sign.le_succ

/-- The name of a parameter that takes all arguments left, behind its star. -/
def splatName (cursor : Cursor) : Outcome (cursor.size + 1) (Parameter Node) :=
  match cursor.take? with
  | none => cursor.refuse [.parameterName]
  | some taken =>
    match taken.token.kind with
    | .identifier name =>
      .done (.splat name) taken.next taken.lt_succ
    | _ => cursor.refuse [.parameterName]

/-- The end of a statement: a newline, which is taken, or the end of a body or of the input; nothing
need follow an indented body. -/
def statementEnd (cursor : Cursor) (value : α) : Outcome (cursor.size + 1) α :=
  match cursor.accept? .newline with
  | some newline => .done value newline.next newline.lt_succ
  | none =>
    if cursor.isAt .dedent || cursor.atEnd || cursor.afterBody then cursor.yield value
    else cursor.refuse [.newline, .dedent, .endOfInput]

/-- Whether no statement is read here. -/
def endsStatements (cursor : Cursor) (inBody : Bool) : Bool :=
  cursor.atEnd || inBody && cursor.isAt .dedent

/-- The operator ahead if it may not follow an operator with the given binding. -/
def chained? (cursor : Cursor) (binding : Binding) : Option Operator :=
  match binding.associativity, cursor.binary? with
  | .none, some again => if again.binding.level = binding.level then some again.operator else none
  | _, _ => none

end Cursor

namespace Phrase

mutual

/-- Statements up to the end of the input or, in a body, up to its dedent. -/
def statements (inBody : Bool) (cursor : Cursor) : Outcome (cursor.size + 1) (List Node) :=
  have := cursor.size_skipNewlines_le
  if cursor.skipNewlines.endsStatements inBody then
    .done [] cursor.skipNewlines (Nat.lt_succ_of_le cursor.size_skipNewlines_le)
  else
    ((statement cursor.skipNewlines).andThen fun first next _ =>
      (statements inBody next).map (first :: ·)).widen
        (Nat.le_succ_of_le cursor.size_skipNewlines_le)
termination_by 8 * cursor.size + 7

/-- A statement: an expression or a bare list of pairs, up to its end. -/
def statement (cursor : Cursor) : Outcome cursor.size Node :=
  (entry false cursor).andThen fun first next _ =>
    (bareHash first next).andThen fun node next _ => next.statementEnd node
termination_by 8 * cursor.size + 6

/-- What a statement that starts with an entry says: a pair starts a hash without braces. -/
def bareHash (first : Entry) (cursor : Cursor) : Outcome (cursor.size + 1) Node :=
  match first with
  | .single node => cursor.yield node
  | .pair pair => (morePairs pair cursor).map .hash
termination_by 8 * cursor.size + 1

/-- The statements of an indented body; none if no body starts here. -/
def body (cursor : Cursor) : Outcome (cursor.size + 1) (List Node) :=
  match cursor.bodyStart? with
  | none => cursor.yield []
  | some start =>
    have := start.shorter
    ((statements true start.next).andThen fun nodes next _ =>
      if nodes.isEmpty then next.refuse [.statement]
      else
        .done nodes next.skipDedent (Nat.lt_succ_of_le next.size_skipDedent_le)).widen
          start.lt_succ
termination_by 8 * cursor.size

/-- An expression, or a key and a value with a colon between them. -/
def entry (inCommand : Bool) (cursor : Cursor) : Outcome cursor.size Entry :=
  match cursor.symbolKey? with
  | some key =>
    have := key.shorter
    ((binary inCommand Binding.loosest key.next).map fun value =>
      .pair ⟨.symbol (.text key.name), value⟩).widen key.le
  | none =>
    (binary inCommand Binding.loosest cursor).andThen fun node next _ =>
      match next.separator? with
      | none => next.yield (.single node)
      | some colon =>
        have := colon.shorter
        ((binary inCommand Binding.loosest colon.next).map fun value =>
          .pair ⟨node, value⟩).widen colon.le_succ
termination_by 8 * cursor.size + 4

/-- Entries with commas between them. -/
def entries (inCommand : Bool) (cursor : Cursor) : Outcome cursor.size (List Entry) :=
  (entry inCommand cursor).andThen fun first next _ =>
    match next.accept? (.mark .comma) with
    | none => next.yield [first]
    | some comma =>
      have := comma.shorter
      ((entries inCommand comma.next).map (first :: ·)).widen comma.le_succ
termination_by 8 * cursor.size + 5

/-- Pairs with commas between them. -/
def pairs (cursor : Cursor) : Outcome cursor.size (List (Pair Node)) :=
  (entry false cursor).andThen fun first next _ =>
    match first with
    | .single _ => next.refuse [.pairValue]
    | .pair pair => morePairs pair next
termination_by 8 * cursor.size + 5

/-- A pair with those that follow it behind commas. -/
def morePairs (first : Pair Node) (cursor : Cursor) :
    Outcome (cursor.size + 1) (List (Pair Node)) :=
  match cursor.accept? (.mark .comma) with
  | none => cursor.yield [first]
  | some comma =>
    have := comma.shorter
    ((pairs comma.next).map (first :: ·)).widen comma.le_succ
termination_by 8 * cursor.size

/-- The expressions up to a closing mark; there may be none. -/
def enclosed (closer : Mark) (cursor : Cursor) : Outcome cursor.size (List Node) :=
  match cursor.accept? (.mark closer) with
  | some closed => .done [] closed.next closed.shorter
  | none =>
    (entries false cursor).andThen fun list next _ =>
      (next.expect (.mark closer) [.mark .comma, .mark closer] (Entry.gather list)).relax
termination_by 8 * cursor.size + 6

/-- The pairs of a hash up to its closing brace. -/
def hash (cursor : Cursor) : Outcome cursor.size Node :=
  match cursor.accept? (.mark .rightBrace) with
  | some closed => .done (.hash []) closed.next closed.shorter
  | none =>
    (pairs cursor).andThen fun list next _ =>
      (next.expect (.mark .rightBrace) [.mark .comma, .mark .rightBrace] (.hash list)).relax
termination_by 8 * cursor.size + 6

/-- An expression whose operators bind at the given level or tighter. -/
def binary (inCommand : Bool) (level : Nat) (cursor : Cursor) : Outcome cursor.size Node :=
  (unary inCommand cursor).andThen fun left next _ => climb inCommand level left next
termination_by 8 * cursor.size + 3

/-- A left operand with all operators behind it that bind at the given level or tighter. -/
def climb (inCommand : Bool) (level : Nat) (left : Node) (cursor : Cursor) :
    Outcome (cursor.size + 1) Node :=
  match cursor.binary? with
  | none => cursor.yield left
  | some sign =>
    if sign.binding.level < level then cursor.yield left
    else
      have := sign.shorter
      ((binary inCommand sign.binding.operandLevel sign.next).andThen fun right next _ =>
        match next.chained? sign.binding with
        | some again => .stuck (.chained again) next
        | none => climb inCommand level (.binary sign.operator left right) next).widen sign.le_succ
termination_by 8 * cursor.size

/-- An operand with the unary operators before it. -/
def unary (inCommand : Bool) (cursor : Cursor) : Outcome cursor.size Node :=
  match cursor.unary? with
  | none => primary inCommand cursor
  | some sign =>
    have := sign.shorter
    ((unary inCommand sign.next).map (.unary sign.operator)).widen sign.le
termination_by 8 * cursor.size + 2

/-- An expression that is not made by operators. -/
def primary (inCommand : Bool) (cursor : Cursor) : Outcome cursor.size Node :=
  match cursor.take? with
  | none => cursor.refuse [.expression]
  | some first =>
    have := first.shorter
    match first.token.kind with
    | .integer value => .done (.integer value) first.next first.shorter
    | .float value => .done (.float value) first.next first.shorter
    | .constant name => .done (.constant name) first.next first.shorter
    | .fragment text => ((stringParts text first.next).map StringParts.node).widen first.shorter
    | .identifier name => (named inCommand name first.next).widen first.shorter
    | .keyword .classWord => (classDefinition first.next).widen first.le
    | .keyword .moduleWord => (moduleDefinition first.next).widen first.le
    | .mark .colon => (symbol first.next).widen first.shorter
    | .mark .leftBracket => ((enclosed .rightBracket first.next).map .array).widen first.le
    | .mark .leftBrace => (hash first.next).widen first.le
    | .mark .leftParen => (group first.next).widen first.le
    | .mark .blockArrow => ((definition first.next).map .block).widen first.shorter
    | _ => cursor.refuse [.expression]
termination_by 8 * cursor.size + 1

/-- The rest of a string behind a piece of it: pieces that follow without a blank join it, and
inserted expressions part it. -/
def stringParts (text : String) (cursor : Cursor) : Outcome (cursor.size + 1) StringParts :=
  match cursor.take? with
  | none => cursor.yield (.last text)
  | some taken =>
    have := taken.shorter
    match taken.token.kind, taken.token.spaced with
    | .fragment more, false => (stringParts (text ++ more) taken.next).widen taken.lt_succ
    | .interpolationStart, _ =>
      ((binary false Binding.loosest taken.next).andThen fun inner next _ =>
        ((next.expect .interpolationEnd [.mark .rightBrace] ()).andThen fun _ next _ =>
          (stringParts "" next).map (.insertion text inner)).relax).widen taken.le_succ
    | _, _ => cursor.yield (.last text)
termination_by 8 * cursor.size

/-- The name of a symbol, directly behind its colon. -/
def symbol (cursor : Cursor) : Outcome (cursor.size + 1) Node :=
  if cursor.peek.spaced then cursor.refuse [.symbolName]
  else
    match cursor.take? with
    | none => cursor.refuse [.identifier, .constant, .string]
    | some taken =>
      have := taken.shorter
      match taken.token.kind with
      | .fragment text =>
        ((stringParts text taken.next).map fun parts => .symbol parts.node).widen taken.lt_succ
      | kind =>
        match kind.symbolName? with
        | some name => .done (.symbol (.text name)) taken.next taken.lt_succ
        | none => cursor.refuse [.identifier, .constant, .string]
termination_by 8 * cursor.size

/-- An expression up to its closing parenthesis. -/
def group (cursor : Cursor) : Outcome cursor.size Node :=
  (binary false Binding.loosest cursor).andThen fun inner next _ =>
    (next.expect (.mark .rightParen) [.mark .rightParen] (.group inner)).relax
termination_by 8 * cursor.size + 4

def classDefinition (cursor : Cursor) : Outcome cursor.size Node :=
  cursor.constant.andThen fun name next _ =>
    next.superclass.andThen fun superclass next _ =>
      (body next).map (.classDefinition name superclass)
termination_by 8 * cursor.size

def moduleDefinition (cursor : Cursor) : Outcome cursor.size Node :=
  cursor.constant.andThen fun name next _ => (body next).map (.moduleDefinition name)
termination_by 8 * cursor.size

/-- The parameters and the body of a method or a block. -/
def definition (cursor : Cursor) : Outcome (cursor.size + 1) (Block Node) :=
  (parameters cursor).andThen fun list next _ => (body next).map (⟨list, ·⟩)
termination_by 8 * cursor.size + 1

/-- Parameters in parentheses; none if no parenthesis opens here. -/
def parameters (cursor : Cursor) : Outcome (cursor.size + 1) (List (Parameter Node)) :=
  match cursor.accept? (.mark .leftParen) with
  | none => cursor.yield []
  | some opened =>
    have := opened.shorter
    match opened.next.accept? (.mark .rightParen) with
    | some closed => .done [] closed.next (Nat.lt_trans closed.shorter opened.lt_succ)
    | none =>
      ((parameterList opened.next).andThen fun list next _ =>
        (next.expect (.mark .rightParen) [.mark .comma, .mark .rightParen] list).relax).widen
          opened.le_succ
termination_by 8 * cursor.size

/-- Parameters with commas between them. -/
def parameterList (cursor : Cursor) : Outcome cursor.size (List (Parameter Node)) :=
  (parameter cursor).andThen fun first next _ =>
    match next.accept? (.mark .comma) with
    | none => next.yield [first]
    | some comma =>
      have := comma.shorter
      ((parameterList comma.next).map (first :: ·)).widen comma.le_succ
termination_by 8 * cursor.size + 1

def parameter (cursor : Cursor) : Outcome cursor.size (Parameter Node) :=
  match cursor.take? with
  | none => cursor.refuse [.parameter]
  | some taken =>
    have := taken.shorter
    match taken.token.kind with
    | .operator .star => taken.next.splatName.widen taken.shorter
    | .identifier name => (parameterValue name taken.next).widen taken.shorter
    | _ => cursor.refuse [.parameter]
termination_by 8 * cursor.size

/-- What follows the name of a parameter: a value behind an equals sign, which the name may have
taken in, a value behind a colon, or nothing. -/
def parameterValue (name : String) (cursor : Cursor) :
    Outcome (cursor.size + 1) (Parameter Node) :=
  match bareName? name with
  | some bare => ((binary false Binding.loosest cursor).map (.optional bare)).relax
  | none =>
    match cursor.accept? (.operator .assign) with
    | some assign =>
      have := assign.shorter
      ((binary false Binding.loosest assign.next).map (.optional name)).widen assign.le_succ
    | none =>
      match cursor.accept? (.mark .colon) with
      | some colon =>
        have := colon.shorter
        ((binary false Binding.loosest colon.next).map (.keyword name)).widen colon.le_succ
      | none => cursor.yield (.plain name)
termination_by 8 * cursor.size + 4

/-- What follows a name: an arrow makes it a method, and anything else a call. -/
def named (inCommand : Bool) (name : String) (cursor : Cursor) : Outcome (cursor.size + 1) Node :=
  match cursor.accept? (.mark .arrow) with
  | some arrow =>
    have := arrow.shorter
    ((definition arrow.next).map (.method name)).widen arrow.lt_succ
  | none =>
    (arguments cursor).andThen fun list next _ => trailingBlock inCommand name list next
termination_by 8 * cursor.size + 7

/-- The block behind the arguments of a call. In an argument list without parentheses it is left to
the call that the list belongs to. -/
def trailingBlock (inCommand : Bool) (name : String) (list : List Node) (cursor : Cursor) :
    Outcome (cursor.size + 1) Node :=
  match inCommand, cursor.accept? (.mark .blockArrow) with
  | false, some arrow =>
    have := arrow.shorter
    ((definition arrow.next).map fun block => .call name list (some block)).widen arrow.lt_succ
  | _, _ => cursor.yield (.call name list none)
termination_by 8 * cursor.size

/-- The arguments of a call, in parentheses or without. Parentheses behind a blank may also be the
start of the first argument. -/
def arguments (cursor : Cursor) : Outcome (cursor.size + 1) (List Node) :=
  match cursor.accept? (.mark .leftParen) with
  | some opened =>
    have := opened.shorter
    if cursor.peek.spaced && cursor.continuesBehindParens then
      ((entries true cursor).map Entry.gather).relax
    else (enclosed .rightParen opened.next).widen opened.le_succ
  | none =>
    if cursor.atArgument then ((entries true cursor).map Entry.gather).relax
    else cursor.yield []
termination_by 8 * cursor.size + 6

end

end Phrase

end ScriptFront
