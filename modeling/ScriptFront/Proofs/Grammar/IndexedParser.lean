import ScriptFront.Grammar.Program
import ScriptFront.Proofs.Grammar.Gathering

/-!
# A parser with an index

The grammar is read by a parser that holds all tokens, the index of the next one, and the number of
argument lists without parentheses that are open.  Whatever could go wrong with an index or a number
is a halt of its own here: a token that does not exist, a place behind the end of the input, a
number below zero, and a recursion that does not come to an end.
-/

namespace ScriptFront

/-- Why a parser stops without a value. -/
inductive Halt where
  /-- A token is not accepted; this is what is reported. -/
  | refused (fault : Fault)
  /-- No token has the index. -/
  | outOfBounds
  /-- The index would move behind the first end of the input. -/
  | pastEnd
  /-- A number would fall below zero. -/
  | underflow
  /-- Functions have called one another, or a loop has gone round, as often as they may. -/
  | outOfFuel
deriving DecidableEq, Repr

structure Parser where
  tokens : List Token
  /-- The index of the next token. -/
  current : Nat
  /-- The number of argument lists without parentheses that are open. -/
  commandDepth : Nat
deriving DecidableEq, Repr

namespace Parser

/-- The tokens that carry meaning, with an end of the input behind them if they have none. -/
def endedTokens (tokens : List Token) : List Token :=
  let significant := Token.significant tokens
  if significant.getLast?.map Token.kind = some .endOfInput then significant
  else significant ++ [(Cursor.missingEnding significant).token]

def ofTokens (tokens : List Token) : Parser := ⟨endedTokens tokens, 0, 0⟩

/-- The index of the first end of the input. -/
def firstEnd (parser : Parser) : Nat := parser.tokens.findIdx (·.kind = .endOfInput)

end Parser

/-- What a parser does: it comes to a value or halts, and may change. -/
def Machine (α : Type) : Type := Parser → Except Halt α × Parser

namespace Machine

variable {α : Type}

def run (machine : Machine α) (parser : Parser) : Except Halt α × Parser := machine parser

instance : Monad Machine where
  pure value := fun parser => (.ok value, parser)
  bind machine further := fun parser =>
    match machine parser with
    | (.ok value, next) => further value next
    | (.error halt, next) => (.error halt, next)

/-! ## Tokens -/

def halt (reason : Halt) : Machine α := fun parser => (.error reason, parser)

def state : Machine Parser := fun parser => (.ok parser, parser)

def tokenAt (index : Nat) : Machine Token := fun parser =>
  match parser.tokens[index]? with
  | some token => (.ok token, parser)
  | none => (.error .outOfBounds, parser)

def peek : Machine Token := do
  tokenAt (← state).current

/-- The token some places ahead; the last one, if there are not as many. -/
def peekAt (distance : Nat) : Machine Token := do
  let parser ← state
  if parser.tokens.length = 0 then halt .underflow
  else tokenAt (min (parser.current + distance) (parser.tokens.length - 1))

/-- The last token taken. -/
def previous : Machine Token := do
  tokenAt ((← state).current - 1)

/-- Moves the index on. -/
def jump (distance : Nat) : Machine Unit := fun parser =>
  let index := parser.current + distance
  if index ≤ parser.firstEnd then (.ok (), { parser with current := index })
  else (.error .pastEnd, parser)

def isAtEnd : Machine Bool := do
  return (← peek).kind = .endOfInput

/-- Takes the next token, unless it ends the input. -/
def advance : Machine Token := do
  if ← isAtEnd then previous
  else do
    jump 1
    previous

def check (kind : Kind) : Machine Bool := do
  return (← peek).kind = kind

/-- Takes the next token if it is of the kind. -/
def matchToken (kind : Kind) : Machine Bool := do
  if ← check kind then do
    let _ ← advance
    return true
  else return false

def unexpected (wanted : List Expectation) : Machine α := do
  halt (.refused ((Refusal.unexpected wanted).fault (← peek)))

def nonAssociative (operator : Operator) : Machine α := do
  halt (.refused ((Refusal.chained operator).fault (← peek)))

def consume (kind : Kind) (wanted : List Expectation) : Machine Unit := do
  if ← check kind then do
    let _ ← advance
    return ()
  else unexpected wanted

def consumeIdentifier (wanted : List Expectation) : Machine String := do
  match (← peek).kind with
  | .identifier name => do
    let _ ← advance
    return name
  | _ => unexpected wanted

def constant : Machine Node := do
  match (← peek).kind with
  | .constant name => do
    let _ ← advance
    return .constant name
  | _ => unexpected [.constant]

/-- Whether the last token taken closed an indented body. -/
def afterBody : Machine Bool := do
  let parser ← state
  if parser.current = 0 then return false
  else return (← tokenAt (parser.current - 1)).kind = .dedent

def peekBinaryOperator : Machine (Option (Operator × Binding)) := do
  if ← afterBody then return none
  else
    match (← peek).kind with
    | .operator operator => return operator.binding?.map (operator, ·)
    | _ => return none

/-- Takes newlines, at most as many as the fuel allows. -/
def skipNewlines : Nat → Machine Unit
  | 0 => halt .outOfFuel
  | fuel + 1 => do
    if ← matchToken .newline then skipNewlines fuel
    else return ()

/-- The distance behind the newlines that stand some places ahead. -/
def behindNewlines : Nat → Nat → Machine Nat
  | 0, _ => halt .outOfFuel
  | fuel + 1, distance => do
    if (← peekAt distance).kind = .newline then behindNewlines fuel (distance + 1)
    else return distance

/-- The fuel for a loop over the tokens. -/
def loopFuel : Machine Nat := do
  return (← state).tokens.length + 1

/-! ## Open argument lists -/

/-- Runs outside of all argument lists without parentheses. -/
def nested (machine : Machine α) : Machine α := fun parser =>
  let ran := machine.run { parser with commandDepth := 0 }
  (ran.1, { ran.2 with commandDepth := parser.commandDepth })

/-- Runs in one more argument list without parentheses. -/
def inCommand (machine : Machine α) : Machine α := fun parser =>
  let ran := machine.run { parser with commandDepth := parser.commandDepth + 1 }
  if ran.2.commandDepth = 0 then (.error .underflow, ran.2)
  else (ran.1, { ran.2 with commandDepth := ran.2.commandDepth - 1 })

/-! ## Looking ahead -/

/-- A word with a colon behind it, which is followed by a blank. -/
def atSymbolKey : Machine Bool := do
  let isWord :=
    match (← peek).kind with
    | .identifier _ | .keyword _ => true
    | _ => false
  if isWord then
    if (← peekAt 1).kind = .mark .colon then return (← peekAt 2).spaced
    else return false
  else return false

def atHashSeparator : Machine Bool := do
  if ← check (.mark .colon) then
    if (← peekAt 1).spaced then return !(← afterBody)
    else return false
  else return false

/-- Whether something continues behind the parenthesis that closes the first of these tokens, which
stand some places ahead. -/
def continuesBehind (depth distance : Nat) : List Token → Machine Bool
  | [] => return false
  | token :: rest =>
    match token.kind with
    | .mark .leftParen => continuesBehind (depth + 1) (distance + 1) rest
    | .mark .rightParen =>
      if depth - 1 = 0 then do
        match (← peekAt (distance + 1)).kind with
        | .mark .comma => return true
        | .operator operator => return operator.binding?.isSome
        | _ => return false
      else continuesBehind (depth - 1) (distance + 1) rest
    | .endOfInput => return false
    | _ => continuesBehind depth (distance + 1) rest

def continuesAfterParens : Machine Bool := do
  let parser ← state
  if parser.current ≤ parser.tokens.length then
    continuesBehind 0 0 (parser.tokens.drop parser.current)
  else halt .outOfBounds

def atCommandArgument : Machine Bool := do
  let token ← peek
  if token.spaced then do
    let next ← peekAt 1
    match token.kind with
    | .integer _ | .float _ | .fragment _ | .identifier _ | .constant _ => return true
    | .mark .leftBracket | .mark .leftBrace | .mark .leftParen => return true
    | .mark .colon =>
      return !next.spaced &&
        match next.kind with
        | .identifier _ | .constant _ | .keyword _ | .fragment _ => true
        | _ => false
    | .operator operator =>
      return operator.isUnary && !next.spaced &&
        match next.kind with
        | .newline | .indent | .dedent | .endOfInput => false
        | _ => true
    | _ => return false
  else return false

end Machine

/-! ## The grammar -/

/-- The functions that call one another without having taken a token, and the loops. -/
inductive Production where
  /-- The statements of a program, behind those that have been read. -/
  | statements (before : List Node)
  /-- The statements of a body, behind those that have been read. -/
  | bodyStatements (before : List Node)
  | statement
  | entry
  /-- The rest of a list of expressions, behind some nodes and a run of pairs. -/
  | expressionList (nodes : List Node) (run : List (Pair Node))
  /-- The rest of a hash. -/
  | hashTail (before : List (Pair Node))
  | binary (level : Nat)
  /-- The operators behind a left operand. -/
  | climb (level : Nat) (left : Node)
  | unary
  | primary
  /-- The rest of a string, behind a text and what is in front of it. -/
  | stringParts (text : String) (before : List Node)
  /-- The rest of a list of parameters. -/
  | parameterTail (before : List (Parameter Node))

abbrev Production.Value : Production → Type
  | .entry => Entry
  | .statements _ | .bodyStatements _ | .expressionList _ _ => List Node
  | .parameterTail _ => List (Parameter Node)
  | _ => Node

/-- What the functions of the grammar call. -/
abbrev Callees : Type := (production : Production) → Machine production.Value

namespace Machine

variable (call : Callees)

/-- The nodes of a string: the text alone if nothing is inserted in front of it. -/
def stringNode (text : String) (before : List Node) : Node :=
  if before.isEmpty then .text text else .interpolated (before ++ [.text text])

def expression : Machine Node := call (.binary Binding.loosest)

def statements (before : List Node) : Machine (List Node) := do
  skipNewlines (← loopFuel)
  if ← isAtEnd then return before
  else do
    let node ← call .statement
    call (.statements (before ++ [node]))

/-- The end of a body with some statements. -/
def bodyEnd (before : List Node) : Machine (List Node) := do
  if before.isEmpty then unexpected [.statement]
  else do
    let _ ← matchToken .dedent
    return before

def bodyStatements (before : List Node) : Machine (List Node) := do
  skipNewlines (← loopFuel)
  if ← check .dedent then bodyEnd before
  else if ← isAtEnd then bodyEnd before
  else do
    let node ← call .statement
    call (.bodyStatements (before ++ [node]))

/-- What a statement that starts with an entry says: a pair starts a hash without braces. -/
def bareHash : Entry → Machine Node
  | .pair both => call (.hashTail [both])
  | .single node => pure node

def statementEnd (node : Node) : Machine Node := do
  if ← matchToken .newline then return node
  else if ← check .dedent then return node
  else if ← isAtEnd then return node
  else if ← afterBody then return node
  else unexpected [.newline, .dedent, .endOfInput]

def statement : Machine Node := do
  let first ← call .entry
  let node ← bareHash call first
  statementEnd node

/-- The statements of an indented body; none if no body starts here. -/
def indentedContents : Machine (List Node) := do
  let distance ← behindNewlines (← loopFuel) 0
  if distance = 0 then return []
  else if (← peekAt distance).kind = .indent then do
    jump (distance + 1)
    nested (call (.bodyStatements []))
  else return []

def entry : Machine Entry := do
  if ← atSymbolKey then do
    let word ← advance
    let _ ← advance
    let value ← expression call
    return .pair ⟨.symbol (.text word.lexeme), value⟩
  else do
    let node ← expression call
    if ← atHashSeparator then do
      let _ ← advance
      let value ← expression call
      return .pair ⟨node, value⟩
    else return .single node

def expressionList (nodes : List Node) (run : List (Pair Node)) : Machine (List Node) := do
  let first ← call .entry
  let more ← matchToken (.mark .comma)
  match first with
  | .pair both =>
    if more then call (.expressionList nodes (run ++ [both]))
    else return Entry.withRun nodes (run ++ [both])
  | .single node =>
    if more then call (.expressionList (Entry.withRun nodes run ++ [node]) [])
    else return Entry.withRun nodes run ++ [node]

def hashElement : Machine (Pair Node) := do
  match ← call .entry with
  | .pair both => return both
  | .single _ => unexpected [.pairValue]

def hashTail (before : List (Pair Node)) : Machine Node := do
  if ← matchToken (.mark .comma) then do
    let both ← hashElement call
    call (.hashTail (before ++ [both]))
  else return .hash before

def binary (level : Nat) : Machine Node := do
  let left ← call .unary
  call (.climb level left)

def climb (level : Nat) (left : Node) : Machine Node := do
  match ← peekBinaryOperator with
  | none => return left
  | some (operator, binding) =>
    if binding.level < level then return left
    else do
      let _ ← advance
      let right ← call (.binary binding.operandLevel)
      let node := .binary operator left right
      if binding.associativity = .none then
        match ← peekBinaryOperator with
        | some (again, other) =>
          if other.level = binding.level then nonAssociative again
          else call (.climb level node)
        | none => call (.climb level node)
      else call (.climb level node)

def unary : Machine Node := do
  match (← peek).kind with
  | .operator operator =>
    if operator.isUnary then do
      let _ ← advance
      let operand ← call .unary
      return .unary operator operand
    else call .primary
  | _ => call .primary

/-! ### Literals -/

def string : Machine Node := do
  let first ← advance
  match first.kind with
  | .fragment text => call (.stringParts text [])
  | _ => call (.stringParts "" [])

def stringParts (text : String) (before : List Node) : Machine Node := do
  let token ← peek
  match token.kind, token.spaced with
  | .fragment more, false => do
    let _ ← advance
    call (.stringParts (text ++ more) before)
  | .interpolationStart, _ => do
    let _ ← advance
    let inner ← nested (expression call)
    consume .interpolationEnd [.mark .rightBrace]
    call (.stringParts "" (before ++ [.text text, .interpolation inner]))
  | _, _ => return stringNode text before

def symbol : Machine Node := do
  let _ ← advance
  let token ← peek
  if token.spaced then unexpected [.symbolName]
  else
    match token.kind with
    | .fragment _ => return .symbol (← string call)
    | kind =>
      match kind.symbolName? with
      | some name => do
        let _ ← advance
        return .symbol (.text name)
      | none => unexpected [.identifier, .constant, .string]

/-- The expressions between a mark that opens a list and the one that closes it. -/
def listUpTo (closer : Mark) : Machine (List Node) := do
  let _ ← advance
  if ← matchToken (.mark closer) then return []
  else do
    let list ← nested (call (.expressionList [] []))
    consume (.mark closer) [.mark .comma, .mark closer]
    return list

def array : Machine Node := do
  return .array (← listUpTo call .rightBracket)

def hashLiteral : Machine Node := do
  let _ ← advance
  if ← matchToken (.mark .rightBrace) then return .hash []
  else do
    let node ← nested do
      let first ← hashElement call
      call (.hashTail [first])
    consume (.mark .rightBrace) [.mark .comma, .mark .rightBrace]
    return node

def group : Machine Node := do
  let _ ← advance
  let inner ← nested (expression call)
  consume (.mark .rightParen) [.mark .rightParen]
  return .group inner

/-! ### Definitions -/

def superclass : Machine (Option Node) := do
  if ← matchToken (.operator .less) then return some (← constant)
  else return none

def classDefinition : Machine Node := do
  let _ ← advance
  let name ← constant
  let base ← superclass
  let body ← indentedContents call
  return .classDefinition name base body

def moduleDefinition : Machine Node := do
  let _ ← advance
  let name ← constant
  let body ← indentedContents call
  return .moduleDefinition name body

/-- What follows the name of a parameter. -/
def parameterValue (name : String) : Machine (Parameter Node) := do
  match bareName? name with
  | some bare => return .optional bare (← expression call)
  | none =>
    if ← matchToken (.operator .assign) then return .optional name (← expression call)
    else if ← matchToken (.mark .colon) then return .keyword name (← expression call)
    else return .plain name

def parameter : Machine (Parameter Node) := do
  if ← matchToken (.operator .star) then return .splat (← consumeIdentifier [.parameterName])
  else do
    let name ← consumeIdentifier [.parameter]
    parameterValue call name

def parameterTail (before : List (Parameter Node)) : Machine (List (Parameter Node)) := do
  if ← matchToken (.mark .comma) then do
    let next ← parameter call
    call (.parameterTail (before ++ [next]))
  else return before

def parameters : Machine (List (Parameter Node)) := do
  consume (.mark .leftParen) [.mark .leftParen]
  if ← matchToken (.mark .rightParen) then return []
  else do
    let list ← nested do
      let first ← parameter call
      call (.parameterTail [first])
    consume (.mark .rightParen) [.mark .comma, .mark .rightParen]
    return list

def parametersIfAny : Machine (List (Parameter Node)) := do
  if ← check (.mark .leftParen) then parameters call
  else return []

/-- The parameters and the body of a method or a block. -/
def definition : Machine (Block Node) := do
  let list ← parametersIfAny call
  let body ← indentedContents call
  return ⟨list, body⟩

def methodDefinition : Machine Node := do
  let name ← consumeIdentifier [.identifier]
  consume (.mark .arrow) [.mark .arrow]
  return .method name (← definition call)

def block : Machine (Block Node) := do
  consume (.mark .blockArrow) [.mark .blockArrow]
  definition call

/-! ### Calls -/

def commandArguments : Machine (List Node) := inCommand (call (.expressionList [] []))

def spacedArguments : Machine (List Node) := do
  if ← continuesAfterParens then commandArguments call
  else listUpTo call .rightParen

def arguments : Machine (List Node) := do
  if ← check (.mark .leftParen) then
    if (← peek).spaced then spacedArguments call
    else listUpTo call .rightParen
  else if ← atCommandArgument then commandArguments call
  else return []

/-- The block behind the arguments of a call. -/
def trailingBlock (name : String) (list : List Node) : Machine Node := do
  if (← state).commandDepth = 0 then
    if ← check (.mark .blockArrow) then return .call name list (some (← block call))
    else return .call name list none
  else return .call name list none

def callOrBlock : Machine Node := do
  let name ← consumeIdentifier [.identifier]
  let list ← arguments call
  trailingBlock call name list

/-- What starts with a name.  Both functions find it, so neither reports that one was wanted. -/
def named : Machine Node := do
  if (← peekAt 1).kind = .mark .arrow then methodDefinition call
  else callOrBlock call

def primary : Machine Node := do
  match (← peek).kind with
  | .integer value => do
    let _ ← advance
    return .integer value
  | .float value => do
    let _ ← advance
    return .float value
  | .fragment _ => string call
  | .constant name => do
    let _ ← advance
    return .constant name
  | .keyword .classWord => classDefinition call
  | .keyword .moduleWord => moduleDefinition call
  | .mark .colon => symbol call
  | .mark .leftBracket => array call
  | .mark .leftBrace => hashLiteral call
  | .mark .leftParen => group call
  | .mark .blockArrow => return .block (← block call)
  | .identifier _ => named call
  | _ => unexpected [.expression]

/-- One call of a function of the grammar. -/
def step : Callees
  | .statements before => statements call before
  | .bodyStatements before => bodyStatements call before
  | .statement => statement call
  | .entry => entry call
  | .expressionList nodes run => expressionList call nodes run
  | .hashTail before => hashTail call before
  | .binary level => binary call level
  | .climb level left => climb call level left
  | .unary => unary call
  | .primary => primary call
  | .stringParts text before => stringParts call text before
  | .parameterTail before => parameterTail call before

/-- The functions of the grammar, which may call one another as deep as the fuel allows. -/
def exec : Nat → Callees
  | 0 => fun _ => halt .outOfFuel
  | fuel + 1 => step (exec fuel)

/-- A call of the parser: the statements up to the end of the input. -/
def parse (fuel : Nat) : Machine (List Node) := exec fuel (.statements [])

end Machine

end ScriptFront
