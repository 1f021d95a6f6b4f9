import ScriptFront.Fault.Basic
import ScriptFront.Token.Basic

/-!
The reasons why tokens do not form a program, and their wording.
-/

namespace ScriptFront

/-- What could have stood in the place of a token. -/
inductive Expectation where
  | expression
  | statement
  | newline
  | dedent
  | endOfInput
  | identifier
  | constant
  | string
  | symbolName
  | parameter
  | parameterName
  /-- What makes a pair of an expression. -/
  | pairValue
  | mark (sign : Mark)
deriving DecidableEq, Repr

namespace Expectation

def words : Expectation → String
  | expression => "expression"
  | statement => "statement"
  | newline => "newline"
  | dedent => "dedent"
  | endOfInput => "end of input"
  | identifier => "identifier"
  | constant => "constant"
  | string => "string"
  | symbolName => "symbol name"
  | parameter => "parameter"
  | parameterName => "parameter name"
  | pairValue => "':' and a value"
  | mark sign => "'" ++ sign.sign ++ "'"

end Expectation

/-- Why a token is not accepted. -/
inductive Refusal where
  /-- Something else was expected. -/
  | unexpected (wanted : List Expectation)
  /-- The operator follows another one of a level whose operators may not follow one another. -/
  | chained (operator : Operator)
deriving DecidableEq, Repr

namespace Refusal

/-- What could have stood in the place of the token. -/
def wanted : Refusal → List Expectation
  | unexpected wanted => wanted
  | chained _ => [.newline, .endOfInput]

def message (found : String) : Refusal → String
  | unexpected wanted => Fault.unexpectedMessage found (wanted.map Expectation.words)
  | chained operator =>
    "Range operators do not chain; parenthesize before '" ++ operator.sign ++ "'"

/-- The fault at a token that is not accepted. -/
def fault (token : Token) (refusal : Refusal) : Fault :=
  .syntactic (refusal.message token.describe) token.location token.describe
    (refusal.wanted.map Expectation.words)

end Refusal

end ScriptFront
