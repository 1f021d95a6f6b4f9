import ScriptFront.Source.Location

/-!
Faults: why a text is no token list or no program. A fault that comes from the text has a place; one
about a misplaced token also says what was found and what could have stood there.
-/

namespace ScriptFront

/-- What is wrong, where, and in which stage of reading it was seen. -/
inductive Fault where
  /-- The text does not form tokens. -/
  | lexical (message : String) (location : Location)
  /-- A token stands where it cannot. -/
  | syntactic (message : String) (location : Location) (found : String) (expected : List String)
  /-- The reader contradicts itself. -/
  | internal (message : String)
deriving DecidableEq, Repr

namespace Fault

/-- The heading of a fault. -/
def heading : Fault → String
  | lexical .. => "Lexer Error"
  | syntactic .. => "Parse Error"
  | internal .. => "Internal Error"

def message : Fault → String
  | lexical message _ => message
  | syntactic message .. => message
  | internal message => message

def location? : Fault → Option Location
  | lexical _ location => some location
  | syntactic _ location .. => some location
  | internal _ => none

def found? : Fault → Option String
  | syntactic _ _ found _ => some found
  | _ => none

def expected : Fault → List String
  | syntactic _ _ _ expected => expected
  | _ => []

/-- The fault on one line. -/
def render (fault : Fault) : String :=
  let text := fault.heading ++ ": " ++ fault.message
  match fault.location? with
  | none => text
  | some location => text ++ " at " ++ location.render

/-- Alternatives in words: commas between them, and `or` before the last. -/
def alternatives : List String → String
  | [] => ""
  | [only] => only
  | [first, last] => first ++ " or " ++ last
  | first :: others => first ++ ", " ++ alternatives others

/-- The sentence about a token that stands where something else was expected. -/
def unexpectedMessage (found : String) (expected : List String) : String :=
  if expected.isEmpty then "Unexpected " ++ found
  else "Expected " ++ alternatives expected ++ ", found " ++ found

/-- A token that stands where something else was expected. -/
def unexpected (found : String) (expected : List String) (location : Location) : Fault :=
  .syntactic (unexpectedMessage found expected) location found expected

end Fault

end ScriptFront
