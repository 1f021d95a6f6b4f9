import ScriptFront.Text.Field
import ScriptFront.Tree.Dump

/-!
Token lists and trees as they are written to the terminal.
-/

namespace ScriptFront

/-- A line across a listing. -/
def horizontalRule : String := String.ofList (List.replicate 60 '=') ++ "\n"

/-- One token behind its number. -/
def tokenRow (number : Nat) (token : Token) : String :=
  Text.padLeft 4 (toString number) ++ ": " ++ Text.padRight 28 token.kind.dump.inline ++ " | " ++
    Text.quoted token.lexeme ++ " @ " ++ token.location.render ++ "\n"

/-- The tokens of a file, one on each line. -/
def tokenListing (file : String) (tokens : List Token) : String :=
  "Tokens for '" ++ file ++ "':\n" ++ horizontalRule ++
    String.join (tokens.mapIdx tokenRow) ++ horizontalRule ++
    "Total tokens: " ++ toString tokens.length ++ "\n"

/-- The trees of statements, one after the other. -/
def treeListing (statements : List Node) : String :=
  String.join (statements.map fun statement => statement.dump.indented 0 ++ "\n")

end ScriptFront
