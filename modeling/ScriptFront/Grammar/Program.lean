import ScriptFront.Grammar.Phrase
import ScriptFront.Token.Reader

/-!
Programs: the statements that a list of tokens or a source text consists of.
-/

namespace ScriptFront

namespace Cursor

/-- The statements from a place on or the fault at the token where they end, and the place reached:
the end of the input, or the token at fault. -/
def readProgram (cursor : Cursor) : Except Fault (List Node) × Cursor :=
  match Phrase.statements false cursor with
  | .done nodes next _ => (.ok nodes, next)
  | .stuck refusal stop => (.error (refusal.fault stop.peek), stop)

end Cursor

/-- The statements of a list of tokens. -/
def parseTokens (tokens : List Token) : Except Fault (List Node) :=
  (Cursor.ofTokens tokens).readProgram.1

/-- The statements of a source text. -/
def parse (source : String) (file : Option String) : Except Fault (List Node) :=
  match tokenize source file with
  | .error fault => .error fault
  | .ok tokens => parseTokens tokens

end ScriptFront
