import ScriptFront.Fault.Basic

/-!
The reasons why a text does not form tokens, and their wording.
-/

namespace ScriptFront

/-- Why no token can be read. -/
inductive LexicalCause where
  /-- No token starts with this character. -/
  | unexpected (character : Char)
  /-- A digit of the number is none of its base. -/
  | digitOutsideBase (base : Nat) (lexeme : String)
  /-- The number needs more than sixty-three bits. -/
  | tooLarge (lexeme : String)
  | unterminatedString
  | unterminatedInterpolation
  | unterminatedComment
  /-- A piece of a string has ended, but nothing follows that ends one. -/
  | strayString
deriving DecidableEq, Repr

namespace LexicalCause

/-- The fault at a place with the given cause. -/
def fault (location : Location) : LexicalCause → Fault
  | unexpected character =>
    .lexical ("Unexpected character '" ++ character.toString ++ "'") location
  | digitOutsideBase base lexeme =>
    .lexical s!"Invalid base-{base} integer literal '{lexeme}'" location
  | tooLarge lexeme =>
    .lexical ("Integer literal '" ++ lexeme ++ "' is out of range") location
  | unterminatedString => .lexical "Unterminated string" location
  | unterminatedInterpolation => .lexical "Unterminated string interpolation" location
  | unterminatedComment => .lexical "Unterminated comment: expected a newline" location
  | strayString =>
    .internal ("string segment closed without a terminator at " ++ location.render)

end LexicalCause

end ScriptFront
