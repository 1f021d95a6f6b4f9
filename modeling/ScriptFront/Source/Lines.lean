/-!
The lines of a text. A line ends at a newline; a carriage return directly before that newline
belongs to the line end. Text after the last newline is a line of its own unless it is empty.
-/

namespace ScriptFront.Source

/-- Puts a character in front of the first line. -/
def extendFirst (character : Char) : List (List Char) → List (List Char)
  | [] => [[character]]
  | line :: others => (character :: line) :: others

/-- The lines of a sequence of characters, without their line ends. -/
def linesOf : List Char → List (List Char)
  | [] => []
  | '\n' :: rest => [] :: linesOf rest
  | '\r' :: '\n' :: rest => [] :: linesOf rest
  | character :: rest => extendFirst character (linesOf rest)

/-- The lines of a text without their line ends; a last line that is empty is not counted. -/
def lines (text : String) : List String :=
  (linesOf text.toList).map String.ofList

example : lines "a\r\nb\rc\n\r\r\n" = ["a", "b\rc", "\r"] := by decide +kernel

example : lines "a\n\r" = ["a", "\r"] := by decide +kernel

end ScriptFront.Source
