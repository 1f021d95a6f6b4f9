/-!
The pieces of a string. A piece ends in front of the closing quote or, between double quotes, in
front of an inserted expression. It has a value, in which escapes are resolved, and the text as
written.
-/

namespace ScriptFront

/-- A piece of a string: its value, the characters it covers, and those behind it. -/
structure Segment where
  value : List Char
  text : List Char
  rest : List Char
deriving DecidableEq, Repr

namespace Segment

/-- The piece with more in front of it. -/
def prepend (value text : List Char) (segment : Segment) : Segment :=
  ⟨value ++ segment.value, text ++ segment.text, segment.rest⟩

/-- The piece up to a closing single quote. Only a single quote and a backslash can be escaped. -/
def plain? : List Char → Option Segment
  | [] => none
  | '\'' :: rest => some ⟨[], [], '\'' :: rest⟩
  | '\\' :: '\'' :: rest => (plain? rest).map (prepend ['\''] ['\\', '\''])
  | '\\' :: '\\' :: rest => (plain? rest).map (prepend ['\\'] ['\\', '\\'])
  | character :: rest => (plain? rest).map (prepend [character] [character])

/-- What a backslash and the character behind it stand for between double quotes; a character that
cannot be escaped keeps its backslash. -/
def unescape : Char → List Char
  | '"' => ['"']
  | '\\' => ['\\']
  | '#' => ['#']
  | 'n' => ['\n']
  | 't' => ['\t']
  | 'r' => ['\r']
  | '0' => ['\x00']
  | other => ['\\', other]

/-- The piece up to a closing double quote or up to the start of an inserted expression. -/
def rich? : List Char → Option Segment
  | [] => none
  | '"' :: rest => some ⟨[], [], '"' :: rest⟩
  | '#' :: '{' :: rest => some ⟨[], [], '#' :: '{' :: rest⟩
  | ['\\'] => none
  | '\\' :: escaped :: rest => (rich? rest).map (prepend (unescape escaped) ['\\', escaped])
  | character :: rest => (rich? rest).map (prepend [character] [character])

/-- The text of a piece and what follows it are the text that was read. -/
theorem plain?_append {input : List Char} {segment : Segment}
    (found : plain? input = some segment) :
    segment.text ++ segment.rest = input := by
  fun_induction plain? input generalizing segment <;> grind [prepend, Option.map_eq_some_iff]

theorem rich?_append {input : List Char} {segment : Segment} (found : rich? input = some segment) :
    segment.text ++ segment.rest = input := by
  fun_induction rich? input generalizing segment <;> grind [prepend, Option.map_eq_some_iff]

end Segment

end ScriptFront
