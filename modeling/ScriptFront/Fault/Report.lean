import ScriptFront.Fault.Basic
import ScriptFront.Source.Lines
import ScriptFront.Text.Field

/-!
Reports on faults for a reader at a terminal: the message, the place, the lines around it with the
offending text underlined, and what could have stood there.
-/

namespace ScriptFront

/-- How a piece of a report is set off from the rest. -/
inductive Emphasis where
  /-- What is wrong. -/
  | alarm
  /-- What leads to the place. -/
  | guide
  /-- What is only near the place. -/
  | faint
deriving DecidableEq, Repr

namespace Emphasis

/-- The terminal's number sequence for an emphasis: red and blue, bold or not. -/
def code : Emphasis → String
  | alarm => "1;31"
  | guide => "1;34"
  | faint => "34"

/-- A text with its emphasis, if the report is coloured. -/
def paint (emphasis : Emphasis) (coloured : Bool) (text : String) : String :=
  if coloured then "\x1b[" ++ emphasis.code ++ "m" ++ text ++ "\x1b[0m" else text

end Emphasis

namespace Fault

/-- The text between single quotes, empty if there are none around it. -/
def betweenQuotes : List Char → List Char
  | '\'' :: rest => if rest.getLast? = some '\'' then rest.dropLast else []
  | _ => []

/-- How many characters are underlined: those of the token that was found, if it is shown as
written, and one otherwise. -/
def underlineWidth (fault : Fault) : Nat :=
  match fault.found? with
  | none => 1
  | some found => max 1 (betweenQuotes found.toList).length

/-- The first and the last of the line numbers that are shown around a line. -/
def shownLines (line total : Nat) : Nat × Nat := (max 1 (line - 1), min (line + 1) total)

/-- The row below the line of the fault: carets from its column on, no further than the line
reaches. -/
def caretRow (coloured : Bool) (gutter column width : Nat) (line : String) : String :=
  let indent := max 1 column - 1
  let room := max 1 (line.length - indent)
  let carets := String.ofList (List.replicate (min width room) '^')
  "  " ++ Text.padLeft gutter "" ++ " " ++ Text.padLeft indent "" ++
    Emphasis.alarm.paint coloured carets ++ "\n"

/-- A line of the source behind its number. -/
def numberedRow (emphasis : Emphasis) (coloured : Bool) (gutter number : Nat) (line : String) :
    String :=
  "  " ++ emphasis.paint coloured (Text.padLeft gutter (toString number)) ++ " " ++ line ++ "\n"

/-- The line of a place with its neighbours and carets below it; nothing if there is none. -/
def excerpt (coloured : Bool) (width : Nat) (source : String) (location : Location) : String :=
  let lines := Source.lines source
  if location.line = 0 || lines.length < location.line then ""
  else
    let (first, last) := shownLines location.line lines.length
    let gutter := (toString last).length
    let rows := (List.range' first (last + 1 - first)).map fun number =>
      let line := lines.getD (number - 1) ""
      if number = location.line then
        numberedRow .guide coloured gutter number line ++
          caretRow coloured gutter location.column width line
      else numberedRow .faint coloured gutter number line
    String.join rows

/-- The report on a fault, with lines of its source if that is given. -/
def report (coloured : Bool) (source? : Option String) (fault : Fault) : String :=
  let place := match fault.location? with
    | none => ""
    | some location =>
      "  " ++ Emphasis.guide.paint coloured "-->" ++ " " ++ location.render ++ "\n" ++
        match source? with
        | none => ""
        | some source => excerpt coloured fault.underlineWidth source location
  let wanted :=
    if fault.expected.isEmpty then ""
    else "  " ++ Emphasis.guide.paint coloured "=" ++ " expected one of: " ++
      String.intercalate ", " fault.expected ++ "\n"
  Emphasis.alarm.paint coloured fault.heading ++ ": " ++ fault.message ++ "\n" ++ place ++ wanted

end Fault

end ScriptFront
