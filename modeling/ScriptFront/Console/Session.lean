import ScriptFront.Console.Source
import ScriptFront.Console.Usage
import ScriptFront.Text.Blank

/-!
Sessions at the terminal. The input is answered line by line, each line as if it were a file of its
own; the lines that are not blank are numbered. A session ends with the input, with a line that asks
for it, or with a line that is no text.
-/

namespace ScriptFront

/-! ## Lines -/

/-- Puts a byte in front of the first line. -/
def extendFirstLine (byte : UInt8) : List (List UInt8) → List (List UInt8)
  | [] => [[byte]]
  | line :: others => (byte :: line) :: others

/-- The lines of an input with their newlines. -/
def inputLines : List UInt8 → List (List UInt8)
  | [] => []
  | byte :: rest =>
    if byte = 10 then [byte] :: inputLines rest else extendFirstLine byte (inputLines rest)

/-- A line of a session. -/
inductive SessionLine where
  | unreadable
  /-- Asks for the end. -/
  | leave
  | blank
  | source (text : String)
deriving DecidableEq, Repr

namespace SessionLine

/-- The meaning of a line; blanks at its ends have none. -/
def ofText (line : String) : SessionLine :=
  let text := Text.trim line
  if text = "exit" || text = "quit" then .leave
  else if text.isEmpty then .blank
  else .source text

def ofBytes (bytes : ByteArray) : SessionLine :=
  match String.fromUTF8? bytes with
  | none => .unreadable
  | some line => ofText line

end SessionLine

/-- The lines of an input. -/
def sessionLines (input : ByteArray) : List SessionLine :=
  (inputLines input.toList).map fun line => .ofBytes ⟨line.toArray⟩

/-! ## Answers -/

/-- The run on one line, which becomes a source text by its newline. -/
def answerLine (coloured : Bool) (text : String) : Transcript :=
  printTree coloured "<repl>" (text ++ "\n") text

/-- The complaint about a line that is no text. -/
def unreadableLine : String := "Error reading input: " ++ notText ++ "\n"

/-- What is written behind the prompt of a line, and the number of the line behind it; nothing where
the line ends the session. -/
structure LineAnswer where
  output : String
  diagnostics : String
  next? : Option Nat

/-- The answer to a line that has the given number if it is not blank. -/
def SessionLine.answer (coloured : Bool) (number : Nat) : SessionLine → LineAnswer
  | .unreadable => ⟨"", unreadableLine, none⟩
  | .leave => ⟨"", "", none⟩
  | .blank => ⟨"", "", some number⟩
  | .source text =>
    let answer := answerLine coloured text
    ⟨answer.output, answer.diagnostics, some (number + 1)⟩

/-- A session from a line on, the next line that is not blank having the given number. -/
def session (coloured : Bool) (number : Nat) : List SessionLine → Transcript
  | [] => .success (prompt number ++ farewell)
  | line :: lines =>
    let answer := line.answer coloured number
    let behind : Transcript :=
      match answer.next? with
      | none => .success farewell
      | some next => session coloured next lines
    behind.preceded (prompt number ++ answer.output) answer.diagnostics

end ScriptFront
