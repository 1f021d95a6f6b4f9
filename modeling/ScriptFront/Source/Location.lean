/-!
Places in a source text. A `Position` counts lines and columns while the text is read; a `Location`
is a position together with the name of the file it belongs to, if there is one.
-/

namespace ScriptFront

/-- A line and a column, both counted from one; a column counts characters. -/
structure Position where
  line : Nat
  column : Nat
deriving DecidableEq, Repr

namespace Position

/-- The place of the first character. -/
def start : Position := ⟨1, 1⟩

/-- The place after one more character: a newline opens the next line. -/
def step (position : Position) (character : Char) : Position :=
  if character = '\n' then ⟨position.line + 1, 1⟩ else ⟨position.line, position.column + 1⟩

/-- The place after a run of characters. -/
def after (position : Position) (text : List Char) : Position :=
  text.foldl step position

@[simp]
theorem after_nil (position : Position) : position.after [] = position := rfl

@[simp]
theorem after_cons (position : Position) (head : Char) (tail : List Char) :
    position.after (head :: tail) = (position.step head).after tail := rfl

theorem after_append (position : Position) (first second : List Char) :
    position.after (first ++ second) = (position.after first).after second :=
  List.foldl_append

end Position

/-- A place that can be shown to a reader: line, column and the file, if it has a name. -/
structure Location where
  line : Nat
  column : Nat
  file : Option String
deriving DecidableEq, Repr, Inhabited

namespace Location

/-- Shows a place as `file:line:column`, or as `line:column` where no file is named. An empty name
counts as a name. -/
def render (location : Location) : String :=
  let place := s!"{location.line}:{location.column}"
  match location.file with
  | none => place
  | some file => file ++ ":" ++ place

end Location

/-- A position in the given file. -/
def Position.inFile (position : Position) (file : Option String) : Location :=
  ⟨position.line, position.column, file⟩

end ScriptFront
