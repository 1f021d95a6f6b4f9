import ScriptFront.Token.Basic

/-!
Words at the front of a text: the classes of characters that start and continue them, and how far
a name reaches.
-/

namespace ScriptFront

/-- A token read from the front of a text: its kind, the characters it covers, and the rest. -/
structure Lexeme where
  kind : Kind
  text : List Char
  rest : List Char
deriving DecidableEq, Repr

/-- Blanks within a line. -/
def isSpacing (character : Char) : Bool :=
  character = ' ' || character = '\t' || character = '\r'

/-- Names of variables and methods start with a small letter or an underscore. -/
def isNameStart (character : Char) : Bool :=
  character.isLower || character = '_'

/-- Letters, digits and the underscore; letters and digits of the ASCII set only. -/
def isWordChar (character : Char) : Bool :=
  character.isLower || character.isUpper || character.isDigit || character = '_'

theorem isSpacing_iff {character : Char} :
    isSpacing character = true ↔ character = ' ' ∨ character = '\t' ∨ character = '\r' := by
  simp [isSpacing, or_assoc]

theorem isNameStart_iff {character : Char} :
    isNameStart character = true ↔ character.isLower = true ∨ character = '_' := by
  simp [isNameStart]

theorem isWordChar_iff {character : Char} :
    isWordChar character = true ↔ character.isAlphanum = true ∨ character = '_' := by
  have classes : character.isAlphanum =
      (character.isUpper || character.isLower || character.isDigit) := rfl
  rw [isWordChar, Bool.or_comm character.isLower, classes, Bool.or_eq_true, decide_eq_true_eq]

/-- What may follow a name that takes in the equals sign behind it. -/
def endsSetterName (character : Char) : Bool :=
  isSpacing character || character = '\n' || character = '(' || character = '\x00'

/-- The mark that belongs to a name, read from the text behind its letters: a question or
exclamation mark unless an equals sign follows it, or an equals sign with a blank, a parenthesis or
nothing behind it. -/
def nameMark : List Char → List Char
  | '?' :: '=' :: _ => []
  | '!' :: '=' :: _ => []
  | '?' :: _ => ['?']
  | '!' :: _ => ['!']
  | ['='] => ['=']
  | '=' :: next :: _ => if endsSetterName next then ['='] else []
  | _ => []

namespace Lexeme

/-- The run of blanks at the front. -/
def spacing (input : List Char) : Lexeme :=
  ⟨.whitespace, input.takeWhile isSpacing, input.dropWhile isSpacing⟩

/-- A comment: everything up to the end of the line. Its text starts behind the number signs and the
blanks that follow them. -/
def comment (input : List Char) : Lexeme :=
  let line := input.takeWhile (· ≠ '\n')
  let body := (line.dropWhile (· = '#')).dropWhile fun character =>
    character = ' ' || character = '\t'
  ⟨.comment (String.ofList body), line, input.dropWhile (· ≠ '\n')⟩

/-- A name with its mark; without a mark it may be a reserved word. -/
def name (input : List Char) : Lexeme :=
  let word := input.takeWhile isWordChar
  let behind := input.dropWhile isWordChar
  let mark := nameMark behind
  let text := word ++ mark
  let kind :=
    match mark, Keyword.ofWord? (String.ofList word) with
    | [], some keyword => .keyword keyword
    | _, _ => .identifier (String.ofList text)
  ⟨kind, text, behind.drop mark.length⟩

/-- A name with a capital letter. -/
def constant (input : List Char) : Lexeme :=
  let word := input.takeWhile isWordChar
  ⟨.constant (String.ofList word), word, input.dropWhile isWordChar⟩

end Lexeme

/-- The mark of a name stands at the front of the text behind the letters. -/
theorem nameMark_append_drop (behind : List Char) :
    nameMark behind ++ behind.drop (nameMark behind).length = behind := by
  unfold nameMark
  split <;> first | rfl | (split <;> rfl)

end ScriptFront
