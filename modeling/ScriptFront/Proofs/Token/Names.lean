import ScriptFront.Proofs.Token.Exchange
import ScriptFront.Proofs.Token.Rules

/-!
# Names

A name is the longest run of letters, digits and underscores from its start on, with at most one
mark behind it.  The two characters behind the run decide about the mark, and a run without a mark
may be a reserved word.
-/

namespace ScriptFront

/-- Names of variables and methods, and the reserved words. -/
def Kind.isWord : Kind → Bool
  | .identifier _ | .keyword _ => true
  | _ => false

theorem Kind.name_or_keyword_of_isWord {kind : Kind} (isWord : kind.isWord = true) :
    (∃ name, kind = .identifier name) ∨ ∃ keyword, kind = .keyword keyword := by
  cases kind with
  | identifier name => exact Or.inl ⟨name, rfl⟩
  | keyword word => exact Or.inr ⟨word, rfl⟩
  | _ => cases isWord

/-! ## The rule for the mark -/

/-- What may stand behind an equals sign that belongs to a name: blanks, the end of a line and a
parenthesis. -/
def setterClosers : List Char := [' ', '\t', '\r', '\n', '(']

/-- The mark that belongs to a name, by what stands behind the letters.  An equals sign belongs to
it in front of the characters given and at the end of the text. -/
structure IsNameMark (closers behind mark : List Char) : Prop where
  atMostOne : mark = [] ∨ mark = ['?'] ∨ mark = ['!'] ∨ mark = ['=']
  question : mark = ['?'] ↔ behind.head? = some '?' ∧ behind[1]? ≠ some '='
  exclamation : mark = ['!'] ↔ behind.head? = some '!' ∧ behind[1]? ≠ some '='
  setter : mark = ['='] ↔ behind.head? = some '=' ∧ ∀ next ∈ behind[1]?, next ∈ closers

theorem endsSetterName_iff (character : Char) :
    endsSetterName character = true ↔ character ∈ setterClosers ∨ character = '\x00' := by
  simp [endsSetterName, isSpacing, setterClosers, or_assoc]

theorem isNameMark_nameMark (behind : List Char) :
    IsNameMark (setterClosers ++ ['\x00']) behind (nameMark behind) := by
  unfold nameMark
  split
  case h_1 | h_2 | h_5 => constructor <;> simp
  case h_3 rest noEquals | h_4 rest noEquals =>
    have notEquals : rest[0]? ≠ some '=' := by
      intro isEquals
      cases rest with
      | nil => cases isEquals
      | cons next others =>
          obtain rfl := Option.some.inj isEquals
          exact noEquals others rfl
    constructor <;> simp [notEquals]
  case h_6 next rest =>
    by_cases ends : endsSetterName next = true
    · have isCloser := (endsSetterName_iff next).1 ends
      rw [if_pos ends]
      constructor <;> simp [isCloser]
    · have noCloser := mt (endsSetterName_iff next).2 ends
      rw [if_neg ends]
      constructor <;> simp [noCloser]
  case h_7 noQuestionEquals noExclamationEquals noQuestion noExclamation noEquals noSetter =>
    cases behind with
    | nil => constructor <;> simp
    | cons first rest =>
        have notQuestion : first ≠ '?' := fun same => noQuestion rest (congrArg (· :: rest) same)
        have notExclamation : first ≠ '!' :=
          fun same => noExclamation rest (congrArg (· :: rest) same)
        have notEquals : first ≠ '=' := by
          rintro rfl
          cases rest with
          | nil => exact noEquals rfl
          | cons next others => exact noSetter next others rfl
        constructor <;> simp [notQuestion, notExclamation, notEquals]

/-! ## The step that reads a name -/

/-- The reserved words, as they are written. -/
theorem Keyword.eq_word_iff {text : String} {keyword : Keyword} :
    text = keyword.word ↔
      keyword = .classWord ∧ text = "class" ∨ keyword = .moduleWord ∧ text = "module" := by
  cases keyword <;> simp [word]

theorem Keyword.eq_of_word {first second : Keyword} (same : first.word = second.word) :
    first = second := by
  apply Option.some.inj
  rw [← first.ofWord?_word, same, second.ofWord?_word]

namespace Lexeme

/-- A name without a mark may be a reserved word, and any other one is written as it is named. -/
theorem kind_name (input : List Char) :
    (∃ keyword : Keyword, (name input).kind = .keyword keyword ∧
        nameMark (input.dropWhile isWordChar) = [] ∧
          String.ofList (input.takeWhile isWordChar) = keyword.word) ∨
      (name input).kind = .identifier (String.ofList (name input).text) ∧
        ∀ keyword : Keyword, nameMark (input.dropWhile isWordChar) = [] →
          String.ofList (input.takeWhile isWordChar) ≠ keyword.word := by
  unfold name
  dsimp only
  split
  case h_1 keyword noMark found =>
    exact Or.inl ⟨keyword, rfl, noMark, Keyword.eq_word_of_ofWord? found⟩
  case h_2 notReserved =>
    refine Or.inr ⟨rfl, ?_⟩
    intro keyword noMark isWord
    exact notReserved keyword noMark (isWord ▸ keyword.ofWord?_word)

/-- A symbol takes from a name what is written. -/
theorem symbolName?_name (input : List Char) :
    (name input).kind.symbolName? = some (String.ofList (name input).text) := by
  rcases kind_name input with ⟨keyword, isKeyword, noMark, isRun⟩ | ⟨isName, -⟩
  · have isText : (name input).text = input.takeWhile isWordChar := by
      simp only [name, noMark, List.append_nil]
    rw [isKeyword, isText, isRun]
    rfl
  · rw [isName]
    rfl

end Lexeme

namespace ModeStack

variable {modes after : ModeStack} {input : List Char} {lexeme : Lexeme}

/-- A word is read in code only, where a small letter or an underscore stands. -/
theorem name_of_move
    (step : modes.move input = .token lexeme after) (isWord : lexeme.kind.isWord = true) :
    lexeme = .name input ∧ ∃ first ∈ input.head?, isNameStart first = true := by
  cases rule_of_move step with
  | @name first rest _ starts => exact ⟨rfl, first, rfl, starts⟩
  | number _ _ hasKind =>
      rcases Numeral.kind_cases hasKind with ⟨value, rfl⟩ | ⟨value, rfl⟩ <;> cases isWord
  | sign _ found =>
      rcases Sign.kind_cases (Sign.atFront?_mem found) with ⟨operator, isKind⟩ | ⟨mark, isKind⟩ <;>
        cases (congrArg Kind.isWord isKind).symm.trans isWord
  | ending | newline | comment | spacing | constant | insertionEnds | plainPiece | richPiece
  | insertionStarts | commentEnds => cases isWord

end ModeStack

/-! ## Every name in a text -/

namespace Scanner

variable {file : Option String} {scanner : Scanner} {token : Token}

/-- Every token among the items is read by a step from a place that is reached. -/
theorem Sound.reaches_of_item
    (sound : scanner.Sound) (isItem : .ok token ∈ scanner.items file) :
    ∃ front place lexeme modes, Reaches file scanner front place ∧
      place.modes.move place.rest = .token lexeme modes ∧ token = place.token file lexeme := by
  induction sound using Sound.induction with
  | refused scanner sound cause step =>
      rw [items_of_refused step] at isItem
      cases List.mem_singleton.1 isItem
  | quote scanner sound mark rest modes _ step inductionHypothesis =>
      rw [items_of_quote step] at isItem
      rcases inductionHypothesis isItem with ⟨front, place, lexeme, after, reaches, read⟩
      exact ⟨front, place, lexeme, after, .quote step reaches, read⟩
  | last scanner sound lexeme modes step ended =>
      rw [items_of_last step ended] at isItem
      exact ⟨[], scanner, lexeme, modes, .here, step, Except.ok.inj (List.mem_singleton.1 isItem)⟩
  | token scanner sound lexeme modes _ step more inductionHypothesis =>
      rw [items_of_token step more] at isItem
      rcases List.mem_cons.1 isItem with isFirst | isFurther
      · exact ⟨[], scanner, lexeme, modes, .here, step, Except.ok.inj isFirst⟩
      · rcases inductionHypothesis isFurther with ⟨front, place, further, after, reaches, read⟩
        have written := ModeStack.isWritten_of_move step more
        exact ⟨_, place, further, after, .token step written reaches, read⟩

/-- Every word among the items is read by a step that reads a name. -/
theorem Sound.name_of_item
    (sound : scanner.Sound) (isItem : .ok token ∈ scanner.items file)
    (isWord : token.kind.isWord = true) :
    ∃ front place, Reaches file scanner front place ∧
      (∃ first ∈ place.rest.head?, isNameStart first = true) ∧
        token = place.token file (.name place.rest) := by
  rcases sound.reaches_of_item isItem with ⟨front, place, lexeme, modes, reaches, step, rfl⟩
  rcases ModeStack.name_of_move step isWord with ⟨rfl, starts⟩
  exact ⟨front, place, reaches, starts, rfl⟩

theorem Sound.symbolName?_of_item
    (sound : scanner.Sound) (isItem : .ok token ∈ scanner.items file)
    (isWord : token.kind.isWord = true) : token.kind.symbolName? = some token.lexeme := by
  rcases sound.name_of_item isItem isWord with ⟨front, place, -, -, rfl⟩
  exact Lexeme.symbolName?_name place.rest

end Scanner

/-- The token is a name, and this is how it is written in a text: a run of letters with its mark
between two other parts of the text. -/
structure Token.IsNameIn
    (closers text : List Char) (file : Option String) (token : Token)
    (before run mark behind : List Char) : Prop where
  whole : text = before ++ (run ++ (mark ++ behind))
  location : token.location = (Position.start.after before).inFile file
  lexeme : token.lexeme.toList = run ++ mark
  starts : ∃ first ∈ run.head?, first.isLower = true ∨ first = '_'
  letters : ∀ character ∈ run, character.isAlphanum = true ∨ character = '_'
  longest : ∀ next ∈ (mark ++ behind).head?, ¬(next.isAlphanum = true ∨ next = '_')
  marked : IsNameMark closers (mark ++ behind) mark
  reserved : ∀ keyword, token.kind = .keyword keyword ↔
    mark = [] ∧ (keyword = .classWord ∧ String.ofList run = "class" ∨
      keyword = .moduleWord ∧ String.ofList run = "module")
  named : (∀ keyword, token.kind ≠ .keyword keyword) → token.kind = .identifier token.lexeme

/-- The step that reads a name follows the rule. -/
theorem Scanner.isNameIn_token
    {scanner : Scanner} {text before : List Char} (file : Option String)
    (whole : text = before ++ scanner.rest)
    (position : scanner.position = Position.start.after before)
    (starts : ∃ first ∈ scanner.rest.head?, isNameStart first = true) :
    ∃ run mark behind,
      (scanner.token file (.name scanner.rest)).IsNameIn (setterClosers ++ ['\x00']) text file
        before run mark behind := by
  let run := scanner.rest.takeWhile isWordChar
  let further := scanner.rest.dropWhile isWordChar
  have isRest : run ++ further = scanner.rest := List.takeWhile_append_dropWhile
  have isFurther : nameMark further ++ further.drop (nameMark further).length = further :=
    nameMark_append_drop further
  refine ⟨run, nameMark further, further.drop (nameMark further).length, ?_⟩
  constructor
  case whole => rw [isFurther, isRest, whole]
  case location => rw [← position]; rfl
  case lexeme => exact String.toList_ofList
  case starts =>
    rcases starts with ⟨first, isHead, isStart⟩
    have goesOn := Lexeme.isWordChar_of_isNameStart isStart
    cases ahead : scanner.rest with
    | nil =>
        rw [ahead] at isHead
        cases isHead
    | cons head others =>
        rw [ahead] at isHead
        obtain rfl := Option.some.inj isHead
        refine ⟨head, ?_, isNameStart_iff.1 isStart⟩
        simp [run, ahead, goesOn]
  case letters =>
    intro character member
    exact isWordChar_iff.1 (List.mem_takeWhile_imp member)
  case longest =>
    rw [isFurther]
    intro next isHead
    rcases List.head?_eq_some_iff.1 isHead with ⟨others, isRest⟩
    rw [← isWordChar_iff, head_dropWhile_stops isRest]
    exact Bool.false_ne_true
  case marked =>
    rw [isFurther]
    exact isNameMark_nameMark further
  case reserved =>
    intro keyword
    rw [← Keyword.eq_word_iff]
    rcases Lexeme.kind_name scanner.rest with ⟨word, isWord, noMark, isRun⟩ | ⟨isName, notReserved⟩
    · constructor
      · intro isKeyword
        obtain rfl := Kind.keyword.inj (isWord.symm.trans isKeyword)
        exact ⟨noMark, isRun⟩
      · rintro ⟨-, isRunOf⟩
        have sameWord : word = keyword := Keyword.eq_of_word (isRun.symm.trans isRunOf)
        exact isWord.trans (congrArg _ sameWord)
    · constructor
      · intro isKeyword
        cases isName.symm.trans isKeyword
      · rintro ⟨noMark, isRun⟩
        exact absurd isRun (notReserved keyword noMark)
  case named =>
    intro notReserved
    rcases Lexeme.kind_name scanner.rest with ⟨word, isWord, -⟩ | ⟨isName, -⟩
    · exact absurd isWord (notReserved word)
    · exact isName

/-- Whatever a text is, each of its names and reserved words is the longest run of letters, digits
and underscores from its start on, with a mark behind it exactly where the rule gives it one. -/
theorem names_in_text
    {source : String} {file : Option String} {token : Token}
    (isItem : .ok token ∈ rawItems source file) (isWord : token.kind.isWord = true) :
    ∃ before run mark behind, token.IsNameIn (setterClosers ++ ['\x00']) source.toList file
      before run mark behind := by
  have sound := Scanner.sound_start source.toList
  rcases sound.name_of_item isItem isWord with ⟨front, place, reaches, starts, rfl⟩
  rcases reaches.covered with ⟨before, whole, position⟩
  exact ⟨before, Scanner.isNameIn_token file whole position starts⟩

/-- In `big?!=x`, the sign behind the question mark belongs to no name. -/
theorem names_in_text_question :
    rawItems "big?!=x" none =
        [.ok ⟨.identifier "big?", "big?", ⟨1, 1, none⟩, false⟩,
          .ok ⟨.operator .notEqual, "!=", ⟨1, 5, none⟩, false⟩,
          .ok ⟨.identifier "x", "x", ⟨1, 7, none⟩, false⟩,
          .ok ⟨.endOfInput, "", ⟨1, 8, none⟩, false⟩] ∧
      ∃ before run mark behind,
        Token.IsNameIn (setterClosers ++ ['\x00']) "big?!=x".toList none
          ⟨.identifier "big?", "big?", ⟨1, 1, none⟩, false⟩ before run mark behind := by
  have items : rawItems "big?!=x" none =
      [.ok ⟨.identifier "big?", "big?", ⟨1, 1, none⟩, false⟩,
        .ok ⟨.operator .notEqual, "!=", ⟨1, 5, none⟩, false⟩,
        .ok ⟨.identifier "x", "x", ⟨1, 7, none⟩, false⟩,
        .ok ⟨.endOfInput, "", ⟨1, 8, none⟩, false⟩] := by
    with_unfolding_all rfl
  refine ⟨items, names_in_text ?_ rfl⟩
  rw [items]
  exact List.mem_cons_self

/-- A null character is no closer, but an equals sign in front of it is taken for one at the end of
the text. -/
theorem name_before_null :
    rawItems "a=\x00" none =
        [.ok ⟨.identifier "a=", "a=", ⟨1, 1, none⟩, false⟩,
          .error ((LexicalCause.unexpected '\x00').fault ⟨1, 3, none⟩)] ∧
      ¬∃ before run mark behind,
        Token.IsNameIn setterClosers "a=\x00".toList none
          ⟨.identifier "a=", "a=", ⟨1, 1, none⟩, false⟩ before run mark behind := by
  refine ⟨by with_unfolding_all rfl, ?_⟩
  rintro ⟨before, run, mark, behind, name⟩
  have isLexeme : ['a', '='] = run ++ mark := name.lexeme
  have isBehind : behind = ['\x00'] := by
    have whole : ['a', '=', '\x00'] = before ++ ((run ++ mark) ++ behind) := by
      rw [List.append_assoc]
      exact name.whole
    rw [← isLexeme] at whole
    cases before with
    | nil => simpa using whole.symm
    | cons first others =>
        have lengths := congrArg List.length whole
        cases others with
        | nil => simp at whole
        | cons second rest =>
            simp only [List.length_append, List.length_cons, List.length_nil] at lengths
            omega
  have isSetter : mark = ['='] := by
    have noLetter : '=' ∉ run := fun member => absurd (name.letters _ member) (by decide)
    have member : '=' ∈ run ++ mark := isLexeme ▸ by simp
    have isMark := (List.mem_append.1 member).resolve_left noLetter
    rcases name.marked.atMostOne with rfl | rfl | rfl | isSetter
    · cases isMark
    · simp at isMark
    · simp at isMark
    · exact isSetter
  have isCloser := (name.marked.setter.1 isSetter).2 '\x00' (by rw [isSetter, isBehind]; rfl)
  simp [setterClosers] at isCloser

end ScriptFront
