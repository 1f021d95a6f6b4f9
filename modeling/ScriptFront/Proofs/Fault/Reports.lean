import ScriptFront.Console.Source
import ScriptFront.Proofs.Grammar.FirstEnd
import ScriptFront.Proofs.Source.Lines
import ScriptFront.Proofs.Token.Calls
import ScriptFront.Proofs.Token.Names
import ScriptFront.Proofs.Token.Places

/-!
# Reports on faults of a text

The fault of a text has its place in the text.  A report shows the line of that place between its
neighbours, with carets below the offending token, or with one caret where no token is shown as it is
written.
-/

namespace ScriptFront

/-! ## Tokens that are shown as they are written -/

/-- Layout is described by its name and a piece of a string by its text; any other token is shown as
it is written. -/
def Kind.isShownAsWritten : Kind → Bool
  | .newline | .indent | .dedent | .endOfInput | .fragment _ => false
  | _ => true

theorem Token.describe_of_isShownAsWritten
    {token : Token} (written : token.kind.isShownAsWritten = true) :
    token.describe = "'" ++ token.lexeme ++ "'" := by
  unfold describe
  cases isKind : token.kind with
  | newline | indent | dedent | endOfInput | fragment =>
      rw [isKind] at written
      cases written
  | _ => rfl

namespace Fault

theorem betweenQuotes_quoted (text : String) :
    betweenQuotes ("'" ++ text ++ "'").toList = text.toList := by
  have whole : ("'" ++ text ++ "'").toList = '\'' :: (text.toList ++ ['\'']) := by
    simp
  rw [whole, betweenQuotes, List.getLast?_concat, if_pos rfl, List.dropLast_concat]

theorem betweenQuotes_described
    {token : Token} (described : token.kind.isShownAsWritten = false) :
    betweenQuotes token.describe.toList = [] := by
  unfold Token.describe
  cases isKind : token.kind with
  | fragment text =>
      have whole : ("string " ++ Text.quoted text).toList =
          's' :: ("tring ".toList ++ (Text.quoted text).toList) := by
        simp
      rw [whole]
      rfl
  | newline | indent | dedent | endOfInput =>
      dsimp only
      decide
  | _ =>
      rw [isKind] at described
      cases described

end Fault

/-! ## Where they are written -/

namespace ModeStack

variable {modes after : ModeStack} {input : List Char} {lexeme : Lexeme}

/-- A token with a meaning that is shown as it is written lies on one line and holds no carriage
return. -/
theorem inLine_of_move
    (step : modes.move input = .token lexeme after) (means : lexeme.kind.isTrivia = false)
    (written : lexeme.kind.isShownAsWritten = true) :
    lexeme.text ≠ [] ∧ '\n' ∉ lexeme.text ∧ '\r' ∉ lexeme.text := by
  have notLetters {character : Char} (noLetter : isWordChar character = false)
      (text : List Char) : character ∉ text.takeWhile isWordChar := fun member =>
    absurd (List.mem_takeWhile_imp member) (by simp [noLetter])
  have signs : ∀ sign ∈ Sign.all, '\n' ∉ sign.text ∧ '\r' ∉ sign.text := by decide +kernel
  have startsWord {first : Char} (isLetter : isWordChar first = true) (rest : List Char) :
      (first :: rest).takeWhile isWordChar ≠ [] := by
    rw [List.takeWhile_cons_of_pos isLetter]
    exact List.cons_ne_nil _ _
  cases rule_of_move step with
  | ending | newline | plainPiece | richPiece | commentEnds => cases written
  | comment | spacing => cases means
  | number _ isDigit =>
      exact ⟨Numeral.read_text_ne_nil isDigit, Numeral.not_mem_read (by decide) (by decide),
        Numeral.not_mem_read (by decide) (by decide)⟩
  | @name first rest _ starts =>
      have marks := (isNameMark_nameMark ((first :: rest).dropWhile isWordChar)).atMostOne
      have isText : (Lexeme.name (first :: rest)).text =
          (first :: rest).takeWhile isWordChar ++
            nameMark ((first :: rest).dropWhile isWordChar) := rfl
      rw [isText]
      refine ⟨fun isNil => ?_, ?_, ?_⟩
      · exact startsWord (Lexeme.isWordChar_of_isNameStart starts) rest
          (List.append_eq_nil_iff.1 isNil).1
      all_goals
        intro member
        rcases List.mem_append.1 member with inWord | inMark
        · exact notLetters (by decide) _ inWord
        · rcases marks with isMark | isMark | isMark | isMark <;>
            rw [isMark] at inMark <;> revert inMark <;> decide
  | @constant first rest _ isUpper =>
      refine ⟨startsWord ?_ rest, notLetters (by decide) _, notLetters (by decide) _⟩
      simp [isWordChar, isUpper]
  | sign _ found | insertionEnds _ found =>
      have member := Sign.atFront?_mem found
      exact ⟨Sign.text_ne_nil member, signs _ member⟩
  | insertionStarts =>
      dsimp only
      decide

end ModeStack

/-! ## Places of faults -/

/-- The place is one of the text: at a character of one of its lines, as newlines end them, or behind
the last character of the line. -/
structure Location.IsIn (text : List Char) (location : Location) : Prop where
  firstLine : 1 ≤ location.line
  lastLine : location.line ≤ text.count '\n' + 1
  column : ∃ line, (text.splitOn '\n')[location.line - 1]? = some line ∧
    1 ≤ location.column ∧ location.column ≤ line.length + 1

theorem Location.isIn_after (before rest : List Char) (file : Option String) :
    ((Position.start.after before).inFile file).IsIn (before ++ rest) := by
  rw [Position.start_after]
  constructor
  case firstLine => exact Nat.le_add_right 1 _
  case lastLine =>
    simp only [Position.inFile, List.count_append]
    omega
  case column =>
    refine ⟨before.rtakeWhile (· ≠ '\n') ++ rest.takeWhile (· ≠ '\n'), ?_,
      Nat.le_add_right 1 _, ?_⟩
    · simp only [Position.inFile, Nat.add_sub_cancel_left]
      exact Source.getElem?_splitOn_newline_append before rest
    · simp only [Position.inFile, List.rtakeWhile, List.length_append, List.length_reverse]
      omega

namespace Scanner

variable {file : Option String} {scanner : Scanner} {fault : Fault}

/-- The fault among the items stands where a step is refused. -/
theorem Sound.fault_of_item
    (sound : scanner.Sound) (isItem : .error fault ∈ scanner.items file) :
    ∃ front place message, Reaches file scanner front place ∧
      fault = .lexical message (place.position.inFile file) := by
  induction sound using Sound.induction with
  | refused scanner sound cause step accidental =>
      rw [items_of_refused step] at isItem
      obtain rfl := Except.error.inj (List.mem_singleton.1 isItem)
      cases cause with
      | strayString => exact absurd rfl accidental
      | _ => exact ⟨[], scanner, _, .here, rfl⟩
  | quote scanner sound mark rest modes _ step inductionHypothesis =>
      rw [items_of_quote step] at isItem
      rcases inductionHypothesis isItem with ⟨front, place, message, reaches, isFault⟩
      exact ⟨front, place, message, .quote step reaches, isFault⟩
  | last scanner sound lexeme modes step ended =>
      rw [items_of_last step ended] at isItem
      cases List.mem_singleton.1 isItem
  | token scanner sound lexeme modes _ step more inductionHypothesis =>
      rw [items_of_token step more] at isItem
      rcases List.mem_cons.1 isItem with isFirst | isFurther
      · cases isFirst
      · rcases inductionHypothesis isFurther with ⟨front, place, message, reaches, isFault⟩
        exact ⟨_, place, message, .token step (ModeStack.isWritten_of_move step more) reaches,
          isFault⟩

end Scanner

section Places

variable {source : String} {file : Option String} {fault : Fault} {tokens : List Token}
  {token : Token}

theorem lexical_of_tokenize_fault (failed : tokenize source file = .error fault) :
    ∃ message before rest, source.toList = before ++ rest ∧
      fault = .lexical message ((Position.start.after before).inFile file) := by
  have isItem : .error fault ∈ (Scanner.start source.toList).items file := by
    rw [tokenize_eq, significantTokens_eq, tokensAmong] at failed
    split at failed
    · rename_i other found
      obtain rfl := Except.error.inj failed
      rcases List.exists_of_findSome?_eq_some found with ⟨item, isItem, isFault⟩
      cases item with
      | ok token => cases isFault
      | error other => exact Option.some.inj isFault ▸ isItem
    · cases failed
  rcases (Scanner.sound_start source.toList).fault_of_item isItem with
    ⟨front, place, message, reaches, rfl⟩
  rcases reaches.covered with ⟨before, whole, position⟩
  exact ⟨message, before, place.rest, whole, by rw [position]; rfl⟩

/-- A token with a meaning stands in the text where it says, and on one line if it is shown as it is
written. -/
theorem place_of_mem_tokenize (lexed : tokenize source file = .ok tokens) (member : token ∈ tokens) :
    ∃ before rest, source.toList = before ++ (token.lexeme.toList ++ rest) ∧
      token.location = (Position.start.after before).inFile file ∧
      (token.kind.isShownAsWritten = true → token.lexeme.toList ≠ [] ∧
        '\n' ∉ token.lexeme.toList ∧ '\r' ∉ token.lexeme.toList) := by
  rcases of_mem_tokenize lexed member with ⟨isItem, means⟩
  have isAhead : .ok token ∈ (Scanner.start source.toList).items file := isItem
  rcases (Scanner.sound_start source.toList).reaches_of_item isAhead with
    ⟨front, place, lexeme, modes, reaches, step, rfl⟩
  rcases reaches.covered with ⟨before, whole, position⟩
  have covered := ModeStack.move_covers place.modes place.rest
  rw [step] at covered
  have isLexeme : (place.token file lexeme).lexeme.toList = lexeme.text := String.toList_ofList
  rw [isLexeme]
  refine ⟨before, lexeme.rest, ?_, ?_, ModeStack.inLine_of_move step means⟩
  · exact whole.trans (congrArg (before ++ ·) covered.symm)
  · rw [← show place.position = Position.start.after before from position]
    rfl

/-- A text whose tokens form no program has its fault at one of them. -/
theorem syntactic_of_parseTokens_fault
    (lexed : tokenize source file = .ok tokens) (failed : parseTokens tokens = .error fault) :
    ∃ token ∈ tokens, ∃ message wanted,
      fault = .syntactic message token.location token.describe wanted := by
  have calls := Machine.parse_afterCalls tokens 0 0
  rcases calls with ⟨ran, answers, rests⟩
  have isFault : (Cursor.ofTokens tokens).readProgram.1 = .error fault := failed
  rw [ran, Cursor.afterCalls, isFault] at answers
  generalize isAnswer : (Except.error fault).mapError Halt.refused = answer at answers
  cases answers with
  | statements => cases isAnswer
  | @fault token message wanted isNext _ =>
      obtain rfl := Halt.refused.inj (Except.error.inj isAnswer)
      refine ⟨token, ?_, message, wanted, rfl⟩
      rcases reaches_of_tokenize lexed with ⟨read, last, -, -, isTokens⟩
      have member := List.mem_of_getElem? isNext
      rw [rests.tokens_eq, isTokens, Parser.endedTokens_of_last rfl] at member
      rw [isTokens]
      rcases List.mem_append.1 member with inFront | isLast
      · exact List.mem_append_left _ (List.mem_filter.1 inFront).1
      · exact List.mem_append_right _ isLast

end Places

/-! ## Excerpts -/

namespace Fault

/-- A run of blanks. -/
def blanks (count : Nat) : String := String.ofList (List.replicate count ' ')

/-- A text between a terminal's number sequence and the sequence that ends it, if the report is
coloured. -/
def tinted (coloured : Bool) (sequence text : String) : String :=
  if coloured then "\x1b[" ++ sequence ++ "m" ++ text ++ "\x1b[0m" else text

/-- The rows of an excerpt for a line: the line behind its number, and below the line of the place a
row of carets, the first under the character at the column of the place. -/
def rowsOfLine
    (coloured : Bool) (lines : List String) (gutter carets : Nat) (location : Location)
    (number : Nat) : String :=
  let line := lines.getD (number - 1) ""
  let label := blanks (gutter - (toString number).length) ++ toString number
  if number = location.line then
    "  " ++ tinted coloured "1;34" label ++ " " ++ line ++ "\n" ++
      (blanks (gutter + 3 + (location.column - 1)) ++
        tinted coloured "1;31" (String.ofList (List.replicate carets '^')) ++ "\n")
  else "  " ++ tinted coloured "34" label ++ " " ++ line ++ "\n"

/-- The report shows the line of the place and its neighbours and no other line, each behind a number
that ends at one column, with so many carets below the line of the place. -/
def Shows (fault : Fault) (source : String) (location : Location) (carets : Nat) : Prop :=
  let lines := Source.lines source
  let first := max 1 (location.line - 1)
  let last := min (location.line + 1) lines.length
  ∃ gutter,
    (∀ number, number ≤ last → (toString number).length ≤ gutter) ∧
    ∀ coloured, ∃ opening closing,
      fault.report coloured none = opening ++ closing ∧
        fault.report coloured (some source) =
          opening ++
            String.join ((List.range' first (last + 1 - first)).map
              (rowsOfLine coloured lines gutter carets location)) ++
            closing

theorem blanks_append (first second : Nat) : blanks first ++ blanks second = blanks (first + second) := by
  rw [blanks, blanks, blanks, ← String.ofList_append, List.replicate_append_replicate]

theorem padLeft_empty (width : Nat) : Text.padLeft width "" = blanks width := by
  simp [Text.padLeft, blanks]

theorem caretRow_eq
    (coloured : Bool) {gutter column width carets : Nat} {line : String} (onLine : 1 ≤ column)
    (fits : min width (max 1 (line.length - (column - 1))) = carets) :
    caretRow coloured gutter column width line =
      blanks (gutter + 3 + (column - 1)) ++
        tinted coloured "1;31" (String.ofList (List.replicate carets '^')) ++ "\n" := by
  have indent : max 1 column - 1 = column - 1 := by omega
  have front : "  " ++ Text.padLeft gutter "" ++ " " ++ Text.padLeft (column - 1) "" =
      blanks (gutter + 3 + (column - 1)) := by
    have two : "  " = blanks 2 := by decide
    have one : " " = blanks 1 := by decide
    rw [padLeft_empty, padLeft_empty, two, one, blanks_append, blanks_append, blanks_append]
    congr 1
    omega
  rw [caretRow, indent, fits, front]
  rfl

theorem length_toString_le {number last : Nat} (le : number ≤ last) :
    (toString number).length ≤ (toString last).length := by
  have isLast := (Nat.length_repr_le_iff last.length_repr_pos).1 (Nat.le_refl last.repr.length)
  exact (Nat.length_repr_le_iff last.length_repr_pos).2 (Nat.lt_of_le_of_lt le isLast)

theorem shows_of_room
    {fault : Fault} {source line : String} {location : Location} {carets : Nat}
    (isPlace : fault.location? = some location) (firstLine : 1 ≤ location.line)
    (firstColumn : 1 ≤ location.column)
    (isLine : (Source.lines source)[location.line - 1]? = some line)
    (room : min fault.underlineWidth (max 1 (line.length - (location.column - 1))) = carets) :
    fault.Shows source location carets := by
  have inLines : location.line ≤ (Source.lines source).length := by
    rcases List.getElem?_eq_some_iff.1 isLine with ⟨inside, -⟩
    omega
  let last := min (location.line + 1) (Source.lines source).length
  refine ⟨(toString last).length, ?_, ?_⟩
  · intro number le
    exact length_toString_le le
  · intro coloured
    have isExcerpt : excerpt coloured fault.underlineWidth source location =
        String.join ((List.range' (max 1 (location.line - 1))
          (last + 1 - max 1 (location.line - 1))).map
            (rowsOfLine coloured (Source.lines source) (toString last).length carets location)) := by
      have within : ¬(location.line = 0 || (Source.lines source).length < location.line) = true := by
        simp
        omega
      simp only [excerpt, if_neg within, shownLines]
      refine congrArg String.join (List.map_congr_left fun number _ => ?_)
      unfold rowsOfLine
      dsimp only
      split
      · rename_i isNumber
        have isText : (Source.lines source).getD (number - 1) "" = line := by
          rw [isNumber, List.getD_eq_getElem?_getD, isLine]
          rfl
        rw [isText, caretRow_eq coloured firstColumn room]
        rfl
      · rfl
    have withoutSource : fault.report coloured none =
        (Emphasis.alarm.paint coloured fault.heading ++ ": " ++ fault.message ++ "\n" ++
          ("  " ++ Emphasis.guide.paint coloured "-->" ++ " " ++ location.render ++ "\n")) ++
        (if fault.expected.isEmpty then ""
          else "  " ++ Emphasis.guide.paint coloured "=" ++ " expected one of: " ++
            String.intercalate ", " fault.expected ++ "\n") := by
      simp only [report, isPlace, String.append_empty]
    refine ⟨_, _, withoutSource, ?_⟩
    simp only [report, isPlace, isExcerpt, String.append_assoc, last]

end Fault

/-! ## Reports on the fault of a text -/

/-- How many carets a fault has below the line that is shown. -/
inductive Fault.Marks
    (source : String) (file : Option String) (location : Location) (line : String) :
    Fault → Nat → Prop where
  /-- One below each character of a token that is shown as it is written. -/
  | token {tokens : List Token} {token : Token} {message : String} {wanted : List String}
      (lexed : tokenize source file = .ok tokens) (member : token ∈ tokens)
      (isPlace : token.location = location)
      (written : token.describe = "'" ++ token.lexeme ++ "'")
      (covers : (line.toList.drop (location.column - 1)).take token.lexeme.length =
        token.lexeme.toList) :
      Marks source file location line (.syntactic message location token.describe wanted)
        token.lexeme.length
  /-- A single one at a newline, at the end and at a string. -/
  | described {tokens : List Token} {token : Token} {message : String} {wanted : List String}
      (lexed : tokenize source file = .ok tokens) (member : token ∈ tokens)
      (isPlace : token.location = location)
      (isKind : token.kind = .newline ∨ token.kind = .endOfInput ∨
        ∃ text, token.kind = .fragment text) :
      Marks source file location line (.syntactic message location token.describe wanted) 1
  /-- A single one where no token can be read. -/
  | lexical {message : String} : Marks source file location line (.lexical message location) 1

section Reports

variable {source : String} {file : Option String} {fault : Fault} {tokens : List Token}
  {token : Token}

/-- Of the tokens of a text only these are described. -/
theorem kind_of_described
    (lexed : tokenize source file = .ok tokens) (member : token ∈ tokens)
    (described : token.kind.isShownAsWritten = false) :
    token.kind = .newline ∨ token.kind = .endOfInput ∨ ∃ text, token.kind = .fragment text := by
  have isItem : .ok token ∈ (Scanner.start source.toList).items file :=
    (of_mem_tokenize lexed member).1
  rcases (Scanner.sound_start source.toList).reaches_of_item isItem with
    ⟨front, place, lexeme, modes, -, step, rfl⟩
  have unwritten (isLayout : lexeme.kind.isWritten = false) : lexeme.kind = .endOfInput := by
    rcases ModeStack.end_of_move step isLayout with ⟨-, -, -, rfl⟩
    rfl
  change lexeme.kind.isShownAsWritten = false at described
  change lexeme.kind = .newline ∨ lexeme.kind = .endOfInput ∨ ∃ text, lexeme.kind = .fragment text
  cases isKind : lexeme.kind with
  | newline => exact Or.inl rfl
  | endOfInput => exact Or.inr (Or.inl rfl)
  | fragment text => exact Or.inr (Or.inr ⟨text, rfl⟩)
  | indent | dedent => cases isKind.symm.trans (unwritten (by rw [isKind]; rfl))
  | _ =>
      rw [isKind] at described
      cases described

/-- A token that is shown as it is written stands in the line that is shown, at its column. -/
theorem covered_of_mem_tokenize
    {line : String} (lexed : tokenize source file = .ok tokens) (member : token ∈ tokens)
    (written : token.kind.isShownAsWritten = true)
    (isLine : (Source.lines source)[token.location.line - 1]? = some line) :
    0 < token.lexeme.length ∧
      (line.toList.drop (token.location.column - 1)).take token.lexeme.length =
        token.lexeme.toList := by
  rcases place_of_mem_tokenize lexed member with ⟨before, rest, whole, isPlace, inLine⟩
  rcases inLine written with ⟨filled, single, noReturn⟩
  rw [isPlace, Position.start_after] at isLine ⊢
  simp only [Position.inFile, Nat.add_sub_cancel_left, Source.lines, List.getElem?_map,
    Option.map_eq_some_iff, whole] at isLine ⊢
  rcases isLine with ⟨letters, isLetters, rfl⟩
  have covered := Source.covered_of_linesOf filled single noReturn isLetters
  rw [List.rtakeWhile, List.length_reverse] at covered
  rw [String.toList_ofList, ← String.length_toList]
  exact ⟨List.length_pos_iff.2 filled, covered⟩

theorem report_of_token
    {line message : String} {wanted : List String}
    (lexed : tokenize source file = .ok tokens) (member : token ∈ tokens)
    (isFault : fault = .syntactic message token.location token.describe wanted)
    (isLine : (Source.lines source)[token.location.line - 1]? = some line)
    (isIn : token.location.IsIn source.toList) :
    ∃ carets, fault.Marks source file token.location line carets ∧
      fault.Shows source token.location carets := by
  rcases isIn with ⟨firstLine, -, shown, -, firstColumn, -⟩
  subst isFault
  have width : Fault.underlineWidth (.syntactic message token.location token.describe wanted) =
      max 1 (Fault.betweenQuotes token.describe.toList).length := rfl
  cases written : token.kind.isShownAsWritten with
  | true =>
      rcases covered_of_mem_tokenize lexed member written isLine with ⟨filled, covers⟩
      have describes := Token.describe_of_isShownAsWritten written
      refine ⟨token.lexeme.length, .token lexed member rfl describes covers,
        Fault.shows_of_room rfl firstLine firstColumn isLine ?_⟩
      have lengths := congrArg List.length covers
      rw [List.length_take, List.length_drop, String.length_toList, String.length_toList] at lengths
      rw [width, describes, Fault.betweenQuotes_quoted, String.length_toList]
      omega
  | false =>
      refine ⟨1, .described lexed member rfl (kind_of_described lexed member written),
        Fault.shows_of_room rfl firstLine firstColumn isLine ?_⟩
      rw [width, Fault.betweenQuotes_described written]
      simp only [List.length_nil]
      omega

/-- The fault of a text has its place in the text.  Where the report shows the line of that place, it
shows the lines next to it as well, and the carets stand exactly below the offending token, or one
stands below the place where no token is shown as it is written. -/
theorem report_of_parse
    (failed : parse source file = .error fault) :
    ∃ location, fault.location? = some location ∧ location.file = file ∧
      location.IsIn source.toList ∧
      ∀ line, (Source.lines source)[location.line - 1]? = some line →
        ∃ carets, fault.Marks source file location line carets ∧
          fault.Shows source location carets := by
  unfold parse at failed
  split at failed
  · rename_i other lexical
    obtain rfl := Except.error.inj failed
    rcases lexical_of_tokenize_fault lexical with ⟨message, before, rest, whole, rfl⟩
    have isIn := Location.isIn_after before rest file
    rw [← whole] at isIn
    refine ⟨_, rfl, rfl, isIn, ?_⟩
    intro line isLine
    rcases isIn with ⟨firstLine, -, shown, -, firstColumn, -⟩
    refine ⟨1, .lexical, Fault.shows_of_room rfl firstLine firstColumn isLine ?_⟩
    simp only [Fault.underlineWidth, Fault.found?]
    omega
  · rename_i tokens lexed
    rcases syntactic_of_parseTokens_fault lexed failed with ⟨token, member, message, wanted, isFault⟩
    rcases place_of_mem_tokenize lexed member with ⟨before, rest, whole, isPlace, -⟩
    have isIn : token.location.IsIn source.toList := by
      rw [whole, isPlace]
      exact Location.isIn_after before _ file
    refine ⟨token.location, by rw [isFault]; rfl, by rw [isPlace]; rfl, isIn, ?_⟩
    intro line isLine
    exact report_of_token lexed member isFault isLine isIn

/-- The offending word ends in front of a carriage return, and the number of the line below is
wider. -/
theorem report_of_parse_word :
    let source := "\n\n\n\n\n\n\n\nf 1 class\r\nq"
    ∃ fault, parse source (some "a.rby") = .error fault ∧
      fault.report false (some source) =
        "Parse Error: Expected newline, dedent or end of input, found 'class'\n" ++
        "  --> a.rby:9:5\n" ++
        "   8 \n" ++
        "   9 f 1 class\n" ++
        "         ^^^^^\n" ++
        "  10 q\n" ++
        "  = expected one of: newline, dedent, end of input\n" ∧
      fault.report true (some source) =
        "\x1b[1;31mParse Error\x1b[0m: Expected newline, dedent or end of input, found 'class'\n" ++
        "  \x1b[1;34m-->\x1b[0m a.rby:9:5\n" ++
        "  \x1b[34m 8\x1b[0m \n" ++
        "  \x1b[1;34m 9\x1b[0m f 1 class\n" ++
        "         \x1b[1;31m^^^^^\x1b[0m\n" ++
        "  \x1b[34m10\x1b[0m q\n" ++
        "  \x1b[1;34m=\x1b[0m expected one of: newline, dedent, end of input\n" ∧
      ∃ location, fault.location? = some location ∧ location.file = some "a.rby" ∧
        location.IsIn source.toList ∧
        ∀ line, (Source.lines source)[location.line - 1]? = some line →
          ∃ carets, fault.Marks source (some "a.rby") location line carets ∧
            fault.Shows source location carets := by
  intro source
  let plain :=
    "Parse Error: Expected newline, dedent or end of input, found 'class'\n" ++ "  --> a.rby:9:5\n" ++
      "   8 \n" ++ "   9 f 1 class\n" ++ "         ^^^^^\n" ++ "  10 q\n" ++
      "  = expected one of: newline, dedent, end of input\n"
  let painted :=
    "\x1b[1;31mParse Error\x1b[0m: Expected newline, dedent or end of input, found 'class'\n" ++
      "  \x1b[1;34m-->\x1b[0m a.rby:9:5\n" ++ "  \x1b[34m 8\x1b[0m \n" ++
      "  \x1b[1;34m 9\x1b[0m f 1 class\n" ++ "         \x1b[1;31m^^^^^\x1b[0m\n" ++
      "  \x1b[34m10\x1b[0m q\n" ++
      "  \x1b[1;34m=\x1b[0m expected one of: newline, dedent, end of input\n"
  have reported (coloured : Bool) :
      (Transcript.ofResult coloured source treeListing (parse source (some "a.rby"))).diagnostics =
        if coloured then painted else plain := by
    cases coloured <;> decide +kernel
  cases failed : parse source (some "a.rby") with
  | ok nodes =>
      rw [failed] at reported
      exact absurd (reported false) (by decide : "" ≠ plain)
  | error fault =>
      rw [failed] at reported
      exact ⟨fault, rfl, reported false, reported true, report_of_parse failed⟩

end Reports

end ScriptFront
