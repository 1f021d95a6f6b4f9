import ScriptFront.Proofs.Token.Exchange
import ScriptFront.Proofs.Token.Integers
import ScriptFront.Proofs.Token.Signs

/-!
# Lexemes by themselves

Reading looks ahead to tell where a token ends.  What it is, however, depends on the characters that
it covers and on nothing behind them: the text of a token, read by itself, is the same token.  The
text of a piece of a string has to stand between the quotes of that string.
-/

namespace ScriptFront

/-- The lexeme with nothing behind it. -/
def Lexeme.alone (lexeme : Lexeme) : Lexeme := { lexeme with rest := [] }

/-! ## Runs and names -/

theorem dropWhile_takeWhile (continues : Char → Bool) (input : List Char) :
    (input.takeWhile continues).dropWhile continues = [] :=
  List.dropWhile_eq_nil_iff.2 fun _ => List.mem_takeWhile_imp

/-- No letter belongs to the mark of a name. -/
theorem takeWhile_nameMark (behind : List Char) : (nameMark behind).takeWhile isWordChar = [] := by
  unfold nameMark
  split <;> (try split) <;> rfl

/-- The mark of a name is its mark also if nothing is behind it. -/
theorem nameMark_nameMark (behind : List Char) : nameMark (nameMark behind) = nameMark behind := by
  fun_cases nameMark behind <;> rfl

namespace Lexeme

theorem spacing_text (input : List Char) : spacing (spacing input).text = (spacing input).alone := by
  simp only [spacing, alone, List.takeWhile_idem, dropWhile_takeWhile]

theorem comment_text (input : List Char) : comment (comment input).text = (comment input).alone := by
  simp only [comment, alone, List.takeWhile_idem, dropWhile_takeWhile]

theorem constant_text (input : List Char) :
    constant (constant input).text = (constant input).alone := by
  simp only [constant, alone, List.takeWhile_idem, dropWhile_takeWhile]

theorem name_text (input : List Char) : name (name input).text = (name input).alone := by
  have letters : ∀ mark ∈ input.takeWhile isWordChar, isWordChar mark = true :=
    fun _ => List.mem_takeWhile_imp
  have noLetter := takeWhile_nameMark (input.dropWhile isWordChar)
  have isMark : (nameMark (input.dropWhile isWordChar)).dropWhile isWordChar =
      nameMark (input.dropWhile isWordChar) := by
    have whole := List.takeWhile_append_dropWhile (p := isWordChar)
      (l := nameMark (input.dropWhile isWordChar))
    rwa [noLetter, List.nil_append] at whole
  simp only [name, alone, List.takeWhile_append_of_pos letters,
    List.dropWhile_append_of_pos letters, noLetter, isMark, nameMark_nameMark, List.append_nil,
    List.drop_length]

end Lexeme

/-! ## Numbers -/

namespace Numeral

/-- The reading with nothing behind it. -/
def Reading.alone (reading : Reading) : Reading := { reading with rest := [] }

/-- Digits on both sides of a point are read whole. -/
theorem readDecimal_of_places
    {digits places : List Char} (eachDigit : ∀ digit ∈ digits, digit.isDigit = true)
    (eachPlace : ∀ digit ∈ places, digit.isDigit = true) (some : places ≠ []) :
    readDecimal (digits ++ '.' :: places) =
      ⟨.fractional digits places, digits ++ '.' :: places, []⟩ := by
  have noDigit : ¬('.').isDigit = true := by decide
  have isRun : places.takeWhile Char.isDigit = places := List.takeWhile_eq_self_iff.2 eachPlace
  have isRest : places.dropWhile Char.isDigit = [] := List.dropWhile_eq_nil_iff.2 eachPlace
  simp only [readDecimal, List.takeWhile_append_of_pos eachDigit,
    List.dropWhile_append_of_pos eachDigit, List.takeWhile_cons_of_neg noDigit,
    List.dropWhile_cons_of_neg noDigit, isRun, isRest, List.append_nil]

/-- A number in base ten or eight is digits, or digits on both sides of a point. -/
theorem readDecimal_cases (input : List Char) :
    ∃ digits, (∀ digit ∈ digits, digit.isDigit = true) ∧
      ((readDecimal input).alone = ⟨ofDigits digits, digits, []⟩ ∨
        ∃ places, (∀ digit ∈ places, digit.isDigit = true) ∧ places ≠ [] ∧
          (readDecimal input).alone =
            ⟨.fractional digits places, digits ++ '.' :: places, []⟩) := by
  refine ⟨input.takeWhile Char.isDigit, fun _ => List.mem_takeWhile_imp, ?_⟩
  unfold readDecimal
  split
  · rename_i behind _
    split
    · exact Or.inl rfl
    · rename_i some
      exact Or.inr ⟨_, fun _ => List.mem_takeWhile_imp, some, rfl⟩
  · exact Or.inl rfl

theorem readDecimal_text (input : List Char) :
    readDecimal (readDecimal input).text = (readDecimal input).alone := by
  change readDecimal (readDecimal input).alone.text = _
  rcases readDecimal_cases input with ⟨digits, eachDigit, isWhole | isFractional⟩
  · rw [isWhole]
    exact readDecimal_of_digits eachDigit
  · rcases isFractional with ⟨places, eachPlace, some, isFractional⟩
    rw [isFractional]
    exact readDecimal_of_places eachDigit eachPlace some

/-- The text of a number in base ten or eight has no base mark. -/
theorem mem_readDecimal_text {input : List Char} {mark : Char}
    (member : mark ∈ (readDecimal input).text) : mark.isDigit = true ∨ mark = '.' := by
  change mark ∈ (readDecimal input).alone.text at member
  rcases readDecimal_cases input with ⟨digits, eachDigit, isWhole | isFractional⟩
  · rw [isWhole] at member
    exact Or.inl (eachDigit mark member)
  · rcases isFractional with ⟨places, eachPlace, some, isFractional⟩
    rw [isFractional] at member
    rcases List.mem_append.1 member with inDigits | behind
    · exact Or.inl (eachDigit mark inDigits)
    · rcases List.mem_cons.1 behind with isPoint | inPlaces
      · exact Or.inr isPoint
      · exact Or.inl (eachPlace mark inPlaces)

theorem read_readDecimal_text (input : List Char) :
    read (readDecimal input).text = (readDecimal input).alone := by
  rw [read_eq_readDecimal, readDecimal_text]
  intro letter digit others isText
  have member : letter ∈ (readDecimal input).text := by
    rw [isText]
    simp
  have noMark (mark : Char) (noDigit : mark.isDigit = false) (noPoint : mark ≠ '.') :
      letter ≠ mark := by
    rintro rfl
    rcases mem_readDecimal_text member with isDigit | isPoint
    · cases noDigit.symm.trans isDigit
    · exact noPoint isPoint
  simp [noMark 'x' rfl (by decide), noMark 'X' rfl (by decide), noMark 'b' rfl (by decide),
    noMark 'B' rfl (by decide)]

theorem read_text (input : List Char) : read (read input).text = (read input).alone := by
  fun_cases read input with
  | case1 letter digit others isHex =>
      have first : isHexDigit digit = true := (Bool.and_eq_true_iff.1 isHex).2
      change read ('0' :: letter :: (digit :: others).takeWhile isHexDigit) = _
      rw [List.takeWhile_cons_of_pos first, read, if_pos isHex,
        ← List.takeWhile_cons_of_pos first, readBased_of_digits 16 _ fun _ => List.mem_takeWhile_imp]
      rfl
  | case2 letter digit others notHex isBinary =>
      have first : isBinaryDigit digit = true := (Bool.and_eq_true_iff.1 isBinary).2
      change read ('0' :: letter :: (digit :: others).takeWhile isBinaryDigit) = _
      rw [List.takeWhile_cons_of_pos first, read, if_neg notHex, if_pos isBinary,
        ← List.takeWhile_cons_of_pos first, readBased_of_digits 2 _ fun _ => List.mem_takeWhile_imp]
      rfl
  | case3 | case4 => exact read_readDecimal_text _

end Numeral

/-! ## Signs -/

namespace Sign

/-- A sign by itself is read as this sign. -/
theorem atFront?_text {sign : Sign} (member : sign ∈ all) : atFront? sign.text = some sign := by
  rcases atFront?_of_isPrefix member (List.prefix_refl sign.text) with ⟨best, found⟩
  have isLongest : sign.IsLongest all sign.text := by
    refine ⟨member, List.prefix_refl sign.text, ?_⟩
    intro other _ isPrefix
    exact isPrefix.length_le
  rw [found, IsLongest.eq (isLongest_of_atFront? found) isLongest]

end Sign

/-! ## One step -/

/-- Tokens of these kinds are told from others by what stands around them. -/
def Kind.isContextual : Kind → Bool
  | .fragment _ | .interpolationStart | .interpolationEnd | .endOfInput => true
  | _ => false

namespace ModeStack

variable {modes after : ModeStack} {input : List Char} {lexeme : Lexeme}

theorem codeMove_of_sign {sign : Sign} (member : sign ∈ Sign.all) (modes : ModeStack) :
    modes.codeMove sign.text = modes.signMove sign [] := by
  have every : ∀ one ∈ Sign.all, one.text.head?.all (fun first =>
      !(opensLayoutOrString first || isWordChar first)) = true := by decide +kernel
  have apart := every sign member
  have found := Sign.atFront?_text member
  have behind : sign.text.drop sign.text.length = [] := List.drop_length
  cases isText : sign.text with
  | nil => exact absurd isText (Sign.text_ne_nil member)
  | cons first others =>
      rw [isText] at apart found behind
      have noneOf : opensLayoutOrString first = false ∧ isWordChar first = false := by
        simpa using apart
      obtain ⟨opensNone, noLetter⟩ := noneOf
      have noStart : ¬isNameStart first = true := fun starts =>
        ne_true_of_eq_false noLetter (Lexeme.isWordChar_of_isNameStart starts)
      have noUpper : ¬first.isUpper = true := fun isUpper =>
        ne_true_of_eq_false noLetter (Lexeme.isWordChar_of_isUpper isUpper)
      have noDigit : ¬first.isDigit = true := by
        intro isDigit
        simp [isWordChar, isDigit] at noLetter
      rw [codeMove_cons opensNone, if_neg noDigit, if_neg noStart, if_neg noUpper, found]
      simp only [isText, behind]

/-- Outside of every inserted expression a sign is read as what it is. -/
theorem signMove_initial (sign : Sign) (rest : List Char) :
    ∃ behind, initial.signMove sign rest = .token ⟨sign.kind, sign.text, rest⟩ behind := by
  unfold signMove
  split
  · exact ⟨_, rfl⟩
  · exact ⟨_, rfl⟩
  · exact ⟨_, rfl⟩

/-- The text of a token by itself is read as the same token. -/
theorem move_text
    (step : modes.move input = .token lexeme after) (free : lexeme.kind.isContextual = false) :
    ∃ behind, initial.move lexeme.text = .token lexeme.alone behind := by
  change ∃ behind, initial.codeMove lexeme.text = .token lexeme.alone behind
  cases rule_of_move step with
  | newline | commentEnds => exact ⟨_, rfl⟩
  | @comment rest =>
      have isText : (Lexeme.comment ('#' :: rest)).text = '#' :: rest.takeWhile (· ≠ '\n') := by
        simp [Lexeme.comment]
      refine ⟨initial.push .comment, ?_⟩
      rw [← Lexeme.comment_text, isText]
      rfl
  | @spacing first rest _ isBlank =>
      have isText : (Lexeme.spacing (first :: rest)).text = first :: rest.takeWhile isSpacing :=
        List.takeWhile_cons_of_pos isBlank
      refine ⟨initial, ?_⟩
      rw [← Lexeme.spacing_text, isText]
      exact codeMove_of_isSpacing isBlank _ _
  | @number first rest kind _ isDigit hasKind =>
      have isReading := Numeral.read_text (first :: rest)
      have whole := Numeral.read_append (first :: rest)
      cases isText : (Numeral.read (first :: rest)).text with
      | nil => exact absurd isText (Numeral.read_text_ne_nil isDigit)
      | cons head others =>
          rw [isText, List.cons_append] at whole
          obtain rfl : head = first := (List.cons.inj whole).1
          rw [isText] at isReading hasKind
          refine ⟨initial, ?_⟩
          rw [codeMove_of_isDigit isDigit, isReading]
          simp only [numberMove, Numeral.Reading.alone, isText, hasKind, Lexeme.alone]
  | @name first rest _ starts =>
      have isText : ∃ others, (Lexeme.name (first :: rest)).text = first :: others := by
        have isLetter := Lexeme.isWordChar_of_isNameStart starts
        simp [Lexeme.name, List.takeWhile_cons_of_pos isLetter]
      obtain ⟨others, isText⟩ := isText
      refine ⟨initial, ?_⟩
      rw [← Lexeme.name_text, isText]
      exact codeMove_of_isNameStart starts _ _
  | @constant first rest _ isUpper =>
      have isText : (Lexeme.constant (first :: rest)).text = first :: rest.takeWhile isWordChar :=
        List.takeWhile_cons_of_pos (Lexeme.isWordChar_of_isUpper isUpper)
      refine ⟨initial, ?_⟩
      rw [← Lexeme.constant_text, isText]
      exact codeMove_of_isUpper isUpper _ _
  | @sign _ sign _ _ found =>
      obtain ⟨behind, read⟩ := signMove_initial sign []
      exact ⟨behind, (codeMove_of_sign (Sign.atFront?_mem found) initial).trans read⟩
  | ending | insertionEnds | plainPiece | richPiece | insertionStarts => cases free

end ModeStack

/-! ## Pieces between quotes -/

/-- The piece of a string at the front of a text, by the rules of a mode. -/
def Mode.piece? : Mode → List Char → Option Segment
  | .plainString => Segment.plain?
  | .richString => Segment.rich?
  | .code | .comment => fun _ => none

section Delimited

variable {mode : Mode} {mark : Char} (delimits : mode.delimiter? = some mark)

include delimits

/-- Wherever a piece ended, it ends in front of the quote too. -/
theorem Mode.piece?_text {input : List Char} {segment : Segment}
    (found : mode.piece? input = some segment) :
    mode.piece? (segment.text ++ [mark]) = some { segment with rest := [mark] } := by
  cases mode with
  | plainString =>
      obtain rfl := Option.some.inj delimits
      exact Segment.plain?_text found []
  | richString =>
      obtain rfl := Option.some.inj delimits
      exact Segment.rich?_text found rfl
  | code | comment => cases delimits

namespace ModeStack

theorem move_opens (rest : List Char) :
    initial.move (mark :: rest) = .quote mark rest (initial.push mode) := by
  cases mode with
  | plainString | richString =>
      obtain rfl := Option.some.inj delimits
      rfl
  | code | comment => cases delimits

theorem move_content (input : List Char) :
    (initial.push mode).move input = (initial.push mode).segmentMove (mode.piece? input) := by
  cases mode with
  | plainString | richString => rfl
  | code | comment => cases delimits

theorem move_closes (rest : List Char) :
    ((initial.push mode).setSegmentOpen false).move (mark :: rest) =
      .quote mark rest initial := by
  cases mode with
  | plainString | richString =>
      obtain rfl := Option.some.inj delimits
      rfl
  | code | comment => cases delimits

end ModeStack

/-- A piece between its quotes is all that is read. -/
theorem tokenize_piece
    {text value : List Char} (isPiece : mode.piece? (text ++ [mark]) = some ⟨value, text, [mark]⟩)
    (file : Option String) :
    tokenize (String.ofList (mark :: (text ++ [mark]))) file =
      .ok [⟨.fragment (String.ofList value), String.ofList text, ⟨1, 2, file⟩, false⟩,
        ⟨.endOfInput, "", (Position.start.after (mark :: (text ++ [mark]))).inFile file, false⟩] := by
  have secondColumn : Position.start.step mark = ⟨1, 2⟩ := by
    rcases Mode.eq_quote_of_delimiter? delimits with rfl | rfl <;> rfl
  have content : (ModeStack.initial.push mode).move (text ++ [mark]) =
      .token ⟨.fragment (String.ofList value), text, [mark]⟩
        ((ModeStack.initial.push mode).setSegmentOpen false) := by
    rw [ModeStack.move_content delimits, isPiece]
    rfl
  have atEnd : ModeStack.initial.move [] = .token ⟨.endOfInput, [], []⟩ .initial := rfl
  rw [tokenize_eq, String.toList_ofList,
    Scanner.items_of_quote (ModeStack.move_opens delimits _),
    Scanner.items_of_token content Kind.noConfusion,
    Scanner.items_of_quote (ModeStack.move_closes delimits []),
    Scanner.items_of_last atEnd rfl,
    significantTokens_cons_ok, significantTokens_cons_ok]
  simp only [Scanner.token, Scanner.afterToken, Scanner.afterQuote, Scanner.start, secondColumn,
    Position.after_cons, Position.after_append, Position.after_nil]
  rfl

end Delimited

/-- A piece of a string is read by the rules of the quotes that stand around the string. -/
theorem ModeStack.piece_of_move
    {modes after : ModeStack} {input : List Char} {lexeme : Lexeme} {value : String}
    (step : modes.move input = .token lexeme after) (isFragment : lexeme.kind = .fragment value) :
    ∃ mark segment, modes.mode.delimiter? = some mark ∧ modes.mode.piece? input = some segment ∧
      value = String.ofList segment.value ∧ lexeme.text = segment.text := by
  cases rule_of_move step with
  | @plainPiece _ segment isPlain _ found =>
      rw [isPlain]
      exact ⟨'\'', segment, rfl, found, (Kind.fragment.inj isFragment).symm, rfl⟩
  | @richPiece _ segment isRich _ found =>
      rw [isRich]
      exact ⟨'"', segment, rfl, found, (Kind.fragment.inj isFragment).symm, rfl⟩
  | number _ _ hasKind =>
      rcases Numeral.kind_cases hasKind with ⟨number, rfl⟩ | ⟨number, rfl⟩ <;> cases isFragment
  | @name first rest =>
      rcases Lexeme.kind_name_cases (first :: rest) with ⟨text, isKind⟩ | ⟨keyword, isKind⟩ <;>
        cases isKind.symm.trans isFragment
  | sign _ found =>
      rcases Sign.kind_cases (Sign.atFront?_mem found) with ⟨operator, isKind⟩ | ⟨mark, isKind⟩ <;>
        cases isKind.symm.trans isFragment
  | ending | newline | comment | spacing | constant | insertionEnds | insertionStarts
  | commentEnds => cases isFragment

/-! ## Every token of a text -/

/-- The token is read from a text, in a string between these quotes. -/
def Token.ReadBetween
    (source : String) (file : Option String) (mark : Char) (token : Token) : Prop :=
  ∃ front place lexeme modes, Scanner.Reaches file (.start source.toList) front place ∧
    place.modes.mode.delimiter? = some mark ∧
      place.modes.move place.rest = .token lexeme modes ∧ token = place.token file lexeme

/-- The first item of the text of a token is the token. -/
theorem head?_rawItems_text
    {modes after : ModeStack} {input : List Char} {lexeme : Lexeme}
    (step : modes.move input = .token lexeme after) (free : lexeme.kind.isContextual = false)
    (file : Option String) :
    (rawItems (String.ofList lexeme.text) file).head? =
      some (.ok ⟨lexeme.kind, String.ofList lexeme.text, ⟨1, 1, file⟩, false⟩) := by
  obtain ⟨behind, alone⟩ := ModeStack.move_text step free
  have isStart : (Scanner.start lexeme.text).modes.move (Scanner.start lexeme.text).rest =
      .token lexeme.alone behind := alone
  have more : lexeme.alone.kind ≠ .endOfInput := by
    intro ended
    cases (congrArg Kind.isContextual ended).symm.trans free
  have items : rawItems (String.ofList lexeme.text) file =
      (Scanner.start (String.ofList lexeme.text).toList).items file := rfl
  rw [items, String.toList_ofList, Scanner.items_of_token isStart more]
  rfl

/-- The text of a piece of a string is read as this piece between the quotes of its string. -/
theorem Token.ReadBetween.tokenize
    {source : String} {file : Option String} {token : Token} {mark : Char} {value : String}
    (read : token.ReadBetween source file mark) (isFragment : token.kind = .fragment value)
    (other : Option String) :
    ScriptFront.tokenize (String.ofList (mark :: (token.lexeme.toList ++ [mark]))) other =
      .ok [⟨.fragment value, token.lexeme, ⟨1, 2, other⟩, false⟩,
        ⟨.endOfInput, "",
          (Position.start.after (mark :: (token.lexeme.toList ++ [mark]))).inFile other, false⟩] := by
  obtain ⟨front, place, lexeme, modes, -, delimits, step, rfl⟩ := read
  obtain ⟨-, segment, -, found, rfl, isText⟩ := ModeStack.piece_of_move step isFragment
  have isLexeme : (place.token file lexeme).lexeme = String.ofList segment.text :=
    congrArg String.ofList isText
  rw [isLexeme, String.toList_ofList]
  exact tokenize_piece delimits (Mode.piece?_text delimits found) other

/-- Whatever a text is, the text of each of its tokens determines the token: read by itself, it
starts with a token of the same kind, value and text.  The text of a piece of a string, be it in
front of the closing quote or of an inserted expression, is read between the quotes of its string as
this piece and nothing else. -/
theorem lexeme_determines_token
    {source : String} {file : Option String} {token : Token}
    (isItem : .ok token ∈ rawItems source file) (other : Option String) :
    (token.kind.isContextual = false →
      (rawItems token.lexeme other).head? =
        some (.ok ⟨token.kind, token.lexeme, ⟨1, 1, other⟩, false⟩)) ∧
    ∀ value, token.kind = .fragment value →
      (∃ mark, token.ReadBetween source file mark) ∧
      ∀ mark, token.ReadBetween source file mark →
        tokenize (String.ofList (mark :: (token.lexeme.toList ++ [mark]))) other =
          .ok [⟨.fragment value, token.lexeme, ⟨1, 2, other⟩, false⟩,
            ⟨.endOfInput, "",
              (Position.start.after (mark :: (token.lexeme.toList ++ [mark]))).inFile other,
              false⟩] := by
  have isAhead : .ok token ∈ (Scanner.start source.toList).items file := isItem
  have sound := Scanner.sound_start source.toList
  rcases sound.reaches_of_item isAhead with ⟨front, place, lexeme, modes, reaches, step, rfl⟩
  constructor
  · intro free
    exact head?_rawItems_text step free other
  · intro value isFragment
    constructor
    · obtain ⟨mark, -, delimits, -⟩ := ModeStack.piece_of_move step isFragment
      exact ⟨mark, front, place, lexeme, modes, reaches, delimits, step, rfl⟩
    · intro mark read
      exact read.tokenize isFragment other

/-- A piece with an escape in front of an inserted expression, and a number that ends in front of a
letter. -/
theorem lexeme_determines_token_inserted :
    (.ok ⟨.fragment "#", "\\#", ⟨1, 2, none⟩, false⟩ ∈ rawItems "\"\\##\x7b0x1g\x7d\"" none ∧
      Token.ReadBetween "\"\\##\x7b0x1g\x7d\"" none '"'
        ⟨.fragment "#", "\\#", ⟨1, 2, none⟩, false⟩ ∧
      tokenize "\"\\#\"" none =
        .ok [⟨.fragment "#", "\\#", ⟨1, 2, none⟩, false⟩, ⟨.endOfInput, "", ⟨1, 5, none⟩, false⟩]) ∧
    .ok ⟨.integer 1, "0x1", ⟨1, 6, none⟩, false⟩ ∈ rawItems "\"\\##\x7b0x1g\x7d\"" none ∧
      (rawItems "0x1" none).head? = some (.ok ⟨.integer 1, "0x1", ⟨1, 1, none⟩, false⟩) := by
  have items : rawItems "\"\\##\x7b0x1g\x7d\"" none =
      [.ok ⟨.fragment "#", "\\#", ⟨1, 2, none⟩, false⟩,
        .ok ⟨.interpolationStart, "#\x7b", ⟨1, 4, none⟩, false⟩,
        .ok ⟨.integer 1, "0x1", ⟨1, 6, none⟩, false⟩,
        .ok ⟨.identifier "g", "g", ⟨1, 9, none⟩, false⟩,
        .ok ⟨.interpolationEnd, "\x7d", ⟨1, 10, none⟩, false⟩,
        .ok ⟨.fragment "", "", ⟨1, 11, none⟩, false⟩,
        .ok ⟨.endOfInput, "", ⟨1, 12, none⟩, false⟩] := by
    with_unfolding_all rfl
  have isPiece : .ok ⟨.fragment "#", "\\#", ⟨1, 2, none⟩, false⟩ ∈
      rawItems "\"\\##\x7b0x1g\x7d\"" none := by
    rw [items]
    exact List.mem_cons_self
  have isNumber : .ok ⟨.integer 1, "0x1", ⟨1, 6, none⟩, false⟩ ∈
      rawItems "\"\\##\x7b0x1g\x7d\"" none := by
    rw [items]
    simp
  have read : Token.ReadBetween "\"\\##\x7b0x1g\x7d\"" none '"'
      ⟨.fragment "#", "\\#", ⟨1, 2, none⟩, false⟩ :=
    ⟨[], _, _, _, .quote rfl .here, rfl, rfl, rfl⟩
  refine ⟨⟨isPiece, read, ?_⟩, isNumber, (lexeme_determines_token isNumber none).1 rfl⟩
  exact ((lexeme_determines_token isPiece none).2 "#" rfl).2 '"' read

end ScriptFront
