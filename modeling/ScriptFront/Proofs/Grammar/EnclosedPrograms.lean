import ScriptFront.Proofs.Grammar.Delimiters
import ScriptFront.Proofs.Grammar.ProgramLines
import ScriptFront.Proofs.Token.Enclosing

/-!
# Programs between delimiters

A program that is one expression in one line may be put between parentheses or brackets, behind the
name of a method, or into a string, with a blank behind it.  It is read as the same expression
there.
-/

namespace ScriptFront

/-! ## Texts in strings -/

/-- A character as it is written between double quotes to stand for itself. -/
def escapedChar : Char → List Char
  | '\\' => ['\\', '\\']
  | '"' => ['\\', '"']
  | '#' => ['\\', '#']
  | other => [other]

/-- A text as it is written between double quotes. -/
def escaped (text : String) : String := String.ofList (text.toList.flatMap escapedChar)

namespace Segment

/-- A text that is written with escapes is read back, up to where its piece ends. -/
theorem rich?_escaped
    {behind : List Char} (ends : rich? behind = some ⟨[], [], behind⟩) (text : List Char) :
    rich? (text.flatMap escapedChar ++ behind) =
      some ⟨text, text.flatMap escapedChar, behind⟩ := by
  induction text with
  | nil => exact ends
  | cons first others inductionHypothesis =>
      rw [List.flatMap_cons, List.append_assoc]
      by_cases isSlash : first = '\\'
      · subst isSlash
        simp [escapedChar, rich?, inductionHypothesis, prepend, unescape]
      by_cases isQuote : first = '"'
      · subst isQuote
        simp [escapedChar, rich?, inductionHypothesis, prepend, unescape]
      by_cases isSign : first = '#'
      · subst isSign
        simp [escapedChar, rich?, inductionHypothesis, prepend, unescape]
      simp [escapedChar, isSlash, isSign, rich?, inductionHypothesis, prepend]

end Segment

/-! ## Reading at other places -/

namespace Phrase

variable {form : Form} {cursor next : Cursor} {value : form.Value}

theorem Reads.moved (reads : Reads form cursor value next) (move : Location → Location) :
    Reads form (cursor.moved move) value (next.moved move) := by
  have moves : run form (cursor.moved move) = movedResult move (run form cursor) :=
    Phrase.moved move form cursor
  rw [run_of_reads reads] at moves
  exact reads_of_run moves

theorem Reads.of_moved
    {move : Location → Location} {last : Cursor}
    (reads : Reads form (cursor.moved move) value last) : ∃ next, Reads form cursor value next := by
  have moves : run form (cursor.moved move) = movedResult move (run form cursor) :=
    Phrase.moved move form cursor
  rw [run_of_reads reads] at moves
  cases found : run form cursor with
  | error stuck =>
      rw [found] at moves
      cases moves
  | ok reached =>
      rcases reached with ⟨other, next⟩
      rw [found] at moves
      obtain ⟨rfl, -⟩ := Prod.mk.inj (Except.ok.inj moves)
      exact ⟨next, reads_of_run found⟩

theorem IsWhole.moved
    {cursor last : Cursor} {node : Node} (whole : IsWhole cursor node last)
    (move : Location → Location) : IsWhole (cursor.moved move) node (last.moved move) where
  reads := whole.reads.moved move
  isEnd := by rw [Cursor.moved, whole.isEnd]; rfl
  noIndent := by
    intro token member
    rcases List.mem_map.1 member with ⟨original, isMember, rfl⟩
    exact whole.noIndent original isMember
  inLine := whole.inLine

open ScriptFront.Bracket in
/-- An expression closes the braces that it opens. -/
theorem IsWhole.nested
    {read : List Token} {ending : Ending} {node : Node} {last : Cursor}
    (whole : IsWhole ⟨Token.significant read, ending, false⟩ node last) :
    Nested (only isBraced (read.map Token.kind)) := by
  have passes : Cursor.Passes ⟨Token.significant read, ending, false⟩ last := whole.reads.passes
  rcases passes.leaves_bodies with ⟨passed, bodies, isPassed, -, leaves, -⟩
  have isAll : Token.significant read = passed := by
    rw [whole.isEnd, List.append_nil] at isPassed
    exact isPassed
  have kept := unclosed_filter isBraced leaves
  have noBody : (List.replicate bodies Bracket.body).filter isBraced = [] := by
    simp [isBraced]
  rw [Nested, only_significant, isAll]
  exact kept.trans (congrArg some noBody)

end Phrase

namespace Scanner

variable {file : Option String} {source : String} {read : List Token} {last : Scanner}

/-- A text that is read up to its end forms tokens. -/
theorem Reaches.tokenize
    (reaches : Reaches file (start source.toList) read last) (atEnd : last.AtEnd) :
    tokenize source file =
      .ok (Token.significant read ++ [last.token file ⟨.endOfInput, [], []⟩]) := by
  rw [tokenize_eq, reaches.items, items_of_last atEnd.move rfl, significantTokens_append]
  rfl

/-- A text is a program if its tokens, wherever they stand, are one. -/
theorem Reaches.parse
    {nodes : List Node} {next : Cursor}
    (reaches : Reaches file (start source.toList) read last) (atEnd : last.AtEnd)
    (reads : Phrase.Reads (.statements false)
      ⟨(Token.significant read).map Token.unplaced, ⟨default, last.spaced⟩, false⟩ nodes next) :
    parse source file = .ok nodes := by
  rw [ScriptFront.parse, reaches.tokenize atEnd]
  refine parseTokens_eq_ok_iff.2 ?_
  rw [Cursor.ofTokens_of_written reaches.written rfl]
  have isMoved : Phrase.Reads (.statements false)
      (Cursor.moved (fun _ => default) ⟨Token.significant read,
        ⟨(last.token file ⟨.endOfInput, [], []⟩).location,
          (last.token file ⟨.endOfInput, [], []⟩).spaced⟩, false⟩) nodes next := reads
  exact isMoved.of_moved

theorem reaches_of_parse
    {nodes : List Node} (parsed : ScriptFront.parse source file = .ok nodes) :
    ∃ read last, Reaches file (start source.toList) read last ∧ last.AtEnd := by
  rw [ScriptFront.parse] at parsed
  cases lexed : ScriptFront.tokenize source file with
  | error fault =>
      rw [lexed] at parsed
      cases parsed
  | ok tokens =>
      rcases reaches_of_tokenize lexed with ⟨read, last, reaches, atEnd, -⟩
      exact ⟨read, last, reaches, atEnd⟩

/-- The tokens of a program, wherever they stand, are one. -/
theorem Reaches.reads_of_parse
    {nodes : List Node} (reaches : Reaches file (start source.toList) read last)
    (atEnd : last.AtEnd) (parsed : ScriptFront.parse source file = .ok nodes) :
    ∃ ending next, Phrase.Reads (.statements false)
      ⟨(Token.significant read).map Token.unplaced, ending, false⟩ nodes next := by
  rw [ScriptFront.parse, reaches.tokenize atEnd] at parsed
  rcases parseTokens_eq_ok_iff.1 parsed with ⟨next, reads⟩
  rw [Cursor.ofTokens_of_written reaches.written rfl] at reads
  exact ⟨_, _, reads.moved fun _ => default⟩

/-- The text is one expression in one line. -/
structure ReadsWhole
    (file : Option String) (source : String) (node : Node) (read : List Token) (last : Scanner) :
    Prop where
  reaches : Reaches file (start source.toList) read last
  atEnd : last.AtEnd
  inLine : ∀ token ∈ read, token.kind ≠ .newline
  whole : ∃ ending place, Phrase.IsWhole ⟨Token.significant read, ending, false⟩ node place

theorem readsWhole_of_parse
    {tokens : List Token} {node : Node} (lexed : tokenize source file = .ok tokens)
    (inLine : ∀ token ∈ tokens, token.kind ≠ .newline)
    (parsed : ScriptFront.parse source file = .ok [node])
    (noPair : ¬(Cursor.ofTokens tokens).StartsPair) :
    ∃ read last, ReadsWhole file source node read last := by
  rcases reaches_of_tokenize lexed with ⟨read, last, reaches, atEnd, rfl⟩
  rw [ScriptFront.parse, lexed] at parsed
  rcases parseTokens_eq_ok_iff.1 parsed with ⟨place, reads⟩
  rw [Cursor.ofTokens_of_written reaches.written rfl] at reads noPair
  have inLineRead : ∀ token ∈ Token.significant read, token.kind ≠ .newline :=
    fun token member => inLine token (List.mem_append_left _ member)
  have noIndent := Cursor.noIndent_of_written reaches.written
  rcases Phrase.isWhole_of_statements reads inLineRead noIndent rfl noPair with ⟨next, whole⟩
  refine ⟨read, last, reaches, atEnd, ?_, _, next, whole⟩
  intro token member isNewline
  refine inLineRead token (List.mem_filter.2 ⟨member, ?_⟩) isNewline
  rw [Token.isTrivia, isNewline]
  rfl

/-- What is read around an expression is read there with the expression in it. -/
theorem ReadsWhole.parse_around
    {text : String} {node result : Node} {inserted : Bool} {outer : List Frame} {more : List Char}
    {before opening closing : List Token} {place : Scanner}
    (readsWhole : ReadsWhole file source node read last)
    (opens : Reaches file (start text.toList) before place)
    (rest : place.rest = source.toList ++ ' ' :: more)
    (modes : place.modes = ModeStack.initial.onto inserted outer) (unspaced : place.spaced = false)
    (isOpening : (Token.significant before).map Token.unplaced = opening)
    (stops : more.dropWhile isSpacing = more)
    (closes : ∀ {final : Scanner}, final.rest = more →
      final.modes = ModeStack.initial.onto inserted outer → final.spaced = true →
        ∃ after stop, Reaches file final after stop ∧ stop.AtEnd ∧
          (Token.significant after).map Token.unplaced = closing)
    (reads : ∀ {cursor last : Cursor}, Phrase.IsWhole cursor node last → ∀ ending,
      ∃ next, Phrase.Reads (.statements false)
        ⟨opening ++ (cursor.ahead ++ closing), ending, false⟩
        [result] next) :
    ScriptFront.parse text file = .ok [result] := by
  rcases readsWhole.whole with ⟨ending, behind, whole⟩
  have within : Within inserted outer more (start source.toList) place := ⟨rest, modes, unspaced⟩
  rcases readsWhole.reaches.within (sound_start _) readsWhole.atEnd readsWhole.inLine whole.nested
    stops within with ⟨inner, final, reaches, isRest, isModes, isSpaced, same⟩
  rcases closes isRest isModes isSpaced with ⟨after, stop, further, atEnd, isClosing⟩
  rcases reads (whole.moved fun _ => default) ⟨default, stop.spaced⟩ with ⟨next, isProgram⟩
  have reachesEnd := opens.append (reaches.append further)
  have isText : (Token.significant (before ++ (inner ++ after))).map Token.unplaced =
      opening ++ ((Token.significant read).map Token.unplaced ++ closing) := by
    rw [Token.significant, List.filter_append, List.filter_append, List.map_append, List.map_append]
    exact congr (congrArg _ isOpening) (congr (congrArg _ same) isClosing)
  have isProgramOfText : Phrase.Reads (.statements false)
      ⟨(Token.significant (before ++ (inner ++ after))).map Token.unplaced, ⟨default, stop.spaced⟩,
        false⟩ [result] next := by
    rw [isText]
    exact isProgram
  exact reachesEnd.parse atEnd isProgramOfText

/-! ## Brackets -/

/-- Behind the blank a bracket is closed, and the text ends. -/
theorem reaches_closer
    {closer : Mark} {sign : Char} {final : Scanner}
    (step : ModeStack.initial.move [sign] = .token ⟨.mark closer, [sign], []⟩ .initial)
    (isRest : final.rest = [sign]) (isModes : final.modes = .initial)
    (isSpaced : final.spaced = true) :
    ∃ after stop, Reaches file final after stop ∧ stop.AtEnd ∧
      (Token.significant after).map Token.unplaced =
        [⟨.mark closer, String.ofList [sign], default, true⟩] := by
  have stepHere : final.modes.move final.rest = .token ⟨.mark closer, [sign], []⟩ .initial := by
    rw [isRest, isModes]
    exact step
  refine ⟨_, _, .token stepHere rfl .here, ⟨rfl, rfl, rfl⟩, ?_⟩
  rw [← isSpaced]
  rfl

variable {node : Node}

theorem ReadsWhole.parse_group (readsWhole : ReadsWhole file source node read last) :
    ScriptFront.parse ("(" ++ source ++ " )") file = .ok [.group node] := by
  have isText : ("(" ++ source ++ " )").toList = '(' :: (source.toList ++ [' ', ')']) := by simp
  have step : ModeStack.initial.move ("(" ++ source ++ " )").toList =
      .token ⟨.mark .leftParen, ['('], source.toList ++ [' ', ')']⟩ .initial := by
    rw [isText]
    rfl
  exact readsWhole.parse_around (.token step rfl .here) rfl rfl rfl rfl rfl (reaches_closer rfl)
    fun whole ending => ⟨_, whole.program_group rfl rfl rfl⟩

theorem ReadsWhole.parse_array (readsWhole : ReadsWhole file source node read last) :
    ScriptFront.parse ("[" ++ source ++ " ]") file = .ok [.array [node]] := by
  have isText : ("[" ++ source ++ " ]").toList = '[' :: (source.toList ++ [' ', ']']) := by simp
  have step : ModeStack.initial.move ("[" ++ source ++ " ]").toList =
      .token ⟨.mark .leftBracket, ['['], source.toList ++ [' ', ']']⟩ .initial := by
    rw [isText]
    rfl
  exact readsWhole.parse_around (.token step rfl .here) rfl rfl rfl rfl rfl (reaches_closer rfl)
    fun whole ending => ⟨_, whole.program_array rfl rfl rfl⟩

theorem ReadsWhole.parse_call (readsWhole : ReadsWhole file source node read last) :
    ScriptFront.parse ("f(" ++ source ++ " )") file = .ok [.call "f" [node] none] := by
  have isText : ("f(" ++ source ++ " )").toList = 'f' :: '(' :: (source.toList ++ [' ', ')']) := by
    simp
  have step : ModeStack.initial.move ("f(" ++ source ++ " )").toList =
      .token ⟨.identifier "f", ['f'], '(' :: (source.toList ++ [' ', ')'])⟩ .initial := by
    rw [isText]
    rfl
  have opens : ModeStack.initial.move ('(' :: (source.toList ++ [' ', ')'])) =
      .token ⟨.mark .leftParen, ['('], source.toList ++ [' ', ')']⟩ .initial := rfl
  exact readsWhole.parse_around (.token step rfl (.token opens rfl .here)) rfl rfl rfl rfl
    rfl (reaches_closer rfl) fun whole ending => ⟨_, whole.program_call rfl rfl rfl rfl rfl⟩

/-! ## Strings -/

/-- In a string, in front of a piece of it. -/
def inString : ModeStack := ModeStack.initial.push .richString

/-- The text is the next piece of the string. -/
theorem move_escaped
    {behind : List Char} (ends : Segment.rich? behind = some ⟨[], [], behind⟩) (text : String) :
    inString.move ((escaped text).toList ++ behind) =
      .token ⟨.fragment text, (escaped text).toList, behind⟩ (inString.setSegmentOpen false) := by
  have found : Segment.rich? ((escaped text).toList ++ behind) =
      some ⟨text.toList, (escaped text).toList, behind⟩ := by
    rw [escaped, String.toList_ofList]
    exact Segment.rich?_escaped ends text.toList
  have step : inString.move ((escaped text).toList ++ behind) =
      inString.segmentMove (Segment.rich? ((escaped text).toList ++ behind)) := rfl
  rw [step, found, ModeStack.segmentMove, String.ofList_toList]

/-- A string is read up to the expression inserted into it. -/
theorem reaches_opening_text
    {source text : String} {rest : List Char}
    (isText : source.toList = '"' :: ((escaped text).toList ++ '#' :: '{' :: rest)) :
    ∃ before place, Reaches file (start source.toList) before place ∧ place.rest = rest ∧
      place.modes = ModeStack.initial.onto true inString.frames ∧ place.spaced = false ∧
        (Token.significant before).map Token.unplaced =
          [⟨.fragment text, String.ofList (escaped text).toList, default, false⟩,
            ⟨.interpolationStart, String.ofList ['#', '{'], default, false⟩] := by
  have quote : ModeStack.initial.move source.toList =
      .quote '"' ((escaped text).toList ++ '#' :: '{' :: rest) inString := by
    rw [isText]
    rfl
  have piece : inString.move ((escaped text).toList ++ '#' :: '{' :: rest) =
      .token ⟨.fragment text, (escaped text).toList, '#' :: '{' :: rest⟩
        (inString.setSegmentOpen false) := move_escaped rfl text
  have opens : (inString.setSegmentOpen false).move ('#' :: '{' :: rest) =
      .token ⟨.interpolationStart, ['#', '{'], rest⟩
        (ModeStack.initial.onto true inString.frames) := rfl
  exact ⟨_, _, .quote quote (.token piece rfl (.token opens rfl .here)), rfl, rfl, rfl, rfl⟩

/-- Behind the blank the expression ends, and the string is read up to its end. -/
theorem reaches_closing_text
    {final : Scanner} {text : String} (isRest : final.rest = '}' :: ((escaped text).toList ++ ['"']))
    (isModes : final.modes = ModeStack.initial.onto true inString.frames)
    (isSpaced : final.spaced = true) :
    ∃ after stop, Reaches file final after stop ∧ stop.AtEnd ∧
      (Token.significant after).map Token.unplaced =
        [⟨.interpolationEnd, String.ofList ['}'], default, true⟩,
          ⟨.fragment text, String.ofList (escaped text).toList, default, false⟩] := by
  have closes : final.modes.move final.rest =
      .token ⟨.interpolationEnd, ['}'], (escaped text).toList ++ ['"']⟩ inString := by
    rw [isRest, isModes]
    rfl
  have piece : inString.move ((escaped text).toList ++ ['"']) =
      .token ⟨.fragment text, (escaped text).toList, ['"']⟩ (inString.setSegmentOpen false) :=
    move_escaped rfl text
  have quote : (inString.setSegmentOpen false).move ['"'] = .quote '"' [] .initial := rfl
  refine ⟨_, _, .token closes rfl (.token piece rfl (.quote quote .here)), ⟨rfl, rfl, rfl⟩, ?_⟩
  rw [← isSpaced]
  rfl

theorem ReadsWhole.parse_interpolated
    (readsWhole : ReadsWhole file source node read last) (first second : String) :
    ScriptFront.parse
        ("\"" ++ escaped first ++ "#\x7b" ++ source ++ " \x7d" ++ escaped second ++ "\"") file =
      .ok [.interpolated [.text first, .interpolation node, .text second]] := by
  have isText : ("\"" ++ escaped first ++ "#\x7b" ++ source ++ " \x7d" ++ escaped second ++
      "\"").toList = '"' :: ((escaped first).toList ++
        '#' :: '{' :: (source.toList ++ ' ' :: '}' :: ((escaped second).toList ++ ['"']))) := by
    simp
  rcases reaches_opening_text isText with ⟨before, place, opens, isRest, isModes, unspaced, isBefore⟩
  exact readsWhole.parse_around opens isRest isModes unspaced isBefore rfl reaches_closing_text
    fun whole ending => ⟨_, whole.program_inserted rfl rfl rfl rfl rfl rfl⟩

end Scanner

/-- An expression in one line, with a blank behind it, is read as the same expression between
parentheses and brackets, as the argument of a call, and between any two texts of a string. -/
theorem parse_enclosed
    {source : String} {file : Option String} {tokens : List Token} {node : Node}
    (lexed : tokenize source file = .ok tokens)
    (inLine : ∀ token ∈ tokens, token.kind ≠ .newline)
    (parsed : parse source file = .ok [node])
    (noPair : ¬(Cursor.ofTokens tokens).StartsPair) :
    parse ("(" ++ source ++ " )") file = .ok [.group node] ∧
      parse ("[" ++ source ++ " ]") file = .ok [.array [node]] ∧
      parse ("f(" ++ source ++ " )") file = .ok [.call "f" [node] none] ∧
      ∀ first second : String,
        parse ("\"" ++ escaped first ++ "#\x7b" ++ source ++ " \x7d" ++ escaped second ++ "\"") file =
          .ok [.interpolated [.text first, .interpolation node, .text second]] := by
  rcases Scanner.readsWhole_of_parse lexed inLine parsed noPair with ⟨read, last, readsWhole⟩
  exact ⟨readsWhole.parse_group, readsWhole.parse_array, readsWhole.parse_call,
    readsWhole.parse_interpolated⟩

/-- A hash with a string in it, into which an expression is inserted, in parentheses and between two
texts that have to be escaped. -/
theorem parse_enclosed_hash :
    ∃ tokens node, tokenize "\x7b1: \"#\x7b2\x7d\"\x7d" none = .ok tokens ∧
      (∀ token ∈ tokens, token.kind ≠ .newline) ∧
      parse "\x7b1: \"#\x7b2\x7d\"\x7d" none = .ok [node] ∧
      ¬(Cursor.ofTokens tokens).StartsPair ∧
      parse ("(" ++ "\x7b1: \"#\x7b2\x7d\"\x7d" ++ " )") none = .ok [.group node] ∧
      parse ("\"" ++ escaped "\"" ++ "#\x7b" ++ "\x7b1: \"#\x7b2\x7d\"\x7d" ++ " \x7d" ++
          escaped "\\#" ++ "\"") none =
        .ok [.interpolated [.text "\"", .interpolation node, .text "\\#"]] := by
  obtain ⟨tokens, isTokens⟩ : ∃ tokens : List Token, tokens =
      [⟨.mark .leftBrace, "\x7b", ⟨1, 1, none⟩, false⟩, ⟨.integer 1, "1", ⟨1, 2, none⟩, false⟩,
        ⟨.mark .colon, ":", ⟨1, 3, none⟩, false⟩, ⟨.fragment "", "", ⟨1, 6, none⟩, true⟩,
        ⟨.interpolationStart, "#\x7b", ⟨1, 6, none⟩, false⟩,
        ⟨.integer 2, "2", ⟨1, 8, none⟩, false⟩,
        ⟨.interpolationEnd, "\x7d", ⟨1, 9, none⟩, false⟩,
        ⟨.fragment "", "", ⟨1, 10, none⟩, false⟩,
        ⟨.mark .rightBrace, "\x7d", ⟨1, 11, none⟩, false⟩,
        ⟨.endOfInput, "", ⟨1, 12, none⟩, false⟩] := ⟨_, rfl⟩
  have lexed : tokenize "\x7b1: \"#\x7b2\x7d\"\x7d" none = .ok tokens := by
    rw [isTokens]
    with_unfolding_all rfl
  have inLine : ∀ token ∈ tokens, token.kind ≠ .newline := by
    rw [isTokens]
    decide
  have parsed : parse "\x7b1: \"#\x7b2\x7d\"\x7d" none =
      .ok [.hash [⟨.integer 1, .interpolated [.text "", .interpolation (.integer 2), .text ""]⟩]] := by
    with_unfolding_all rfl
  have noPair : ¬(Cursor.ofTokens tokens).StartsPair := by
    rintro ⟨pair, next, read⟩
    have isHash : (Phrase.entry false (Cursor.ofTokens tokens)).result.map Prod.fst =
        .ok (.single (.hash [⟨.integer 1,
          .interpolated [.text "", .interpolation (.integer 2), .text ""]⟩])) := by
      subst isTokens
      with_unfolding_all rfl
    rw [read] at isHash
    cases isHash
  obtain ⟨group, -, -, interpolated⟩ := parse_enclosed lexed inLine parsed noPair
  exact ⟨tokens, _, lexed, inLine, parsed, noPair, group, interpolated "\"" "\\#"⟩

end ScriptFront
