import Mathlib.Data.List.Induction
import ScriptFront.Proofs.Token.Shape

/-!
# Where tokens lie

The tokens of a text lie in it one behind the other, each at the place that it names.  Between them
stand only the quotes around strings, next to the first and the last piece of the string.
-/

namespace ScriptFront

/-- A part of a text, from one offset up to another. -/
structure Span where
  start : Nat
  stop : Nat

/-- The characters of a part. -/
def Span.of (span : Span) (text : List Char) : List Char :=
  (text.drop span.start).take (span.stop - span.start)

/-! ## Places -/

/-- The place of an offset: the newlines before it are counted, and the characters behind the last
of them. -/
def Position.ofOffset (text : List Char) (offset : Nat) : Position :=
  ⟨1 + (text.take offset).count '\n',
    1 + ((text.take offset).reverse.takeWhile (· ≠ '\n')).length⟩

theorem Position.start_after (text : List Char) :
    start.after text =
      ⟨1 + text.count '\n', 1 + (text.reverse.takeWhile (· ≠ '\n')).length⟩ := by
  induction text using List.reverseRecOn with
  | nil => rfl
  | append_singleton initial last inductionHypothesis =>
      rw [after_append, inductionHypothesis, after_cons, after_nil, step]
      by_cases isNewline : last = '\n'
      · subst isNewline
        simp [Nat.add_assoc]
      · simp [isNewline, Nat.add_assoc]

/-- Counting on from the start of a text leads to the place of the offset that is reached. -/
theorem Position.ofOffset_eq (text : List Char) (offset : Nat) :
    ofOffset text offset = start.after (text.take offset) :=
  (start_after (text.take offset)).symm

/-- Behind characters the place is another one. -/
theorem Position.start_after_append_ne (text : List Char) {more : List Char} (filled : more ≠ []) :
    start.after (text ++ more) ≠ start.after text := by
  rw [start_after, start_after]
  intro same
  obtain ⟨sameLine, sameColumn⟩ := Position.mk.inj same
  rw [List.count_append] at sameLine
  have inLine : '\n' ∉ more := by
    rw [← List.count_eq_zero]
    omega
  have goOn : ∀ mark ∈ more.reverse, decide (mark ≠ '\n') = true := by
    intro mark member
    refine decide_eq_true ?_
    rintro rfl
    exact inLine (List.mem_reverse.1 member)
  rw [List.reverse_append, List.takeWhile_append_of_pos goOn, List.length_append,
    List.length_reverse] at sameColumn
  have positive := List.length_pos_iff.2 filled
  omega

/-- A place tells how much of a text stands in front of it. -/
theorem Position.eq_of_start_after
    {text first second : List Char} (isFirst : first <+: text) (isSecond : second <+: text)
    (same : start.after first = start.after second) : first = second := by
  have shorter {left right : List Char} (isPrefix : left <+: right)
      (same : start.after left = start.after right) : left = right := by
    obtain ⟨more, rfl⟩ := isPrefix
    by_cases filled : more = []
    · rw [filled, List.append_nil]
    · exact absurd same.symm (start_after_append_ne left filled)
  rcases List.prefix_or_prefix_of_prefix isFirst isSecond with isPrefix | isPrefix
  · exact shorter isPrefix same
  · exact (shorter isPrefix same.symm).symm

/-! ## Tokens and the quotes between them -/

/-- The text and the place of a token are those of a part of the text. -/
structure Token.LiesIn (text : List Char) (file : Option String) (token : Token) (span : Span) :
    Prop where
  ordered : span.start ≤ span.stop
  inText : span.stop ≤ text.length
  lexeme : token.lexeme.toList = span.of text
  /-- The newlines in front of the token are counted. -/
  line : token.location.line = 1 + (text.take span.start).count '\n'
  /-- The characters behind the last of these newlines are counted. -/
  column : token.location.column =
    1 + ((text.take span.start).reverse.takeWhile (· ≠ '\n')).length
  file : token.location.file = file

theorem Token.liesIn_of_location
    {text : List Char} {file : Option String} {token : Token} {span : Span}
    (ordered : span.start ≤ span.stop) (inText : span.stop ≤ text.length)
    (lexeme : token.lexeme.toList = span.of text)
    (location : token.location = (Position.ofOffset text span.start).inFile file) :
    token.LiesIn text file span :=
  ⟨ordered, inText, lexeme, congrArg Location.line location, congrArg Location.column location,
    congrArg Location.file location⟩

theorem Token.LiesIn.location
    {text : List Char} {file : Option String} {token : Token} {span : Span}
    (liesIn : token.LiesIn text file span) :
    token.location = (Position.ofOffset text span.start).inFile file := by
  rcases liesIn with ⟨-, -, -, line, column, isFile⟩
  calc
    token.location = ⟨token.location.line, token.location.column, token.location.file⟩ := rfl
    _ = (Position.ofOffset text span.start).inFile file := by
        rw [line, column, isFile]
        rfl

/-- Each of the tokens lies in its part of the text. -/
structure Lie (text : List Char) (file : Option String) (tokens : List Token) (spans : List Span) :
    Prop where
  each : List.Forall₂ (Token.LiesIn text file) tokens spans
  inOrder : spans.IsChain fun span next => span.stop ≤ next.start
  /-- A token is spaced if the one before it is whitespace or a comment. -/
  spaced : ∀ before token after, tokens = before ++ token :: after →
    (token.spaced = true ↔ ∃ previous, before.getLast? = some previous ∧
      (previous.kind = .whitespace ∨ ∃ text, previous.kind = .comment text))
  /-- A character between the parts is a quote in front of the first piece of a string or behind its
  last one. -/
  between : ∀ offset, (∃ span ∈ spans, offset < span.stop) →
    (∀ span ∈ spans, ¬(span.start ≤ offset ∧ offset < span.stop)) →
      (text[offset]? = some '\'' ∨ text[offset]? = some '"') ∧
        ∃ pair ∈ tokens.zip spans, pair.1.kind.isFragment = true ∧
          (pair.2.start = offset + 1 ∨ pair.2.stop = offset)

/-! ## Along the steps -/

namespace Scanner

/-- The scanner has come to an offset of the text. -/
structure At (text : List Char) (offset : Nat) (scanner : Scanner) : Prop where
  inText : offset ≤ text.length
  rest : text.drop offset = scanner.rest
  position : scanner.position = Position.ofOffset text offset

variable {text : List Char} {file : Option String} {offset : Nat} {scanner : Scanner}

theorem at_start (text : List Char) : (start text).At text 0 :=
  ⟨Nat.zero_le _, rfl, rfl⟩

/-- Behind characters of the text the scanner has come to the offset behind them. -/
theorem At.further
    {read rest : List Char} {after : Scanner} (place : scanner.At text offset)
    (whole : read ++ rest = scanner.rest) (isRest : after.rest = rest)
    (position : after.position = scanner.position.after read) :
    after.At text (offset + read.length) := by
  have ahead : text.drop offset = read ++ rest := place.rest.trans whole.symm
  refine ⟨?_, ?_, ?_⟩
  · have lengths := congrArg List.length ahead
    have inText := place.inText
    simp only [List.length_drop, List.length_append] at lengths
    omega
  · rw [← List.drop_drop, ahead, isRest]
    simp
  · have taken : text.take (offset + read.length) = text.take offset ++ read := by
      rw [List.take_add, ahead]
      simp
    rw [position, place.position, Position.ofOffset_eq, Position.ofOffset_eq, taken,
      Position.after_append]

/-- The tokens that are read from an offset on lie in the text behind it. -/
structure LieBehind (text : List Char) (file : Option String) (offset : Nat) (scanner : Scanner)
    (tokens : List Token) (spans : List Span) : Prop where
  each : List.Forall₂ (Token.LiesIn text file) tokens spans
  inOrder : spans.IsChain fun span next => span.stop ≤ next.start
  behind : ∀ span ∈ spans, offset ≤ span.start
  spaced : ∀ before token after, tokens = before ++ token :: after →
    token.spaced = (before.getLast?.map Token.isTrivia).getD scanner.spaced
  /-- The first piece of a string stands directly behind its quote. -/
  opening : scanner.modes.mode.isString = true → scanner.modes.top.segmentOpen = true →
    ∀ pair ∈ (tokens.zip spans).head?, pair.1.kind.isFragment = true ∧ pair.2.start = offset
  /-- A quote at the offset itself may close a string whose last piece was read before. -/
  between : ∀ place, offset ≤ place → (∃ span ∈ spans, place < span.stop) →
    (∀ span ∈ spans, ¬(span.start ≤ place ∧ place < span.stop)) →
      (text[place]? = some '\'' ∨ text[place]? = some '"') ∧
        ((∃ pair ∈ tokens.zip spans, pair.1.kind.isFragment = true ∧
            (pair.2.start = place + 1 ∨ pair.2.stop = place)) ∨
          place = offset ∧ scanner.modes.mode.isString = true ∧
            scanner.modes.top.segmentOpen = false)

theorem lieBehind_nil (text : List Char) (file : Option String) (offset : Nat)
    (scanner : Scanner) : LieBehind text file offset scanner [] [] := by
  constructor <;> simp

variable {tokens : List Token} {spans : List Span}

/-- What a token covers lies at the offset. -/
theorem At.liesIn
    {lexeme : Lexeme} (place : scanner.At text offset)
    (whole : lexeme.text ++ lexeme.rest = scanner.rest) :
    (scanner.token file lexeme).LiesIn text file ⟨offset, offset + lexeme.text.length⟩ := by
  have ahead : text.drop offset = lexeme.text ++ lexeme.rest := place.rest.trans whole.symm
  refine Token.liesIn_of_location (Nat.le_add_right _ _) ?_ ?_ ?_
  · have lengths := congrArg List.length ahead
    have inText := place.inText
    simp only [List.length_drop, List.length_append] at lengths
    show offset + lexeme.text.length ≤ text.length
    omega
  · simp [Span.of, ahead, token]
  · simp only [token, place.position]

theorem LieBehind.token
    {lexeme : Lexeme} {modes : ModeStack} (sound : scanner.Sound) (place : scanner.At text offset)
    (step : scanner.modes.move scanner.rest = .token lexeme modes)
    (further : LieBehind text file (offset + lexeme.text.length)
      (scanner.afterToken lexeme modes) tokens spans) :
    LieBehind text file offset scanner (scanner.token file lexeme :: tokens)
      (⟨offset, offset + lexeme.text.length⟩ :: spans) := by
  have covered := ModeStack.move_covers scanner.modes scanner.rest
  rw [step] at covered
  have turns := ModeStack.turns_of_move step
  constructor
  case each => exact .cons (place.liesIn covered) further.each
  case inOrder =>
    have inOrder := further.inOrder
    cases spans with
    | nil => exact .singleton _
    | cons next others => exact .cons_cons (further.behind next List.mem_cons_self) inOrder
  case behind =>
    refine List.forall_mem_cons.2 ⟨Nat.le_refl _, ?_⟩
    intro span member
    exact Nat.le_trans (Nat.le_add_right _ _) (further.behind span member)
  case spaced =>
    intro before next after whole
    cases before with
    | nil =>
        obtain ⟨rfl, -⟩ := List.cons.inj whole
        rfl
    | cons first others =>
        obtain ⟨rfl, inRest⟩ := List.cons.inj whole
        rw [further.spaced others next after inRest, List.getLast?_cons]
        cases others.getLast? <;> rfl
  case opening =>
    intro inString isOpen pair isHead
    obtain rfl := Option.mem_some.1 isHead
    exact ⟨turns.isFragment_of_open inString isOpen, rfl⟩
  case between =>
    intro offsetBetween atLeast before outside
    have outsideOwn := outside _ List.mem_cons_self
    have behindOwn : offset + lexeme.text.length ≤ offsetBetween := by
      by_contra within
      exact outsideOwn ⟨atLeast, Nat.lt_of_not_le within⟩
    have beforeRest : ∃ span ∈ spans, offsetBetween < span.stop := by
      obtain ⟨span, member, isBefore⟩ := before
      rcases List.mem_cons.1 member with rfl | inRest
      · exact absurd isBefore (Nat.not_lt.2 behindOwn)
      · exact ⟨span, inRest, isBefore⟩
    have outsideRest := fun span member => outside span (List.mem_cons_of_mem _ member)
    obtain ⟨isQuote, ⟨pair, member, isFragment, adjacent⟩ | ⟨rfl, inString, isRead⟩⟩ :=
      further.between offsetBetween behindOwn beforeRest outsideRest
    · exact ⟨isQuote, Or.inl ⟨pair, List.mem_cons_of_mem _ member, isFragment, adjacent⟩⟩
    · have isFragment := ModeStack.Sound.isFragment_of_read sound turns inString isRead
      exact ⟨isQuote, Or.inl ⟨_, List.mem_cons_self, isFragment, Or.inr rfl⟩⟩

theorem LieBehind.quote
    {mark : Char} {rest : List Char} {modes : ModeStack} (sound : scanner.Sound)
    (place : scanner.At text offset)
    (step : scanner.modes.move scanner.rest = .quote mark rest modes)
    (further : LieBehind text file (offset + 1) (scanner.afterQuote mark rest modes) tokens spans) :
    LieBehind text file offset scanner tokens spans := by
  have covered := ModeStack.move_covers scanner.modes scanner.rest
  rw [step] at covered
  have whole : mark :: rest = scanner.rest := covered
  have quotes := ModeStack.quotes_of_move step
  refine ⟨further.each, further.inOrder, ?_, further.spaced, ?_, ?_⟩
  · intro span member
    exact Nat.le_of_succ_le (further.behind span member)
  · intro inString isOpen
    cases (quotes.isRead inString).symm.trans isOpen
  · intro offsetBetween atLeast before outside
    rcases Nat.eq_or_lt_of_le atLeast with rfl | behindQuote
    · have isMark : text[offset]? = some mark := by
        have isHead := congrArg List.head? (place.rest.trans whole.symm)
        simpa using isHead
      have isQuote : text[offset]? = some '\'' ∨ text[offset]? = some '"' := by
        rw [isMark]
        exact quotes.eq_quote.imp (congrArg some) (congrArg some)
      refine ⟨isQuote, ?_⟩
      cases quotes with
      | closes isRead delimits =>
          exact Or.inr ⟨rfl, Mode.isString_of_delimiter? delimits, isRead⟩
      | opens _ delimits =>
          have inString := Mode.isString_of_delimiter? delimits
          obtain ⟨pair, isHead⟩ : ∃ pair, pair ∈ (tokens.zip spans).head? := by
            obtain ⟨span, member, -⟩ := before
            have each := further.each
            cases each with
            | nil => cases member
            | cons _ _ => exact ⟨_, rfl⟩
          obtain ⟨isFragment, startsBehind⟩ := further.opening inString inString pair isHead
          exact Or.inl ⟨pair, List.mem_of_mem_head? isHead, isFragment, Or.inl startsBehind⟩
    · obtain ⟨isQuote, adjacent | ⟨-, inString, isRead⟩⟩ :=
        further.between offsetBetween behindQuote before outside
      · exact ⟨isQuote, Or.inl adjacent⟩
      · have isOpen := ModeStack.Sound.isOpen_of_quote sound quotes inString
        cases isOpen.symm.trans isRead

/-- The items from an offset on are tokens that lie in the text up to its end, or up to the fault
behind them. -/
theorem Sound.items_lieBehind
    (sound : scanner.Sound) (place : scanner.At text offset) :
    ∃ tokens spans, LieBehind text file offset scanner tokens spans ∧
      ((scanner.items file = tokens.map Except.ok ∧
          (∃ others ending, tokens = others ++ [ending] ∧ ending.kind = .endOfInput ∧
            spans.getLast? = some ⟨text.length, text.length⟩)) ∨
        ∃ fault, scanner.items file = tokens.map Except.ok ++ [.error fault]) := by
  induction sound using Sound.induction generalizing offset with
  | refused scanner sound cause step =>
      exact ⟨[], [], lieBehind_nil text file offset scanner, Or.inr ⟨_, items_of_refused step⟩⟩
  | last scanner sound lexeme modes step ended =>
      have unwritten : lexeme.kind.isWritten = false := by
        rw [ended]
        rfl
      obtain ⟨-, -, isNil, rfl⟩ := ModeStack.end_of_move step unwritten
      have atLength : offset = text.length := by
        have lengths := congrArg List.length (place.rest.trans isNil)
        have inText := place.inText
        simp only [List.length_drop, List.length_nil] at lengths
        omega
      refine ⟨_, _, (lieBehind_nil text file _ _).token sound place step, Or.inl ⟨?_, ?_⟩⟩
      · exact items_of_last step rfl
      · exact ⟨[], _, rfl, rfl, by rw [atLength]; rfl⟩
  | quote scanner sound mark rest modes soundNext step inductionHypothesis =>
      have covered := ModeStack.move_covers scanner.modes scanner.rest
      rw [step] at covered
      have whole : [mark] ++ rest = scanner.rest := covered
      have placeNext : (scanner.afterQuote mark rest modes).At text (offset + 1) :=
        place.further whole rfl rfl
      obtain ⟨tokens, spans, further, ends⟩ := inductionHypothesis placeNext
      rw [← items_of_quote step] at ends
      exact ⟨tokens, spans, further.quote sound place step, ends⟩
  | token scanner sound lexeme modes soundNext step more inductionHypothesis =>
      have covered := ModeStack.move_covers scanner.modes scanner.rest
      rw [step] at covered
      have placeNext : (scanner.afterToken lexeme modes).At text (offset + lexeme.text.length) :=
        place.further covered rfl rfl
      obtain ⟨tokens, spans, further, ends⟩ := inductionHypothesis placeNext
      refine ⟨_, _, further.token sound place step, ?_⟩
      rw [items_of_token step more]
      rcases ends with ⟨items, others, ending, rfl, isEnd, atLength⟩ | ⟨fault, items⟩
      · refine Or.inl ⟨by rw [items]; rfl, _ :: others, ending, rfl, isEnd, ?_⟩
        rw [List.getLast?_cons, atLength]
        rfl
      · exact Or.inr ⟨fault, by rw [items]; rfl⟩

end Scanner

/-- The tokens of a text, up to its end or up to its fault, lie in it one behind the other at the
places that they name, and between them stand only the quotes around strings. -/
theorem rawItems_lie (source : String) (file : Option String) :
    ∃ tokens spans, Lie source.toList file tokens spans ∧
      ((rawItems source file = tokens.map Except.ok ∧
          (∃ others ending, tokens = others ++ [ending] ∧ ending.kind = .endOfInput ∧
            spans.getLast? = some ⟨source.toList.length, source.toList.length⟩)) ∨
        ∃ fault, rawItems source file = tokens.map Except.ok ++ [.error fault]) := by
  obtain ⟨tokens, spans, behind, ends⟩ :=
    (Scanner.sound_start source.toList).items_lieBehind (Scanner.at_start source.toList)
  refine ⟨tokens, spans, ⟨behind.each, behind.inOrder, ?_, ?_⟩, ends⟩
  · intro before token after whole
    rw [behind.spaced before token after whole]
    cases isLast : before.getLast? with
    | none => simp [Scanner.start]
    | some previous => simp [Token.isTrivia, Kind.isTrivia_iff]
  · intro offset before outside
    obtain ⟨isQuote, adjacent | ⟨-, inString, -⟩⟩ :=
      behind.between offset (Nat.zero_le _) before outside
    · exact ⟨isQuote, adjacent⟩
    · cases inString

end ScriptFront
