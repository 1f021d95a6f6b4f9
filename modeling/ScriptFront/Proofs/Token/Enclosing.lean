import ScriptFront.Proofs.Token.Insertions

/-!
# A text within another one

A text that closes all its braces gives the same tokens where code surrounds it, be it between
brackets or inserted into a string.  A blank behind it parts it from what closes the surroundings.
-/

namespace ScriptFront

namespace ModeStack

/-- The frames of a stack on top of others; what was the bottom may have been inserted there. -/
def framesOnto (inserted : Bool) (outer : List Frame) (top : Frame) : List Frame → ModeStack
  | [] => ⟨{ top with interpolating := inserted }, outer⟩
  | lower :: others => ⟨top, (framesOnto inserted outer lower others).frames⟩

/-- The stack on top of other frames. -/
def onto (inserted : Bool) (outer : List Frame) (modes : ModeStack) : ModeStack :=
  framesOnto inserted outer modes.top modes.below

end ModeStack

/-- The step with other frames below its stack. -/
def Move.onto (inserted : Bool) (outer : List Frame) : Move → Move
  | .token lexeme modes => .token lexeme (modes.onto inserted outer)
  | .quote mark rest modes => .quote mark rest (modes.onto inserted outer)
  | .refused cause => .refused cause

namespace ModeStack

variable {inserted : Bool} {outer : List Frame} {modes : ModeStack} {input : List Char}

/-! ## Operations of the stack -/

theorem mode_onto (modes : ModeStack) : (modes.onto inserted outer).mode = modes.mode := by
  rcases modes with ⟨top, _ | ⟨lower, others⟩⟩ <;> rfl

theorem segmentOpen_onto (modes : ModeStack) :
    (modes.onto inserted outer).top.segmentOpen = modes.top.segmentOpen := by
  rcases modes with ⟨top, _ | ⟨lower, others⟩⟩ <;> rfl

theorem setSegmentOpen_onto (modes : ModeStack) (isOpen : Bool) :
    (modes.onto inserted outer).setSegmentOpen isOpen =
      (modes.setSegmentOpen isOpen).onto inserted outer := by
  rcases modes with ⟨top, _ | ⟨lower, others⟩⟩ <;> rfl

theorem pushInterpolation_onto (modes : ModeStack) :
    (modes.onto inserted outer).pushInterpolation =
      modes.pushInterpolation.onto inserted outer := by
  rw [pushInterpolation, setSegmentOpen_onto]
  rfl

theorem openBrace_onto (modes : ModeStack) :
    (modes.onto inserted outer).openBrace = modes.openBrace.onto inserted outer := by
  rcases modes with ⟨top, _ | ⟨lower, others⟩⟩ <;> rfl

theorem pop_onto (surrounded : modes.below ≠ []) :
    (modes.onto inserted outer).pop.2 = modes.pop.2.onto inserted outer := by
  rcases modes with ⟨top, _ | ⟨lower, others⟩⟩
  · exact absurd rfl surrounded
  · rfl

/-- A brace that is counted closes alike, and so does one that ends an inserted expression. -/
theorem closeBrace_onto
    (closes : modes.top.openBraces ≠ 0 ∨ modes.below ≠ []) :
    (modes.onto inserted outer).closeBrace =
      (modes.closeBrace.1, modes.closeBrace.2.onto inserted outer) := by
  rcases modes with ⟨⟨mode, interpolating, openBraces, segmentOpen⟩, _ | ⟨lower, others⟩⟩
  · cases openBraces with
    | zero => simp at closes
    | succ => rfl
  · cases openBraces <;> rfl

theorem closeBrace_of_ends (ends : modes.closeBrace.1 = true) :
    modes.top.interpolating = true ∧ modes.closeBrace.2 = modes := by
  unfold closeBrace at ends ⊢
  split
  · rename_i uncounted
    rw [uncounted] at ends
    exact ⟨ends, rfl⟩
  · rename_i counted
    rw [counted] at ends
    cases ends

/-! ## Steps -/

/-- The step reads a closing brace that has no partner. -/
def Strays (modes : ModeStack) : Move → Prop
  | .token lexeme after => lexeme.kind = .mark .rightBrace ∧ after = modes
  | _ => False

theorem numberMove_onto (modes : ModeStack) (reading : Numeral.Reading) :
    (modes.onto inserted outer).numberMove reading =
      (modes.numberMove reading).onto inserted outer := by
  unfold numberMove
  split <;> rfl

theorem signMove_onto
    {sign : Sign} {rest : List Char} (sound : modes.Sound input)
    (paired : ¬modes.Strays (modes.signMove sign rest)) :
    (modes.onto inserted outer).signMove sign rest =
      (modes.signMove sign rest).onto inserted outer := by
  unfold signMove at paired ⊢
  split
  · rw [openBrace_onto]
    rfl
  · rename_i isRight
    have surrounded (ends : modes.closeBrace.1 = true) : modes.below ≠ [] := by
      have isInserted := (closeBrace_of_ends ends).1
      rw [sound.below_eq_frames (Or.inr isInserted)]
      exact List.cons_ne_nil _ _
    have closes : modes.top.openBraces ≠ 0 ∨ modes.below ≠ [] := by
      cases counted : modes.top.openBraces with
      | succ => exact Or.inl (Nat.succ_ne_zero _)
      | zero =>
          cases ends : modes.closeBrace.1 with
          | true => exact Or.inr (surrounded ends)
          | false =>
              have stays : modes.closeBrace = (false, modes) := by
                rw [closeBrace, counted] at ends ⊢
                exact congrArg (·, modes) ends
              rw [isRight, stays] at paired
              exact absurd ⟨rfl, rfl⟩ paired
    rw [closeBrace_onto closes]
    rcases isClosed : modes.closeBrace with ⟨ends, closed⟩
    cases ends with
    | false => rfl
    | true =>
        have ends : modes.closeBrace.1 = true := by rw [isClosed]
        obtain rfl : closed = modes := by
          rw [← (closeBrace_of_ends ends).2, isClosed]
        exact congrArg (Move.token _) (pop_onto (surrounded ends))
  · rfl

theorem codeMove_onto
    (sound : modes.Sound input) (filled : input ≠ [])
    (paired : ¬modes.Strays (modes.codeMove input)) :
    (modes.onto inserted outer).codeMove input =
      (modes.codeMove input).onto inserted outer := by
  unfold codeMove
  split
  · exact absurd rfl filled
  · rfl
  · rfl
  · rfl
  · rfl
  · split
    · rfl
    rename_i solid
    split
    · exact numberMove_onto modes _
    rename_i noDigit
    split
    · rfl
    rename_i noName
    split
    · rfl
    rename_i noConstant
    split
    · rfl
    · rename_i sign found
      simp only [codeMove, if_neg solid, if_neg noDigit, if_neg noName, if_neg noConstant,
        found] at paired
      exact signMove_onto sound paired

theorem segmentMove_onto (modes : ModeStack) (segment? : Option Segment) :
    (modes.onto inserted outer).segmentMove segment? =
      (modes.segmentMove segment?).onto inserted outer := by
  cases segment? with
  | none => rfl
  | some segment =>
      rw [segmentMove, setSegmentOpen_onto]
      rfl

theorem plainMove_onto (surrounded : modes.below ≠ []) (input : List Char) :
    (modes.onto inserted outer).plainMove input =
      (modes.plainMove input).onto inserted outer := by
  unfold plainMove
  rw [segmentOpen_onto]
  split
  · exact segmentMove_onto modes _
  · split
    · rw [pop_onto surrounded]
      rfl
    · rfl

theorem richMove_onto (surrounded : modes.below ≠ []) (input : List Char) :
    (modes.onto inserted outer).richMove input =
      (modes.richMove input).onto inserted outer := by
  unfold richMove
  rw [segmentOpen_onto]
  split
  · exact segmentMove_onto modes _
  · split
    · rw [pop_onto surrounded]
      rfl
    · rw [pushInterpolation_onto]
      rfl
    · rfl

theorem commentMove_onto (surrounded : modes.below ≠ []) (input : List Char) :
    (modes.onto inserted outer).commentMove input =
      (modes.commentMove input).onto inserted outer := by
  unfold commentMove
  split
  · rw [pop_onto surrounded]
    rfl
  · rfl

/-- What is below a stack makes no difference to a step, unless the step ends the input or closes
what was opened there. -/
theorem move_onto
    (sound : modes.Sound input) (filled : modes.mode = .code → input ≠ [])
    (paired : ¬modes.Strays (modes.move input)) :
    (modes.onto inserted outer).move input = (modes.move input).onto inserted outer := by
  have surrounded (notCode : modes.mode ≠ .code) : modes.below ≠ [] := by
    rw [sound.below_eq_frames (Or.inl notCode)]
    exact List.cons_ne_nil _ _
  unfold move at paired ⊢
  rw [mode_onto]
  cases isMode : modes.mode with
  | code =>
      simp only [isMode] at paired
      exact codeMove_onto sound (filled isMode) paired
  | plainString => exact plainMove_onto (surrounded (by simp [isMode])) input
  | richString => exact richMove_onto (surrounded (by simp [isMode])) input
  | comment => exact commentMove_onto (surrounded (by simp [isMode])) input

end ModeStack

/-- The token without its place. -/
def Token.unplaced (token : Token) : Token := { token with location := default }

theorem Token.significant_cons_unplaced
    {first second : Token} {others more : List Token} (sameFirst : first.unplaced = second.unplaced)
    (same : (significant others).map unplaced = (significant more).map unplaced) :
    (significant (first :: others)).map unplaced = (significant (second :: more)).map unplaced := by
  have sameTrivia : first.unplaced.isTrivia = second.unplaced.isTrivia :=
    congrArg Token.isTrivia sameFirst
  replace sameTrivia : first.isTrivia = second.isTrivia := sameTrivia
  unfold significant at same ⊢
  rw [List.filter_cons, List.filter_cons, sameTrivia]
  split
  · rw [List.map_cons, List.map_cons, sameFirst, same]
  · exact same

namespace Bracket

/-- Whitespace and comments are no brackets. -/
theorem only_significant (kept : Bracket → Bool) (read : List Token) :
    only kept (read.map Token.kind) = only kept ((Token.significant read).map Token.kind) := by
  rw [only, only, List.filter_map, List.filter_map, Token.significant, List.filter_filter]
  refine congrArg (List.map Token.kind) (List.filter_congr ?_)
  rintro ⟨kind, lexeme, location, spaced⟩ -
  cases kind with
  | whitespace | comment => rfl
  | _ => exact (Bool.and_true _).symm

end Bracket

namespace Scanner

open ScriptFront.Bracket

/-- The place before the same text, which a blank and more text follow, on top of other frames. -/
structure Within
    (inserted : Bool) (outer : List Frame) (more : List Char) (scanner place : Scanner) : Prop where
  rest : place.rest = scanner.rest ++ ' ' :: more
  modes : place.modes = scanner.modes.onto inserted outer
  spaced : place.spaced = scanner.spaced

variable {file : Option String} {scanner last place : Scanner} {tokens : List Token}
variable {inserted : Bool} {outer : List Frame} {more : List Char}

/-! ## The end of the text -/

/-- Behind a comment nothing is read but the newline that ends it. -/
theorem Reaches.newline_of_comment
    (reaches : Reaches file scanner tokens last) (isComment : scanner.modes.mode = .comment)
    (isCode : last.modes.mode = .code) : ∃ token ∈ tokens, token.kind = .newline := by
  have notCode : scanner.modes.mode ≠ .code := by simp [isComment]
  cases reaches with
  | here => exact absurd isCode notCode
  | @token _ _ lexeme modes _ step =>
      refine ⟨_, List.mem_cons_self, ?_⟩
      have turns := ModeStack.turns_of_move step
      change lexeme.kind = .newline
      generalize lexeme.kind = kind at turns
      cases turns with
      | commentEnds => rfl
      | plain isCode | braceOpens isCode | braceCloses isCode | strayBrace isCode
      | insertionEnds isCode | commentStarts isCode => exact absurd isCode notCode
      | insertionStarts isRich => cases isComment.symm.trans isRich
      | piece isString =>
          rw [isComment] at isString
          cases isString
  | quote step =>
      have quotes := ModeStack.quotes_of_move step
      cases quotes with
      | opens isCode => exact absurd isCode notCode
      | closes _ delimits =>
          rw [isComment] at delimits
          cases delimits

/-- A comment is followed by a newline, so a line that ends in code has none. -/
theorem ne_comment_of_inLine
    {lexeme : Lexeme} {modes : ModeStack}
    (step : scanner.modes.move scanner.rest = .token lexeme modes)
    (further : Reaches file (scanner.afterToken lexeme modes) tokens last)
    (isCode : last.modes.mode = .code) (inLine : ∀ token ∈ tokens, token.kind ≠ .newline)
    (text : String) : lexeme.kind ≠ .comment text := by
  intro isComment
  have turns := ModeStack.turns_of_move step
  rw [isComment] at turns
  cases turns with
  | plain _ isPlain => cases isPlain
  | commentStarts =>
      obtain ⟨token, member, isNewline⟩ := further.newline_of_comment rfl isCode
      exact inLine token member isNewline

theorem Reaches.of_end
    (reaches : Reaches file scanner tokens last) (isCode : scanner.modes.mode = .code)
    (isNil : scanner.rest = []) : tokens = [] ∧ last = scanner := by
  cases reaches with
  | here => exact ⟨rfl, rfl⟩
  | token step written => exact absurd isNil (rest_ne_nil_of_token step written isCode)
  | quote step => exact absurd isNil (rest_ne_nil_of_quote step)

/-- At the end of a text that closes its braces, the stack is as it was at the start. -/
theorem AtEnd.modes_eq_initial (atEnd : last.AtEnd) (closed : last.modes.brackets = []) :
    last.modes = .initial := by
  rw [atEnd.modes_eq, ModeStack.brackets_of_code rfl] at closed
  have none : last.modes.top.openBraces = 0 := by simpa using closed
  rw [atEnd.modes_eq, none]
  rfl

/-- From the place on the tokens are read, wherever they stand, and the blank behind them, in front
of the rest of the text. -/
def ReadsOn
    (file : Option String) (inserted : Bool) (outer : List Frame) (more : List Char)
    (place : Scanner) (tokens : List Token) : Prop :=
  ∃ read final, Reaches file place read final ∧ final.rest = more ∧
    final.modes = ModeStack.initial.onto inserted outer ∧ final.spaced = true ∧
      (Token.significant read).map Token.unplaced = (Token.significant tokens).map Token.unplaced

/-- Blanks at the end of the text run on into the blank behind it. -/
theorem Within.readsOn_blanks
    (within : Within inserted outer more scanner place) (isInitial : scanner.modes = .initial)
    (blanks : scanner.rest.dropWhile isSpacing = [])
    (stops : more.dropWhile isSpacing = more) :
    ReadsOn file inserted outer more place [] := by
  have isCode : place.modes.mode = .code := by
    rw [within.modes, ModeStack.mode_onto, isInitial]
    rfl
  obtain ⟨first, rest, isPlace, blank⟩ :
      ∃ first rest, place.rest = first :: rest ∧ isSpacing first = true := by
    rw [within.rest]
    cases isRest : scanner.rest with
    | nil => exact ⟨_, _, rfl, rfl⟩
    | cons first rest =>
        refine ⟨_, _, rfl, ?_⟩
        rw [isRest, List.dropWhile_cons] at blanks
        cases blank : isSpacing first with
        | true => rfl
        | false => simp [blank] at blanks
  have step : place.modes.move place.rest = .token (.spacing place.rest) place.modes := by
    simp only [ModeStack.move, isCode]
    rw [isPlace]
    exact ModeStack.codeMove_of_isSpacing blank _ _
  refine ⟨_, _, .token step rfl .here, ?_, isInitial ▸ within.modes, rfl, rfl⟩
  change place.rest.dropWhile isSpacing = more
  rw [within.rest, List.dropWhile_append, blanks]
  have isBlank : isSpacing ' ' = true := rfl
  exact (List.dropWhile_cons_of_pos isBlank).trans stops

/-- Before the end of the text, the same is read as without the blank behind it. -/
theorem Within.move
    (within : Within inserted outer more scanner place) (sound : scanner.Sound)
    (filled : scanner.modes.mode = .code → scanner.rest ≠ [])
    (accepted : ∀ cause, scanner.modes.move scanner.rest ≠ .refused cause)
    (paired : ¬scanner.modes.Strays (scanner.modes.move scanner.rest))
    (ends : (scanner.modes.move scanner.rest).EndsBefore ' ') :
    place.modes.move place.rest =
      ((scanner.modes.move scanner.rest).followedBy (' ' :: more)).onto inserted outer := by
  have lifted : (scanner.modes.onto inserted outer).move scanner.rest =
      (scanner.modes.move scanner.rest).onto inserted outer :=
    ModeStack.move_onto sound filled paired
  rw [within.modes, within.rest, ModeStack.move_append_separator rfl, lifted]
  · cases scanner.modes.move scanner.rest <;> rfl
  · rw [ModeStack.mode_onto]
    exact filled
  · rw [lifted]
    intro cause isRefused
    cases step : scanner.modes.move scanner.rest with
    | refused => exact accepted _ step
    | token | quote =>
        rw [step] at isRefused
        cases isRefused
  · rw [lifted]
    cases step : scanner.modes.move scanner.rest with
    | token =>
        rw [step] at ends
        exact ends
    | quote | refused => trivial

/-- A token that does not end the text is read alike, and so is what follows it. -/
theorem Within.readsOn_token
    {lexeme : Lexeme} {modes : ModeStack} (within : Within inserted outer more scanner place)
    (sound : scanner.Sound) (step : scanner.modes.move scanner.rest = .token lexeme modes)
    (written : lexeme.kind.isWritten = true)
    (paired : ¬scanner.modes.Strays (.token lexeme modes))
    (ends : (Move.token lexeme modes).EndsBefore ' ')
    (further : ∀ {behind}, Within inserted outer more (scanner.afterToken lexeme modes) behind →
      ReadsOn file inserted outer more behind tokens) :
    ReadsOn file inserted outer more place (scanner.token file lexeme :: tokens) := by
  have accepted : ∀ cause, scanner.modes.move scanner.rest ≠ .refused cause := by simp [step]
  have stepWithin := within.move sound (rest_ne_nil_of_token step written) accepted
    (step ▸ paired) (step ▸ ends)
  rw [step] at stepWithin
  have withinBehind : Within inserted outer more (scanner.afterToken lexeme modes)
      (place.afterToken (lexeme.followedBy (' ' :: more)) (modes.onto inserted outer)) :=
    ⟨rfl, rfl, rfl⟩
  obtain ⟨read, final, reads, isRest, isModes, isSpaced, same⟩ := further withinBehind
  refine ⟨_, final, .token stepWithin written reads, isRest, isModes, isSpaced, ?_⟩
  refine Token.significant_cons_unplaced ?_ same
  simp only [Token.unplaced, Scanner.token, within.spaced]
  rfl

theorem Within.readsOn_quote
    {mark : Char} {rest : List Char} {modes : ModeStack}
    (within : Within inserted outer more scanner place) (sound : scanner.Sound)
    (step : scanner.modes.move scanner.rest = .quote mark rest modes)
    (further : ∀ {behind}, Within inserted outer more (scanner.afterQuote mark rest modes) behind →
      ReadsOn file inserted outer more behind tokens) :
    ReadsOn file inserted outer more place tokens := by
  have accepted : ∀ cause, scanner.modes.move scanner.rest ≠ .refused cause := by simp [step]
  have stepWithin := within.move sound (fun _ => rest_ne_nil_of_quote step) accepted
    (by rw [step]; exact id) (by rw [step]; trivial)
  rw [step] at stepWithin
  have withinBehind : Within inserted outer more (scanner.afterQuote mark rest modes)
      (place.afterQuote mark (rest ++ ' ' :: more) (modes.onto inserted outer)) :=
    ⟨rfl, rfl, within.spaced⟩
  obtain ⟨read, final, reads, behind⟩ := further withinBehind
  exact ⟨read, final, .quote stepWithin reads, behind⟩

/-- Where all closing braces have partners, so has that of the next token, and so have those behind
it. -/
theorem unclosed_behind_token
    {lexeme : Lexeme} {modes : ModeStack} {kinds : List Kind} {opened : List Bracket}
    (step : scanner.modes.move scanner.rest = .token lexeme modes) (sound : scanner.Sound)
    (closed : unclosed scanner.modes.brackets (only isBraced (lexeme.kind :: kinds)) =
      some opened) :
    unclosed modes.brackets (only isBraced kinds) = some opened ∧
      ¬scanner.modes.Strays (.token lexeme modes) := by
  have turns := ModeStack.turns_of_move step
  rcases ModeStack.Turns.brackets turns sound with ⟨isRight, before, -⟩ | isBehind
  · rw [isRight, before] at closed
    cases closed
  · rw [unclosed_only_cons isBehind] at closed
    refine ⟨closed, ?_⟩
    rintro ⟨isRight, rfl⟩
    -- The brace takes its partner off the stack, so the stack cannot stay as it is.
    have stays : behind scanner.modes.brackets (.mark .rightBrace) =
        some scanner.modes.brackets := by
      rw [← unclosed_singleton]
      rwa [isRight] at isBehind
    rcases behind_eq_some_iff.1 stays with
      ⟨bracket, opens, -⟩ | ⟨bracket, -, isClosed⟩ | ⟨-, closesNone, -⟩
    · cases opens
    · exact List.cons_ne_self _ _ isClosed.symm
    · cases closesNone

/-- A text that closes its braces gives the same tokens where code surrounds it. -/
theorem Reaches.within
    (reaches : Reaches file scanner tokens last) (sound : scanner.Sound) (atEnd : last.AtEnd)
    (inLine : ∀ token ∈ tokens, token.kind ≠ .newline)
    (closed : unclosed scanner.modes.brackets (only isBraced (tokens.map Token.kind)) = some [])
    (stops : more.dropWhile isSpacing = more)
    (within : Within inserted outer more scanner place) :
    ReadsOn file inserted outer more place tokens := by
  induction reaches generalizing place with
  | here =>
      have isInitial := atEnd.modes_eq_initial (Option.some.inj closed)
      exact within.readsOn_blanks isInitial (by rw [atEnd.1]; rfl) stops
  | @token scanner last lexeme modes tokens step written further inductionHypothesis =>
      obtain ⟨-, inLineBehind⟩ := List.forall_mem_cons.1 inLine
      obtain ⟨closedBehind, paired⟩ := unclosed_behind_token step sound closed
      by_cases isLast : lexeme.kind = .whitespace ∧ lexeme.rest = []
      · obtain ⟨isBlank, isNil⟩ := isLast
        obtain ⟨isCode, rfl, rfl⟩ := ModeStack.blanks_of_move step isBlank
        obtain ⟨rfl, rfl⟩ := further.of_end isCode isNil
        have isInitial : scanner.modes = .initial :=
          atEnd.modes_eq_initial (Option.some.inj closedBehind)
        have readsOn : ReadsOn file inserted outer more place [] :=
          within.readsOn_blanks isInitial isNil stops
        exact readsOn
      · have noComment := ne_comment_of_inLine step further atEnd.2.1 inLineBehind
        have ends : (Move.token lexeme modes).EndsBefore ' ' :=
          ⟨fun isBlank => Or.inr fun isNil => isLast ⟨isBlank, isNil⟩,
            fun text isComment => absurd isComment (noComment text)⟩
        refine within.readsOn_token sound step written paired ends ?_
        exact inductionHypothesis (sound.afterToken step) atEnd inLineBehind closedBehind
  | @quote scanner last mark rest modes tokens step further inductionHypothesis =>
      have quotes := ModeStack.quotes_of_move step
      rw [← ModeStack.Quotes.brackets quotes sound] at closed
      refine within.readsOn_quote sound step ?_
      exact inductionHypothesis (sound.afterQuote step) atEnd inLine closed

end Scanner

end ScriptFront
