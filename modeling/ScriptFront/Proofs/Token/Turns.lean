import ScriptFront.Proofs.Token.Modes

/-!
# What a step does to the stack

A token changes the stack of modes in one way for each kind, and a quote enters or leaves the string
that it delimits.  All that is known of the stack behind a step follows from these rules.
-/

namespace ScriptFront

/-- The quote around a string of a mode. -/
def Mode.delimiter? : Mode → Option Char
  | .plainString => some '\''
  | .richString => some '"'
  | _ => none

theorem Mode.isString_of_delimiter?
    {mode : Mode} {mark : Char} (delimits : mode.delimiter? = some mark) :
    mode.isString = true := by
  cases mode with
  | plainString | richString => rfl
  | code | comment => cases delimits

theorem Mode.ne_code_of_isString {mode : Mode} (isString : mode.isString = true) :
    mode ≠ .code := by
  rintro rfl
  cases isString

/-- Only quotes stand around strings. -/
theorem Mode.eq_quote_of_delimiter?
    {mode : Mode} {mark : Char} (delimits : mode.delimiter? = some mark) :
    mark = '\'' ∨ mark = '"' := by
  cases mode with
  | plainString => exact Or.inl (Option.some.inj delimits).symm
  | richString => exact Or.inr (Option.some.inj delimits).symm
  | code | comment => cases delimits

def Kind.isFragment : Kind → Bool
  | .fragment _ => true
  | _ => false

/-- Tokens of these kinds leave the stack as it is, wherever they stand in code. -/
def Kind.isPlain : Kind → Bool
  | .fragment _ | .interpolationStart | .interpolationEnd | .comment _ => false
  | .mark sign => sign ≠ .leftBrace ∧ sign ≠ .rightBrace
  | _ => true

namespace ModeStack

/-- A token of the given kind, read from the front of a text, turns one stack into the other. -/
inductive Turns (modes : ModeStack) (input : List Char) : Kind → ModeStack → Prop where
  | plain {kind : Kind} (isCode : modes.mode = .code) (isPlain : kind.isPlain = true) :
      Turns modes input kind modes
  | braceOpens (isCode : modes.mode = .code) : Turns modes input (.mark .leftBrace) modes.openBrace
  | braceCloses {outer : Nat} (isCode : modes.mode = .code)
      (counted : modes.top.openBraces = outer + 1) :
      Turns modes input (.mark .rightBrace)
        { modes with top := { modes.top with openBraces := outer } }
  | strayBrace (isCode : modes.mode = .code) (uncounted : modes.top.openBraces = 0)
      (alone : modes.top.interpolating = false) : Turns modes input (.mark .rightBrace) modes
  | insertionStarts (isRich : modes.mode = .richString) (isRead : modes.top.segmentOpen = false) :
      Turns modes input .interpolationStart modes.pushInterpolation
  | insertionEnds (isCode : modes.mode = .code) (uncounted : modes.top.openBraces = 0)
      (inserted : modes.top.interpolating = true) : Turns modes input .interpolationEnd modes.pop.2
  | piece {text : String} (isString : modes.mode.isString = true)
      (isOpen : modes.top.segmentOpen = true) :
      Turns modes input (.fragment text) (modes.setSegmentOpen false)
  | commentStarts {text : String} {rest : List Char} (isCode : modes.mode = .code)
      (ahead : input = '#' :: rest) : Turns modes input (.comment text) (modes.push .comment)
  | commentEnds (isComment : modes.mode = .comment) : Turns modes input .newline modes.pop.2

/-- A quote turns one stack into the other. -/
inductive Quotes (modes : ModeStack) : Char → ModeStack → Prop where
  | opens {mark : Char} {mode : Mode} (isCode : modes.mode = .code)
      (delimits : mode.delimiter? = some mark) : Quotes modes mark (modes.push mode)
  | closes {mark : Char} (isRead : modes.top.segmentOpen = false)
      (delimits : modes.mode.delimiter? = some mark) : Quotes modes mark modes.pop.2

/-- The step does to the stack what its token or its quote does. -/
def FollowsRules (modes : ModeStack) (input : List Char) : Move → Prop
  | .token lexeme after => modes.Turns input lexeme.kind after
  | .quote mark _ after => modes.Quotes mark after
  | .refused _ => True

variable {modes after : ModeStack} {input : List Char}

/-! ## Every step follows the rules -/

theorem numberMove_followsRules (isCode : modes.mode = .code) (reading : Numeral.Reading) :
    modes.FollowsRules input (modes.numberMove reading) := by
  unfold numberMove
  split
  · rename_i isKind
    refine .plain isCode ?_
    rcases Numeral.kind_cases isKind with ⟨value, rfl⟩ | ⟨value, rfl⟩ <;> rfl
  · trivial

theorem isPlain_name (input : List Char) : (Lexeme.name input).kind.isPlain = true := by
  rcases Lexeme.kind_name_cases input with ⟨text, isKind⟩ | ⟨keyword, isKind⟩ <;>
    exact congrArg Kind.isPlain isKind

/-- Of all signs only braces change the stack. -/
theorem isPlain_sign
    {sign : Sign} (member : sign ∈ Sign.all) (noLeft : sign.kind ≠ .mark .leftBrace)
    (noRight : sign.kind ≠ .mark .rightBrace) : sign.kind.isPlain = true := by
  rcases Sign.kind_cases member with ⟨operator, isKind⟩ | ⟨mark, isKind⟩
  · rw [isKind]
    rfl
  · rw [isKind] at noLeft noRight ⊢
    have differsLeft : mark ≠ .leftBrace := fun same => noLeft (congrArg Kind.mark same)
    have differsRight : mark ≠ .rightBrace := fun same => noRight (congrArg Kind.mark same)
    exact decide_eq_true ⟨differsLeft, differsRight⟩

theorem signMove_followsRules
    (isCode : modes.mode = .code) {sign : Sign} (member : sign ∈ Sign.all) (rest : List Char) :
    modes.FollowsRules input (modes.signMove sign rest) := by
  unfold signMove
  split
  · rename_i isLeft
    simp only [FollowsRules, isLeft]
    exact .braceOpens isCode
  · rename_i isRight
    cases counted : modes.top.openBraces with
    | succ outer =>
        simp only [closeBrace, counted, FollowsRules, isRight]
        exact .braceCloses isCode counted
    | zero =>
        cases inserted : modes.top.interpolating with
        | true =>
            simp only [closeBrace, counted, inserted, FollowsRules]
            exact .insertionEnds isCode counted inserted
        | false =>
            simp only [closeBrace, counted, inserted, FollowsRules, isRight]
            exact .strayBrace isCode counted inserted
  · rename_i noLeft noRight
    exact .plain isCode (isPlain_sign member noLeft noRight)

theorem codeMove_followsRules (isCode : modes.mode = .code) (input : List Char) :
    modes.FollowsRules input (modes.codeMove input) := by
  unfold codeMove
  split
  · split
    · trivial
    · exact .plain isCode rfl
  · exact .plain isCode rfl
  · exact .opens isCode rfl
  · exact .opens isCode rfl
  · exact .commentStarts isCode rfl
  · split
    · exact .plain isCode rfl
    split
    · exact numberMove_followsRules isCode _
    split
    · exact .plain isCode (isPlain_name _)
    split
    · exact .plain isCode rfl
    split
    · trivial
    · rename_i found
      exact signMove_followsRules isCode (Sign.atFront?_mem found) _

theorem segmentMove_followsRules
    (isString : modes.mode.isString = true) (isOpen : modes.top.segmentOpen = true)
    (segment? : Option Segment) : modes.FollowsRules input (modes.segmentMove segment?) := by
  cases segment? with
  | none => trivial
  | some segment => exact .piece isString isOpen

theorem move_followsRules (modes : ModeStack) (input : List Char) :
    modes.FollowsRules input (modes.move input) := by
  unfold move
  split
  · rename_i isCode
    exact codeMove_followsRules isCode input
  · rename_i isPlain
    unfold plainMove
    split
    · rename_i isOpen
      exact segmentMove_followsRules (by rw [isPlain]; rfl) isOpen _
    · rename_i isRead
      split
      · exact .closes (by simpa using isRead) (by rw [isPlain]; rfl)
      · trivial
  · rename_i isRich
    unfold richMove
    split
    · rename_i isOpen
      exact segmentMove_followsRules (by rw [isRich]; rfl) isOpen _
    · rename_i isRead
      split
      · exact .closes (by simpa using isRead) (by rw [isRich]; rfl)
      · exact .insertionStarts isRich (by simpa using isRead)
      · trivial
  · rename_i isComment
    unfold commentMove
    split
    · exact .commentEnds isComment
    · trivial

theorem turns_of_move
    {lexeme : Lexeme} (step : modes.move input = .token lexeme after) :
    modes.Turns input lexeme.kind after := by
  have followed := move_followsRules modes input
  rwa [step] at followed

theorem quotes_of_move
    {mark : Char} {rest : List Char} (step : modes.move input = .quote mark rest after) :
    modes.Quotes mark after := by
  have followed := move_followsRules modes input
  rwa [step] at followed

end ModeStack

end ScriptFront
