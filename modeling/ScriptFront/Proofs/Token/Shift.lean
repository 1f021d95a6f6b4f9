import ScriptFront.Proofs.Token.Modes
import ScriptFront.Token.Reader

/-!
# The same text further down

A text that stands some lines further down gives the same items, with their places moved down by
these lines.  Braces that were left open in front of it make no difference: they are counted for the
sake of inserted expressions only.
-/

namespace ScriptFront

/-! ## Places further down -/

def Position.down (lines : Nat) (position : Position) : Position :=
  { position with line := position.line + lines }

/-- The place in the same column, some lines further down. -/
def Location.down (lines : Nat) (location : Location) : Location :=
  { location with line := location.line + lines }

def Token.down (lines : Nat) (token : Token) : Token :=
  { token with location := token.location.down lines }

/-- The same fault, some lines further down. -/
def Fault.down (lines : Nat) : Fault → Fault
  | .lexical message location => .lexical message (location.down lines)
  | .syntactic message location found expected =>
    .syntactic message (location.down lines) found expected
  | .internal message => .internal message

def Item.down (lines : Nat) : Item → Item
  | .ok token => .ok (token.down lines)
  | .error fault => .error (fault.down lines)

namespace Position

variable {lines : Nat} {position : Position}

theorem down_step (character : Char) :
    (position.down lines).step character = (position.step character).down lines := by
  unfold step
  split
  · simp only [down, Nat.add_right_comm]
  · rfl

theorem down_after (text : List Char) :
    (position.down lines).after text = (position.after text).down lines := by
  induction text generalizing position with
  | nil => rfl
  | cons head tail inductionHypothesis =>
      rw [after_cons, after_cons, down_step, inductionHypothesis]

theorem down_inFile (file : Option String) :
    (position.down lines).inFile file = (position.inFile file).down lines := rfl

/-- Every newline of a text opens a line. -/
theorem line_after (text : List Char) :
    (position.after text).line = position.line + text.count '\n' := by
  induction text generalizing position with
  | nil => rfl
  | cons head tail inductionHypothesis =>
      rw [after_cons, inductionHypothesis]
      by_cases isNewline : head = '\n'
      · subst isNewline
        rw [List.count_cons_self]
        simp only [step, if_true]
        omega
      · rw [List.count_cons_of_ne isNewline]
        simp only [step, isNewline, if_false]

end Position

theorem LexicalCause.fault_down
    {cause : LexicalCause} (placed : cause ≠ .strayString) (lines : Nat) (location : Location) :
    cause.fault (location.down lines) = (cause.fault location).down lines := by
  cases cause with
  | strayString => exact absurd rfl placed
  | _ => rfl

/-! ## What can be seen of the modes -/

/-- The frame without its count of braces, if that ends nothing. -/
def Frame.visible (frame : Frame) : Frame :=
  if frame.interpolating then frame else { frame with openBraces := 0 }

def ModeStack.visible (modes : ModeStack) : ModeStack :=
  ⟨modes.top.visible, modes.below.map Frame.visible⟩

def Move.visible : Move → Move
  | .token lexeme modes => .token lexeme modes.visible
  | .quote mark rest modes => .quote mark rest modes.visible
  | .refused cause => .refused cause

namespace Frame

theorem visible_visible (frame : Frame) : frame.visible.visible = frame.visible := by
  unfold visible
  split <;> rfl

theorem visible_mode (frame : Frame) : frame.visible.mode = frame.mode := by
  unfold visible
  split <;> rfl

theorem visible_segmentOpen (frame : Frame) : frame.visible.segmentOpen = frame.segmentOpen := by
  unfold visible
  split <;> rfl

theorem visible_setSegmentOpen (frame : Frame) (isOpen : Bool) :
    Frame.visible { frame.visible with segmentOpen := isOpen } =
      Frame.visible { frame with segmentOpen := isOpen } := by
  rcases frame with ⟨mode, interpolating, openBraces, segmentOpen⟩
  cases interpolating <;> rfl

theorem visible_openBraces (frame : Frame) :
    Frame.visible { frame.visible with openBraces := frame.visible.openBraces + 1 } =
      Frame.visible { frame with openBraces := frame.openBraces + 1 } := by
  rcases frame with ⟨mode, interpolating, openBraces, segmentOpen⟩
  cases interpolating <;> rfl

end Frame

namespace ModeStack

theorem visible_visible (modes : ModeStack) : modes.visible.visible = modes.visible := by
  simp [visible, Frame.visible_visible, Function.comp_def]

theorem visible_mode (modes : ModeStack) : modes.visible.mode = modes.mode :=
  Frame.visible_mode _

theorem visible_inString (modes : ModeStack) : modes.visible.inString = modes.inString := by
  simp [inString, frames, visible, Frame.visible_mode, Function.comp_def]

theorem visible_push (modes : ModeStack) (mode : Mode) :
    (modes.visible.push mode).visible = (modes.push mode).visible := by
  simp [push, enter, frames, visible, Frame.visible_visible, Function.comp_def]

theorem visible_setSegmentOpen (modes : ModeStack) (isOpen : Bool) :
    (modes.visible.setSegmentOpen isOpen).visible = (modes.setSegmentOpen isOpen).visible := by
  simp [setSegmentOpen, visible, Frame.visible_visible, Frame.visible_setSegmentOpen,
    Function.comp_def]

theorem visible_pushInterpolation (modes : ModeStack) :
    modes.visible.pushInterpolation.visible = modes.pushInterpolation.visible := by
  simp [pushInterpolation, enter, frames, setSegmentOpen, visible, Frame.visible_visible,
    Frame.visible_setSegmentOpen, Function.comp_def]

theorem visible_pop (modes : ModeStack) :
    modes.visible.pop.2.visible = modes.pop.2.visible := by
  rcases modes with ⟨top, _ | ⟨lower, others⟩⟩
  · exact visible_visible ⟨top, []⟩
  · exact visible_visible ⟨lower, others⟩

theorem visible_openBrace (modes : ModeStack) :
    modes.visible.openBrace.visible = modes.openBrace.visible := by
  simp [openBrace, visible, Frame.visible_visible, Frame.visible_openBraces, Function.comp_def]

theorem visible_closeBrace (modes : ModeStack) :
    modes.visible.closeBrace.1 = modes.closeBrace.1 ∧
      modes.visible.closeBrace.2.visible = modes.closeBrace.2.visible := by
  rcases modes with ⟨⟨mode, interpolating, openBraces, segmentOpen⟩, others⟩
  cases openBraces with
  | zero =>
      have same := visible_visible ⟨⟨mode, interpolating, 0, segmentOpen⟩, others⟩
      cases interpolating with
      | false => exact ⟨rfl, same⟩
      | true => exact ⟨rfl, same⟩
  | succ outer =>
      have lower := visible_visible ⟨⟨mode, interpolating, outer, segmentOpen⟩, others⟩
      cases interpolating with
      | false => exact ⟨rfl, lower⟩
      | true => exact ⟨rfl, lower⟩

theorem numberMove_visible (modes : ModeStack) (reading : Numeral.Reading) :
    (modes.visible.numberMove reading).visible = (modes.numberMove reading).visible := by
  unfold numberMove
  split
  · exact congrArg (Move.token _) (visible_visible modes)
  · rfl

theorem signMove_visible (modes : ModeStack) (sign : Sign) (rest : List Char) :
    (modes.visible.signMove sign rest).visible = (modes.signMove sign rest).visible := by
  obtain ⟨sameEnd, sameRest⟩ := visible_closeBrace modes
  unfold signMove
  split
  · exact congrArg (Move.token _) (visible_openBrace modes)
  · rcases isClosed : modes.closeBrace with ⟨ends, closed⟩
    rcases isOther : modes.visible.closeBrace with ⟨otherEnds, other⟩
    rw [isClosed, isOther] at sameEnd sameRest
    obtain rfl : otherEnds = ends := sameEnd
    replace sameRest : other.visible = closed.visible := sameRest
    cases otherEnds with
    | false => exact congrArg (Move.token _) sameRest
    | true =>
        refine congrArg (Move.token _) ?_
        rw [← visible_pop, sameRest, visible_pop]
  · exact congrArg (Move.token _) (visible_visible modes)

theorem codeMove_visible (modes : ModeStack) (input : List Char) :
    (modes.visible.codeMove input).visible = (modes.codeMove input).visible := by
  unfold codeMove
  split
  · rw [visible_inString]
    split
    · rfl
    · exact congrArg (Move.token _) (visible_visible modes)
  · exact congrArg (Move.token _) (visible_visible modes)
  · exact congrArg (Move.quote _ _) (visible_push modes _)
  · exact congrArg (Move.quote _ _) (visible_push modes _)
  · exact congrArg (Move.token _) (visible_push modes _)
  · split
    · exact congrArg (Move.token _) (visible_visible modes)
    split
    · exact numberMove_visible modes _
    split
    · exact congrArg (Move.token _) (visible_visible modes)
    split
    · exact congrArg (Move.token _) (visible_visible modes)
    split
    · rfl
    · exact signMove_visible modes _ _

theorem segmentMove_visible (modes : ModeStack) (segment? : Option Segment) :
    (modes.visible.segmentMove segment?).visible = (modes.segmentMove segment?).visible := by
  cases segment? with
  | none => rfl
  | some segment => exact congrArg (Move.token _) (visible_setSegmentOpen modes false)

theorem plainMove_visible (modes : ModeStack) (input : List Char) :
    (modes.visible.plainMove input).visible = (modes.plainMove input).visible := by
  unfold plainMove
  rw [show modes.visible.top.segmentOpen = modes.top.segmentOpen from
    Frame.visible_segmentOpen _]
  split
  · exact segmentMove_visible modes _
  · split
    · exact congrArg (Move.quote _ _) (visible_pop modes)
    · rfl

theorem richMove_visible (modes : ModeStack) (input : List Char) :
    (modes.visible.richMove input).visible = (modes.richMove input).visible := by
  unfold richMove
  rw [show modes.visible.top.segmentOpen = modes.top.segmentOpen from
    Frame.visible_segmentOpen _]
  split
  · exact segmentMove_visible modes _
  · split
    · exact congrArg (Move.quote _ _) (visible_pop modes)
    · exact congrArg (Move.token _) (visible_pushInterpolation modes)
    · rfl

theorem commentMove_visible (modes : ModeStack) (input : List Char) :
    (modes.visible.commentMove input).visible = (modes.commentMove input).visible := by
  unfold commentMove
  split
  · exact congrArg (Move.token _) (visible_pop modes)
  · rfl

/-- A step does not depend on what cannot be seen of the modes. -/
theorem move_visible (modes : ModeStack) (input : List Char) :
    (modes.visible.move input).visible = (modes.move input).visible := by
  unfold move
  rw [visible_mode]
  split
  · exact codeMove_visible modes input
  · exact plainMove_visible modes input
  · exact richMove_visible modes input
  · exact commentMove_visible modes input

/-- Two stacks between which no difference can be seen make the same step. -/
theorem move_visible_congr
    {first second : ModeStack} (same : first.visible = second.visible) (input : List Char) :
    (first.move input).visible = (second.move input).visible := by
  rw [← move_visible first, same, move_visible]

end ModeStack

/-- Code that nothing surrounds looks as at the start of a text. -/
theorem ModeStack.Sound.visible_of_alone
    {modes : ModeStack} {input : List Char} (sound : modes.Sound input)
    (alone : modes.below = []) : modes.visible = initial.visible := by
  rcases modes with ⟨⟨mode, interpolating, openBraces, segmentOpen⟩, others⟩
  obtain rfl : others = [] := alone
  rcases sound.layered with ⟨isCode, plain, closed⟩
  obtain rfl : mode = .code := isCode
  obtain rfl : interpolating = false := plain
  obtain rfl : segmentOpen = false := closed
  rfl

namespace Move

theorem token_of_visible
    {move : Move} {lexeme : Lexeme} {modes : ModeStack}
    (same : move.visible = (token lexeme modes).visible) :
    ∃ other, move = token lexeme other ∧ other.visible = modes.visible := by
  cases move with
  | token _ other =>
      obtain ⟨rfl, sameModes⟩ := token.inj same
      exact ⟨other, rfl, sameModes⟩
  | _ => cases same

theorem quote_of_visible
    {move : Move} {mark : Char} {rest : List Char} {modes : ModeStack}
    (same : move.visible = (quote mark rest modes).visible) :
    ∃ other, move = quote mark rest other ∧ other.visible = modes.visible := by
  cases move with
  | quote _ _ other =>
      obtain ⟨rfl, rfl, sameModes⟩ := quote.inj same
      exact ⟨other, rfl, sameModes⟩
  | _ => cases same

theorem refused_of_visible
    {move : Move} {cause : LexicalCause} (same : move.visible = (refused cause).visible) :
    move = refused cause := by
  cases move with
  | refused => exact same
  | _ => cases same

end Move

/-! ## Items -/

namespace Scanner

variable {file : Option String} {scanner : Scanner}

theorem items_congr {first second : Scanner} (same : first.next file = second.next file) :
    first.items file = second.items file := by
  cases found : second.next file with
  | error fault => rw [items_of_error (same.trans found), items_of_error found]
  | ok item =>
      obtain ⟨token, after⟩ := item
      by_cases ended : token.kind = .endOfInput
      · rw [items_of_end (same.trans found) ended, items_of_end found ended]
      · rw [items_of_more (same.trans found) ended, items_of_more found ended]

theorem items_of_quote
    {mark : Char} {rest : List Char} {modes : ModeStack}
    (step : scanner.modes.move scanner.rest = .quote mark rest modes) :
    scanner.items file = (scanner.afterQuote mark rest modes).items file :=
  items_congr (next_of_quote step)

theorem items_of_token
    {lexeme : Lexeme} {modes : ModeStack}
    (step : scanner.modes.move scanner.rest = .token lexeme modes)
    (more : lexeme.kind ≠ .endOfInput) :
    scanner.items file =
      .ok (scanner.token file lexeme) :: (scanner.afterToken lexeme modes).items file :=
  items_of_more (next_of_token step) more

theorem items_of_last
    {lexeme : Lexeme} {modes : ModeStack}
    (step : scanner.modes.move scanner.rest = .token lexeme modes)
    (ended : lexeme.kind = .endOfInput) :
    scanner.items file = [.ok (scanner.token file lexeme)] :=
  items_of_end (next_of_token step) ended

theorem items_of_refused
    {cause : LexicalCause} (step : scanner.modes.move scanner.rest = .refused cause) :
    scanner.items file = [.error (cause.fault (scanner.position.inFile file))] :=
  items_of_error (next_of_refused step)

/-- The same text is ahead, some lines further down, and no difference can be seen between the
modes. -/
structure Mirrors (lines : Nat) (lower upper : Scanner) : Prop where
  rest : lower.rest = upper.rest
  position : lower.position = upper.position.down lines
  modes : lower.modes.visible = upper.modes.visible
  spaced : lower.spaced = upper.spaced

theorem Mirrors.token
    {lines : Nat} {lower upper : Scanner} (mirrors : Mirrors lines lower upper)
    (file : Option String) (lexeme : Lexeme) :
    lower.token file lexeme = (upper.token file lexeme).down lines := by
  simp only [Scanner.token, mirrors.position, mirrors.spaced, Position.down_inFile]
  rfl

/-- Items further down are the same items with their places moved down. -/
theorem Mirrors.items
    {lines : Nat} {lower upper : Scanner} (mirrors : Mirrors lines lower upper)
    (sound : upper.Sound) : lower.items file = (upper.items file).map (Item.down lines) := by
  induction sound using Sound.induction generalizing lower with
  | refused upper sound cause step accidental =>
      have sameStep := ModeStack.move_visible_congr mirrors.modes upper.rest
      rw [step, ← mirrors.rest] at sameStep
      rw [items_of_refused step, items_of_refused (Move.refused_of_visible sameStep),
        mirrors.position, Position.down_inFile, LexicalCause.fault_down accidental]
      rfl
  | quote upper sound mark rest modes _ step inductionHypothesis =>
      have sameStep := ModeStack.move_visible_congr mirrors.modes upper.rest
      rw [step, ← mirrors.rest] at sameStep
      obtain ⟨other, lowerStep, sameModes⟩ := Move.quote_of_visible sameStep
      have further : Mirrors lines (lower.afterQuote mark rest other)
          (upper.afterQuote mark rest modes) := by
        refine ⟨rfl, ?_, sameModes, mirrors.spaced⟩
        simp only [afterQuote, mirrors.position, Position.down_step]
      rw [items_of_quote step, items_of_quote lowerStep, inductionHypothesis further]
  | last upper sound lexeme modes step ended =>
      have sameStep := ModeStack.move_visible_congr mirrors.modes upper.rest
      rw [step, ← mirrors.rest] at sameStep
      obtain ⟨other, lowerStep, -⟩ := Move.token_of_visible sameStep
      rw [items_of_last step ended, items_of_last lowerStep ended, mirrors.token file lexeme]
      rfl
  | token upper sound lexeme modes _ step more inductionHypothesis =>
      have sameStep := ModeStack.move_visible_congr mirrors.modes upper.rest
      rw [step, ← mirrors.rest] at sameStep
      obtain ⟨other, lowerStep, sameModes⟩ := Move.token_of_visible sameStep
      have further : Mirrors lines (lower.afterToken lexeme other)
          (upper.afterToken lexeme modes) := by
        refine ⟨rfl, ?_, sameModes, rfl⟩
        simp only [afterToken, mirrors.position, Position.down_after]
      rw [items_of_token step more, items_of_token lowerStep more, mirrors.token file lexeme,
        inductionHypothesis further]
      rfl

end Scanner

/-! ## Tokens -/

theorem tokenize_eq (source : String) (file : Option String) :
    tokenize source file = significantTokens ((Scanner.start source.toList).items file) := rfl

theorem significantTokens_cons_error (fault : Fault) (items : List Item) :
    significantTokens (.error fault :: items) = .error fault := by
  rw [significantTokens, List.mapM_cons]
  rfl

theorem significantTokens_cons_ok (token : Token) (items : List Item) :
    significantTokens (.ok token :: items) =
      (significantTokens items).map (Token.significant [token] ++ ·) := by
  rw [significantTokens, significantTokens, List.mapM_cons]
  cases items.mapM id with
  | error fault => rfl
  | ok tokens => exact congrArg Except.ok (List.filter_append [token] tokens)

theorem significantTokens_append (tokens : List Token) (items : List Item) :
    significantTokens (tokens.map Except.ok ++ items) =
      (significantTokens items).map (Token.significant tokens ++ ·) := by
  induction tokens with
  | nil =>
      rw [List.map_nil, List.nil_append]
      cases significantTokens items <;> rfl
  | cons head tail inductionHypothesis =>
      rw [List.map_cons, List.cons_append, significantTokens_cons_ok, inductionHypothesis]
      cases significantTokens items with
      | error fault => rfl
      | ok others =>
          have whole : Token.significant ([head] ++ tail) =
              Token.significant [head] ++ Token.significant tail := List.filter_append [head] tail
          simp only [Except.map, ← List.append_assoc, ← whole, List.singleton_append]

theorem Token.significant_down (lines : Nat) (tokens : List Token) :
    significant (tokens.map (Token.down lines)) = (significant tokens).map (Token.down lines) :=
  List.filter_map

/-- The tokens of a text further down, or the fault in it. -/
theorem significantTokens_down (lines : Nat) (items : List Item) :
    significantTokens (items.map (Item.down lines)) =
      match significantTokens items with
      | .ok tokens => .ok (tokens.map (Token.down lines))
      | .error fault => .error (fault.down lines) := by
  induction items with
  | nil => rfl
  | cons head tail inductionHypothesis =>
      cases head with
      | error fault =>
          rw [List.map_cons, Item.down, significantTokens_cons_error,
            significantTokens_cons_error]
      | ok token =>
          rw [List.map_cons, Item.down, significantTokens_cons_ok, significantTokens_cons_ok,
            inductionHypothesis]
          cases significantTokens tail with
          | error fault => rfl
          | ok tokens =>
              have single := Token.significant_down lines [token]
              simp only [Except.map, List.map_append, ← single]
              rfl

end ScriptFront
