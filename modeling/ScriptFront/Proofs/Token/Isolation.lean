import ScriptFront.Token.Mode

/-!
# Frames that are left alone

Whatever is done to a stack of modes, code that nothing inserted stays at the bottom.  A frame that
is entered and left again has no effect on those below it, however much is done on top of them; an
inserted expression only marks that its string goes on.
-/

namespace ScriptFront

/-- What can be done to a stack of modes. -/
inductive StackOperation where
  | push (mode : Mode)
  | pushInterpolation
  | pop
  | openBrace
  | closeBrace
  | setSegmentOpen (isOpen : Bool)
deriving DecidableEq, Repr

namespace ModeStack

/-- The stack behind an operation. -/
def apply (stack : ModeStack) : StackOperation → ModeStack
  | .push mode => stack.push mode
  | .pushInterpolation => stack.pushInterpolation
  | .pop => stack.pop.2
  | .openBrace => stack.openBrace
  | .closeBrace => stack.closeBrace.2
  | .setSegmentOpen isOpen => stack.setSegmentOpen isOpen

/-- The stack behind operations, the first one first. -/
def run (stack : ModeStack) (operations : List StackOperation) : ModeStack :=
  operations.foldl apply stack

/-- Every pop among the operations finds more frames than the given number. -/
def PopsAbove (depth : Nat) : ModeStack → List StackOperation → Prop
  | _, [] => True
  | stack, operation :: others =>
    (operation = .pop → depth < stack.frames.length) ∧ PopsAbove depth (stack.apply operation) others

instance decidablePopsAbove (depth : Nat) :
    ∀ stack operations, Decidable (PopsAbove depth stack operations)
  | _, [] => .isTrue trivial
  | stack, operation :: others =>
    have := decidablePopsAbove depth (stack.apply operation) others
    inferInstanceAs (Decidable (_ ∧ _))

/-- The operations take away none of the frames that the stack has at the start. -/
def Keeps (stack : ModeStack) (operations : List StackOperation) : Prop :=
  PopsAbove stack.frames.length stack operations

instance (stack : ModeStack) (operations : List StackOperation) :
    Decidable (stack.Keeps operations) :=
  decidablePopsAbove _ _ _

variable {stack upper base : ModeStack} {operations : List StackOperation}

/-! ## The bottom of a stack -/

/-- The frame that was there first. -/
def bottom (stack : ModeStack) : Frame := stack.below.getLastD stack.top

theorem frames_eq_append_bottom (stack : ModeStack) :
    ∃ others, stack.frames = others ++ [stack.bottom] := by
  rcases stack with ⟨top, below⟩
  induction below generalizing top with
  | nil => exact ⟨[], rfl⟩
  | cons lower others inductionHypothesis =>
      rcases inductionHypothesis lower with ⟨front, whole⟩
      refine ⟨top :: front, ?_⟩
      have sameBottom : (ModeStack.mk top (lower :: others)).bottom =
          (ModeStack.mk lower others).bottom := List.getLastD_cons
      rw [sameBottom, List.cons_append, ← whole]
      rfl

/-- A frame on top of all others makes no difference to the bottom. -/
theorem bottom_enter (stack : ModeStack) (frame : Frame) :
    (stack.enter frame).bottom = stack.bottom := by
  simp only [enter, bottom, frames, List.getLastD_cons]

/-- A change of the top frame reaches the bottom where nothing is between them, and keeps there
what the change keeps. -/
theorem bottom_of_top {frame : Frame} {below : List Frame}
    (sameMode : frame.mode = stack.top.mode)
    (sameFlag : frame.interpolating = stack.top.interpolating) (same : below = stack.below) :
    (ModeStack.mk frame below).bottom.mode = stack.bottom.mode ∧
      (ModeStack.mk frame below).bottom.interpolating = stack.bottom.interpolating := by
  subst same
  rcases stack with ⟨top, _ | ⟨lower, others⟩⟩
  · exact ⟨sameMode, sameFlag⟩
  · simp only [bottom, List.getLastD_cons, and_self]

/-- What is at the bottom keeps its mode, and whether it was inserted. -/
theorem bottom_apply (stack : ModeStack) (operation : StackOperation) :
    (stack.apply operation).bottom.mode = stack.bottom.mode ∧
      (stack.apply operation).bottom.interpolating = stack.bottom.interpolating := by
  cases operation with
  | push mode =>
      rw [apply, push, bottom_enter]
      exact ⟨rfl, rfl⟩
  | pushInterpolation =>
      rw [apply, pushInterpolation, bottom_enter]
      exact bottom_of_top rfl rfl rfl
  | pop =>
      rcases stack with ⟨top, _ | ⟨lower, others⟩⟩
      · exact ⟨rfl, rfl⟩
      · simp only [apply, pop, bottom, List.getLastD_cons, and_self]
  | openBrace | setSegmentOpen isOpen => exact bottom_of_top rfl rfl rfl
  | closeBrace =>
      rw [apply, closeBrace]
      split
      · exact ⟨rfl, rfl⟩
      · exact bottom_of_top rfl rfl rfl

theorem bottom_run (stack : ModeStack) (operations : List StackOperation) :
    (stack.run operations).bottom.mode = stack.bottom.mode ∧
      (stack.run operations).bottom.interpolating = stack.bottom.interpolating := by
  induction operations generalizing stack with
  | nil => exact ⟨rfl, rfl⟩
  | cons operation others inductionHypothesis =>
      rcases bottom_apply stack operation with ⟨sameMode, sameFlag⟩
      rcases inductionHypothesis (stack.apply operation) with ⟨modeBehind, flagBehind⟩
      exact ⟨modeBehind.trans sameMode, flagBehind.trans sameFlag⟩

/-! ## A stack on top of another one -/

/-- The frames of one stack on top of those of another one. -/
def above (upper base : ModeStack) : ModeStack := ⟨upper.top, upper.below ++ base.frames⟩

theorem length_frames_above (upper base : ModeStack) :
    (upper.above base).frames.length = upper.frames.length + base.frames.length := by
  simp only [frames, above, List.length_cons, List.length_append]
  omega

/-- An operation does to the upper stack what it does to that stack alone, unless it takes away its
last frame. -/
theorem apply_above
    (upper base : ModeStack) {operation : StackOperation}
    (stays : operation = .pop → 1 < upper.frames.length) :
    (upper.above base).apply operation = (upper.apply operation).above base := by
  rcases upper with ⟨⟨mode, interpolating, openBraces, segmentOpen⟩, below⟩
  cases operation with
  | push | pushInterpolation | openBrace | setSegmentOpen => rfl
  | pop =>
      cases below with
      | nil => cases Nat.lt_irrefl 1 (stays rfl)
      | cons lower others => rfl
  | closeBrace => cases openBraces <;> rfl

/-- Operations that leave one frame more than the lower stack has are operations on the upper
one. -/
theorem run_above
    (stays : PopsAbove (1 + base.frames.length) (upper.above base) operations) :
    (upper.above base).run operations = (upper.run operations).above base := by
  induction operations generalizing upper with
  | nil => rfl
  | cons operation others inductionHypothesis =>
      rcases stays with ⟨deeper, staysBehind⟩
      have step : (upper.above base).apply operation = (upper.apply operation).above base := by
        apply apply_above
        intro isPop
        have moreFrames := deeper isPop
        rw [length_frames_above] at moreFrames
        omega
      rw [step] at staysBehind
      calc
        (upper.above base).run (operation :: others)
            = ((upper.above base).apply operation).run others := rfl
        _ = ((upper.apply operation).run others).above base := by
            rw [step, inductionHypothesis staysBehind]

/-- Behind operations above a frame, popping that frame gives its mode and the stack below. -/
theorem pop_run_enter
    {frame : Frame} (keeps : (base.enter frame).Keeps operations)
    (onTop : ((base.enter frame).run operations).frames.length =
      (base.enter frame).frames.length) :
    ((base.enter frame).run operations).pop = (some frame.mode, base) := by
  have isAbove : base.enter frame = (ModeStack.mk frame []).above base := rfl
  have depth : (base.enter frame).frames.length = 1 + base.frames.length := Nat.add_comm _ _
  have separate : (base.enter frame).run operations =
      ((ModeStack.mk frame []).run operations).above base := by
    rw [Keeps, depth, isAbove] at keeps
    rw [isAbove, run_above keeps]
  have sameMode := (bottom_run (ModeStack.mk frame []) operations).1
  rw [separate, length_frames_above, depth] at onTop
  rw [separate]
  rcases isRun : (ModeStack.mk frame []).run operations with ⟨top, _ | ⟨lower, others⟩⟩
  · rw [isRun] at sameMode
    have topMode : top.mode = frame.mode := sameMode
    show (some top.mode, base) = (some frame.mode, base)
    rw [topMode]
  · rw [isRun] at onTop
    simp only [frames, List.length_cons] at onTop
    omega

end ModeStack

/-- Code that nothing inserted is at the bottom of every stack.  Whatever is done above a frame that
was entered, if that frame is popped only in the end, the stack is then the same as before; behind an
inserted expression it is the same, with a piece of its string to be read. -/
theorem frames_isolated :
    (∀ operations, ∃ others bottom,
      (ModeStack.initial.run operations).frames = others ++ [bottom] ∧
        bottom.mode = .code ∧ bottom.interpolating = false) ∧
    (∀ (stack : ModeStack) (mode : Mode) (operations : List StackOperation),
      (stack.push mode).Keeps operations →
      ((stack.push mode).run operations).frames.length = (stack.push mode).frames.length →
        ((stack.push mode).run operations).pop = (some mode, stack)) ∧
    ∀ (stack : ModeStack) (operations : List StackOperation),
      stack.pushInterpolation.Keeps operations →
      (stack.pushInterpolation.run operations).frames.length =
          stack.pushInterpolation.frames.length →
        (stack.pushInterpolation.run operations).pop =
          (some .code, { stack with top := { stack.top with segmentOpen := true } }) := by
  refine ⟨?_, ?_, ?_⟩
  · intro operations
    rcases ModeStack.frames_eq_append_bottom (ModeStack.initial.run operations) with ⟨others, whole⟩
    rcases ModeStack.bottom_run .initial operations with ⟨sameMode, sameFlag⟩
    exact ⟨others, _, whole, sameMode, sameFlag⟩
  · intro stack mode operations keeps onTop
    exact ModeStack.pop_run_enter keeps onTop
  · intro stack operations keeps onTop
    exact ModeStack.pop_run_enter keeps onTop

/-- On top of a string between double quotes a string is entered and closed, and an expression with
braces of its own, with braces that close nothing, and with a string and a comment in it. -/
theorem frames_isolated_nested :
    let string : Frame := ⟨.richString, false, 0, false⟩
    let code : Frame := ⟨.code, false, 0, false⟩
    let stack : ModeStack := ⟨string, [code]⟩
    let inString : List StackOperation := [.closeBrace, .openBrace]
    let inExpression : List StackOperation :=
      [.closeBrace, .openBrace, .openBrace, .push .plainString, .closeBrace, .pushInterpolation,
        .pop, .pop, .closeBrace, .push .comment, .pop, .setSegmentOpen true]
    ((stack.push .plainString).Keeps inString ∧
      (stack.push .plainString).run inString =
        ⟨⟨.plainString, false, 1, true⟩, [string, code]⟩ ∧
      ((stack.push .plainString).run inString).pop = (some .plainString, stack)) ∧
    stack.pushInterpolation.Keeps inExpression ∧
      stack.pushInterpolation.run inExpression =
        ⟨⟨.code, true, 1, true⟩, [⟨.richString, false, 0, true⟩, code]⟩ ∧
      (stack.pushInterpolation.run inExpression).pop =
        (some .code, ⟨⟨.richString, false, 0, true⟩, [code]⟩) := by
  intro string code stack inString inExpression
  have keepsString : (stack.push .plainString).Keeps inString := by decide
  have keepsExpression : stack.pushInterpolation.Keeps inExpression := by decide
  exact ⟨⟨keepsString, rfl, frames_isolated.2.1 stack .plainString inString keepsString rfl⟩,
    keepsExpression, rfl, frames_isolated.2.2 stack inExpression keepsExpression rfl⟩

end ScriptFront
