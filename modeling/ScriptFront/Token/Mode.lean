/-!
The modes of reading. A source text is read by the rules of the mode on top of a stack: code, a
string between single or double quotes, or the end of a comment. An expression inside a
double-quoted string has a frame of its own, which counts its braces, so that only its own closing
brace ends it.
-/

namespace ScriptFront

/-- Which rules apply to the text that comes next. -/
inductive Mode where
  | code
  /-- Between single quotes. -/
  | plainString
  /-- Between double quotes, where expressions may be inserted. -/
  | richString
  /-- Behind the text of a comment. -/
  | comment
deriving DecidableEq, Repr

namespace Mode

def isString : Mode → Bool
  | plainString | richString => true
  | code | comment => false

/-- The name under which a mode is reported. -/
def name : Mode → String
  | code => "Default"
  | plainString => "SimpleString"
  | richString => "ComplexString"
  | comment => "Comment"

end Mode

/-- One entry of the stack of modes. -/
structure Frame where
  mode : Mode
  /-- The frame was opened by an insertion and ends at its closing brace. -/
  interpolating : Bool
  /-- The opening braces of this frame that are not closed yet. -/
  openBraces : Nat
  /-- A piece of the string of this frame is still to be read. -/
  segmentOpen : Bool
deriving DecidableEq, Repr

namespace Frame

/-- The frame of a mode just entered: a string starts with a piece to be read. -/
def entering (mode : Mode) : Frame := ⟨mode, false, 0, mode.isString⟩

/-- The frame of an expression inserted into a string. -/
def interpolation : Frame := ⟨.code, true, 0, false⟩

end Frame

/-- A stack of frames that is never empty. -/
structure ModeStack where
  top : Frame
  below : List Frame
deriving DecidableEq, Repr

namespace ModeStack

/-- Code, and nothing around it. -/
def initial : ModeStack := ⟨.entering .code, []⟩

def mode (stack : ModeStack) : Mode := stack.top.mode

/-- All frames, the top first. -/
def frames (stack : ModeStack) : List Frame := stack.top :: stack.below

/-- Puts a frame on top. -/
def enter (stack : ModeStack) (frame : Frame) : ModeStack := ⟨frame, stack.frames⟩

def push (stack : ModeStack) (mode : Mode) : ModeStack := stack.enter (.entering mode)

/-- Records whether a piece of the string on top is still to be read. -/
def setSegmentOpen (stack : ModeStack) (isOpen : Bool) : ModeStack :=
  { stack with top := { stack.top with segmentOpen := isOpen } }

/-- Enters an inserted expression. The string below continues with a new piece after it. -/
def pushInterpolation (stack : ModeStack) : ModeStack :=
  (stack.setSegmentOpen true).enter .interpolation

/-- Leaves the mode on top and names it; the last frame stays. -/
def pop (stack : ModeStack) : Option Mode × ModeStack :=
  match stack.below with
  | [] => (none, stack)
  | next :: others => (some stack.mode, ⟨next, others⟩)

/-- Counts an opening brace. -/
def openBrace (stack : ModeStack) : ModeStack :=
  { stack with top := { stack.top with openBraces := stack.top.openBraces + 1 } }

/-- Counts a closing brace, and tells whether it ends the inserted expression on top. -/
def closeBrace (stack : ModeStack) : Bool × ModeStack :=
  match stack.top.openBraces with
  | 0 => (stack.top.interpolating, stack)
  | outer + 1 => (false, { stack with top := { stack.top with openBraces := outer } })

/-- Whether some frame belongs to a string, be it on top or around an inserted expression. -/
def inString (stack : ModeStack) : Bool :=
  stack.frames.any (·.mode.isString)

end ModeStack

end ScriptFront
