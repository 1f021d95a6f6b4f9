import ScriptFront.Token.Mode
import ScriptFront.Token.Numeral
import ScriptFront.Token.Segment
import ScriptFront.Token.Sign

/-!
One step of reading: from the stack of modes and the text ahead to a token, to a quote that is
passed without a token, or to the reason why there is neither. Where the text lies in its file
plays no part. Every step covers the front of the text it is given, and the steps of a text come to
an end.
-/

namespace ScriptFront

/-- The result of one step of reading. -/
inductive Move where
  /-- A token was read. -/
  | token (lexeme : Lexeme) (modes : ModeStack)
  /-- A quote that opens or closes a string was passed. -/
  | quote (mark : Char) (rest : List Char) (modes : ModeStack)
  | refused (cause : LexicalCause)
deriving DecidableEq, Repr

namespace ModeStack

/-- A number as a token, if it has a value. -/
def numberMove (modes : ModeStack) (reading : Numeral.Reading) : Move :=
  match reading.numeral.kind reading.text with
  | .ok kind => .token ⟨kind, reading.text, reading.rest⟩ modes
  | .error cause => .refused cause

/-- A sign as a token. Braces are counted, and a closing brace may end an inserted expression. -/
def signMove (modes : ModeStack) (sign : Sign) (rest : List Char) : Move :=
  match sign.kind with
  | .mark .leftBrace => .token ⟨sign.kind, sign.text, rest⟩ modes.openBrace
  | .mark .rightBrace =>
    match modes.closeBrace with
    | (true, closed) => .token ⟨.interpolationEnd, sign.text, rest⟩ closed.pop.2
    | (false, closed) => .token ⟨sign.kind, sign.text, rest⟩ closed
  | _ => .token ⟨sign.kind, sign.text, rest⟩ modes

/-- One step within code. -/
def codeMove (modes : ModeStack) : List Char → Move
  | [] =>
    if modes.inString then .refused .unterminatedInterpolation
    else .token ⟨.endOfInput, [], []⟩ modes
  | '\n' :: rest => .token ⟨.newline, ['\n'], rest⟩ modes
  | '\'' :: rest => .quote '\'' rest (modes.push .plainString)
  | '"' :: rest => .quote '"' rest (modes.push .richString)
  | '#' :: rest => .token (.comment ('#' :: rest)) (modes.push .comment)
  | first :: rest =>
    if isSpacing first then .token (.spacing (first :: rest)) modes
    else if first.isDigit then modes.numberMove (Numeral.read (first :: rest))
    else if isNameStart first then .token (.name (first :: rest)) modes
    else if first.isUpper then .token (.constant (first :: rest)) modes
    else
      match Sign.atFront? (first :: rest) with
      | none => .refused (.unexpected first)
      | some sign => modes.signMove sign ((first :: rest).drop sign.text.length)

/-- The piece of a string as a token; the piece is then read. -/
def segmentMove (modes : ModeStack) : Option Segment → Move
  | none => .refused .unterminatedString
  | some segment =>
    .token ⟨.fragment (String.ofList segment.value), segment.text, segment.rest⟩
      (modes.setSegmentOpen false)

/-- One step within a string between single quotes. -/
def plainMove (modes : ModeStack) (input : List Char) : Move :=
  if modes.top.segmentOpen then modes.segmentMove (Segment.plain? input)
  else match input with
    | '\'' :: rest => .quote '\'' rest modes.pop.2
    | _ => .refused .strayString

/-- One step within a string between double quotes. -/
def richMove (modes : ModeStack) (input : List Char) : Move :=
  if modes.top.segmentOpen then modes.segmentMove (Segment.rich? input)
  else match input with
    | '"' :: rest => .quote '"' rest modes.pop.2
    | '#' :: '{' :: rest =>
      .token ⟨.interpolationStart, ['#', '{'], rest⟩ modes.pushInterpolation
    | _ => .refused .strayString

/-- The step behind the text of a comment, where only the end of the line can follow. -/
def commentMove (modes : ModeStack) : List Char → Move
  | '\n' :: rest => .token ⟨.newline, ['\n'], rest⟩ modes.pop.2
  | _ => .refused .unterminatedComment

/-- One step by the rules of the mode on top. -/
def move (modes : ModeStack) (input : List Char) : Move :=
  match modes.mode with
  | .code => modes.codeMove input
  | .plainString => modes.plainMove input
  | .richString => modes.richMove input
  | .comment => modes.commentMove input

/-- One if a piece of the string on top is still to be read. -/
def pending (modes : ModeStack) : Nat := modes.top.segmentOpen.toNat

end ModeStack

namespace Move

/-- The characters that a step covers and those that it leaves are the text it was given. -/
def Covers (move : Move) (input : List Char) : Prop :=
  match move with
  | .token lexeme _ => lexeme.text ++ lexeme.rest = input
  | .quote mark rest _ => mark :: rest = input
  | .refused _ => True

end Move

end ScriptFront
