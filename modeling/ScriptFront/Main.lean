import ScriptFront.Console.Run

/-!
The program: files, standard input and terminal are handed to the runs, and transcripts are written
out. A session is answered as its lines come in.
-/

namespace ScriptFront.Terminal

/-- The next line of a stream with its newline; empty at the end of the stream. -/
partial def readLine (stream : IO.FS.Stream) (line : ByteArray) : IO ByteArray := do
  let byte ← stream.read 1
  let line := line ++ byte
  if byte.isEmpty || byte = ⟨#[10]⟩ then return line else readLine stream line

/-- Answers the lines of a stream. -/
partial def answerLines (coloured : Bool) (stream : IO.FS.Stream) (number : Nat) : IO Unit := do
  IO.print (prompt number)
  (← IO.getStdout).flush
  let bytes ← readLine stream .empty
  if bytes.isEmpty then return
  let answer := (SessionLine.ofBytes bytes).answer coloured number
  IO.print answer.output
  IO.eprint answer.diagnostics
  if let some next := answer.next? then answerLines coloured stream next

/-- What the system says about a failure, with the number that it gives to it. -/
def reason : IO.Error → String
  | .unexpectedEof => "unexpected end of file"
  | .userError message => message
  | .otherError code details | .resourceBusy code details | .resourceVanished code details
  | .unsupportedOperation code details | .hardwareFault code details
  | .unsatisfiedConstraints code details | .illegalOperation code details
  | .protocolError code details | .timeExpired code details | .interrupted _ code details
  | .noFileOrDirectory _ code details | .alreadyExists _ code details
  | .invalidArgument _ code details | .permissionDenied _ code details
  | .resourceExhausted _ code details | .inappropriateType _ code details
  | .noSuchThing _ code details => details ++ " (os error " ++ toString code ++ ")"

/-- The bytes of a file, or the reason why it cannot be read. -/
def readFile (file : String) : IO (Except String ByteArray) := do
  try return .ok (← (← IO.FS.Handle.mk file .read).readBinToEnd)
  catch failure => return .error (reason failure)

/-- Runs the program on a command line and gives its exit code. -/
def serve (words : List String) : IO UInt32 := do
  let coloured ← (← IO.getStderr).isTty
  match Request.ofWords words with
  | .session =>
    IO.print greeting
    answerLines coloured (← IO.getStdin) 1
    IO.print farewell
    return 0
  | request =>
    let entries ← match request.file? with
      | none => pure []
      | some file => pure [(file, ← readFile file)]
    let transcript := request.run ⟨⟨entries⟩, .empty, coloured⟩
    IO.print transcript.output
    IO.eprint transcript.diagnostics
    return transcript.code.toUInt32

end ScriptFront.Terminal

def main (words : List String) : IO UInt32 :=
  ScriptFront.Terminal.serve words
