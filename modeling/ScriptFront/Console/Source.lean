import ScriptFront.Console.Listing
import ScriptFront.Console.Transcript
import ScriptFront.Fault.Report
import ScriptFront.Grammar.Program

/-!
Runs on a source text: its tokens or its trees are listed, or what is wrong with it is reported.
Nothing is written to the output before the whole text is known to be sound.
-/

namespace ScriptFront

/-- The run that writes a result, or reports the fault that stands in its place. The report shows
lines of the text `shown`. -/
def Transcript.ofResult {α : Type} (coloured : Bool) (shown : String) (write : α → String) :
    Except Fault α → Transcript
  | .ok value => .success (write value)
  | .error fault => .failure (fault.report coloured (some shown))

/-- The run that lists the tokens of a source text. -/
def listTokens (coloured : Bool) (file source : String) : Transcript :=
  .ofResult coloured source (tokenListing file) (tokenize source (some file))

/-- The run that prints the trees of a source text. -/
def printTree (coloured : Bool) (file source shown : String) : Transcript :=
  .ofResult coloured shown treeListing (parse source (some file))

end ScriptFront
