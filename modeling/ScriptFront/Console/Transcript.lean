/-!
What a run of the program writes, and the exit code that it ends with.
-/

namespace ScriptFront

structure Transcript where
  output : String
  diagnostics : String
  code : Nat
deriving DecidableEq, Repr

namespace Transcript

/-- A run that writes its result. -/
def success (output : String) : Transcript := ⟨output, "", 0⟩

/-- A run that only says why there is no result. -/
def failure (diagnostics : String) : Transcript := ⟨"", diagnostics, 1⟩

/-- The transcript with more written before it. -/
def preceded (output diagnostics : String) (transcript : Transcript) : Transcript :=
  ⟨output ++ transcript.output, diagnostics ++ transcript.diagnostics, transcript.code⟩

end Transcript

end ScriptFront
