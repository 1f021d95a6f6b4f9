import ScriptFront.Console.Request
import ScriptFront.Console.Session

/-!
Runs of the program. Given a command line, the files and the standard input, a run is a transcript.
-/

namespace ScriptFront

/-- The files that a run may ask for, each with its bytes or with the reason why it cannot be
read. -/
structure Folder where
  entries : List (String × Except String ByteArray)

namespace Folder

/-- Files that can all be read. -/
def ofContents (contents : List (String × ByteArray)) : Folder :=
  ⟨contents.map fun (file, bytes) => (file, .ok bytes)⟩

instance : Coe (List (String × ByteArray)) Folder := ⟨ofContents⟩

end Folder

/-- What a run finds around it. -/
structure Surroundings where
  files : Folder
  input : ByteArray
  /-- Whether reports are coloured. -/
  coloured : Bool

namespace Surroundings

/-- A file as a text, or the reason why it cannot be read. -/
def read (surroundings : Surroundings) (file : String) : Except String String :=
  match surroundings.files.entries.lookup file with
  | none => .error noSuchFile
  | some (.error reason) => .error reason
  | some (.ok bytes) =>
    match String.fromUTF8? bytes with
    | none => .error notText
    | some text => .ok text

/-- A run on a file, which has to be read first. -/
def withFile (surroundings : Surroundings) (file : String) (run : String → Transcript) :
    Transcript :=
  match surroundings.read file with
  | .error reason => .failure ("Failed to read file '" ++ file ++ "': " ++ reason ++ "\n")
  | .ok source => run source

end Surroundings

/-- The run that a request asks for. -/
def Request.run (surroundings : Surroundings) : Request → Transcript
  | .session =>
    (ScriptFront.session surroundings.coloured 1 (sessionLines surroundings.input)).preceded
      greeting ""
  | .help => .success helpText
  | .rejectFlag flag => .failure ("Unknown flag: " ++ flag ++ "\n" ++ usage)
  | .rejectNoFile => .failure ("Error: No input file specified\n" ++ usage)
  | .listTokens file =>
    surroundings.withFile file fun source =>
      ScriptFront.listTokens surroundings.coloured file source
  | .printTree file =>
    surroundings.withFile file fun source =>
      ScriptFront.printTree surroundings.coloured file source source

/-- The run of a command line. -/
def run (surroundings : Surroundings) (words : List String) : Transcript :=
  (Request.ofWords words).run surroundings

end ScriptFront
