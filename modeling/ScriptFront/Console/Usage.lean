/-!
What the program says about itself.
-/

namespace ScriptFront

def version : String := "0.1.0"

/-- Lines as they are written. -/
def linesOfText (lines : List String) : String := String.join (lines.map (· ++ "\n"))

/-- The reminder that follows a command line without sense. -/
def usage : String :=
  linesOfText ["Usage: rubby [OPTIONS] [script]", "       rubby --help"]

def helpText : String :=
  linesOfText
    ["Rubby v" ++ version ++ " - Lexer and parser for the Rubby language",
      "",
      "USAGE:",
      "    rubby [OPTIONS] [script]",
      "",
      "OPTIONS:",
      "    -t, --tokens    Show tokenization output (lexer only)",
      "    -a, --ast       Show the parsed syntax tree (default)",
      "    -h, --help      Show this help message",
      "",
      "EXAMPLES:",
      "    rubby script.rby           Print the syntax tree of a script",
      "    rubby --tokens script.rby  Show tokens from lexer",
      "    rubby                      Start interactive REPL"]

/-- The first words of a session. -/
def greeting : String :=
  linesOfText ["Rubby v" ++ version ++ " - Parser REPL", "Type 'exit' to quit", ""]

/-- The last words of a session. -/
def farewell : String := linesOfText ["", "Goodbye!"]

def prompt (number : Nat) : String := "rubby:" ++ toString number ++ " > "

/-- Why bytes are no text. -/
def notText : String := "stream did not contain valid UTF-8"

/-- Why a file that does not exist cannot be read. -/
def noSuchFile : String := "No such file or directory (os error 2)"

end ScriptFront
