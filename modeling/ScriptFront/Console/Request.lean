/-!
What the words of a command line ask for.
-/

namespace ScriptFront

/-- The meaning of one word of the command line. -/
inductive CommandWord where
  | tokensFlag
  | treeFlag
  | helpFlag
  | unknownFlag
  | file
deriving DecidableEq, Repr

namespace CommandWord

/-- Flags start with a minus sign; any other word names a file. -/
def ofWord (word : String) : CommandWord :=
  if word = "--tokens" || word = "-t" then .tokensFlag
  else if word = "--ast" || word = "-a" then .treeFlag
  else if word = "--help" || word = "-h" then .helpFlag
  else if word.toList.head? = some '-' then .unknownFlag
  else .file

end CommandWord

/-- What a run of the program is to do. -/
inductive Request where
  /-- Answer line by line. -/
  | session
  | help
  | rejectFlag (flag : String)
  | rejectNoFile
  | listTokens (file : String)
  | printTree (file : String)
deriving DecidableEq, Repr

namespace Request

/-- The request of a command line. The first unknown flag is rejected before anything else is
considered; help goes before a file, and of several files the last counts. -/
def ofWords (words : List String) : Request :=
  if words.isEmpty then .session
  else
    match words.find? (CommandWord.ofWord · = .unknownFlag) with
    | some flag => .rejectFlag flag
    | none =>
      if words.any (CommandWord.ofWord · = .helpFlag) then .help
      else
        match (words.filter (CommandWord.ofWord · = .file)).getLast? with
        | none => .rejectNoFile
        | some file =>
          if words.any (CommandWord.ofWord · = .tokensFlag) then .listTokens file
          else .printTree file

/-- The file that a request reads. -/
def file? : Request → Option String
  | listTokens file | printTree file => some file
  | _ => none

end Request

end ScriptFront
