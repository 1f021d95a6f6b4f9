/-!
Texts in fields of a fixed width. A text that is wider than its field is not cut.
-/

namespace ScriptFront.Text

/-- A text at the right end of a field. -/
def padLeft (width : Nat) (text : String) : String :=
  String.ofList (List.replicate (width - text.length) ' ') ++ text

/-- A text at the left end of a field. -/
def padRight (width : Nat) (text : String) : String :=
  text ++ String.ofList (List.replicate (width - text.length) ' ')

end ScriptFront.Text
