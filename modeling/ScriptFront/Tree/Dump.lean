import ScriptFront.Decimal.Layout
import ScriptFront.Text.Quoted
import ScriptFront.Token.Basic
import ScriptFront.Tree.Basic

/-!
Printed forms of tokens and trees: constructor names with their fields, on one line or with one
field on each line.
-/

namespace ScriptFront

/-- A value as it is printed. -/
inductive Dump where
  | word (text : String)
  /-- A name with unnamed fields. -/
  | tuple (name : String) (fields : List Dump)
  /-- A name with named fields. -/
  | record (name : String) (fields : List (String × Dump))
  | list (items : List Dump)
deriving Repr

namespace Dump

/-- Items on one line, with commas between them. -/
def separated : List String → String := String.intercalate ", "

mutual

/-- The value on one line. -/
def inline : Dump → String
  | word text => text
  | tuple name fields => name ++ "(" ++ separated (inlineItems fields) ++ ")"
  | record name fields => name ++ " \x7b " ++ separated (inlineFields fields) ++ " \x7d"
  | list items => "[" ++ separated (inlineItems items) ++ "]"

def inlineItems : List Dump → List String
  | [] => []
  | item :: items => inline item :: inlineItems items

def inlineFields : List (String × Dump) → List String
  | [] => []
  | (name, value) :: fields => (name ++ ": " ++ inline value) :: inlineFields fields

end

/-- The blanks in front of a line. -/
def margin (depth : Nat) : String := String.ofList (List.replicate (4 * depth) ' ')

/-- Entries between brackets, each on a line of its own; nothing stands between empty brackets. -/
def bracketed (opener closer : String) (depth : Nat) (entries : List String) : String :=
  if entries.isEmpty then opener ++ closer
  else
    opener ++ "\n" ++
      String.join (entries.map fun entry => margin (depth + 1) ++ entry ++ ",\n") ++
      margin depth ++ closer

mutual

/-- The value with one field on each line, standing at a depth. -/
def indented (depth : Nat) : Dump → String
  | word text => text
  | tuple name fields => name ++ bracketed "(" ")" depth (indentedItems (depth + 1) fields)
  | record name fields =>
    name ++ " " ++ bracketed "\x7b" "\x7d" depth (indentedFields (depth + 1) fields)
  | list items => bracketed "[" "]" depth (indentedItems (depth + 1) items)

def indentedItems (depth : Nat) : List Dump → List String
  | [] => []
  | item :: items => indented depth item :: indentedItems depth items

def indentedFields (depth : Nat) : List (String × Dump) → List String
  | [] => []
  | (name, value) :: fields =>
    (name ++ ": " ++ indented depth value) :: indentedFields depth fields

end

def ofText (text : String) : Dump := word (Text.quoted text)

def ofInteger (value : Int) : Dump := word (toString value)

def ofFloat (value : Binary64) : Dump := word (DecimalLayout.scientific.render value)

end Dump

/-- A kind with the value it carries. -/
def Kind.dump : Kind → Dump
  | .integer value => .tuple "Literal" [.tuple "Integer" [.ofInteger value]]
  | .float value => .tuple "Literal" [.tuple "Float" [.ofFloat value]]
  | .fragment text => .tuple "StringFragment" [.ofText text]
  | .interpolationStart => .word "InterpolationStart"
  | .interpolationEnd => .word "InterpolationEnd"
  | .identifier name => .tuple "Identifier" [.ofText name]
  | .constant name => .tuple "Constant" [.ofText name]
  | .keyword word => .tuple "Keyword" [.word word.name]
  | .operator sign => .tuple "Operator" [.word sign.name]
  | .mark sign => .word sign.name
  | .comment text => .tuple "Comment" [.ofText text]
  | .whitespace => .word "Whitespace"
  | .newline => .word "Newline"
  | .indent => .word "Indent"
  | .dedent => .word "Dedent"
  | .endOfInput => .word "Eof"

/-! ## Trees -/

mutual

/-- A tree with all its fields. -/
def Node.dump : Node → Dump
  | .integer value => .tuple "IntegerLit" [.ofInteger value]
  | .float value => .tuple "FloatLit" [.ofFloat value]
  | .text value => .tuple "SimpleStringLit" [.ofText value]
  | .interpolation inner => .tuple "Interpolation" [inner.dump]
  | .interpolated parts => .tuple "InterpolatedString" [.list (dumpNodes parts)]
  | .constant name => .tuple "ConstantRef" [.ofText name]
  | .symbol name => .tuple "SymbolLit" [name.dump]
  | .array elements => .tuple "ArrayLit" [.list (dumpNodes elements)]
  | .hash pairs => .tuple "HashLit" [.list (dumpPairs pairs)]
  | .call name arguments trailing =>
    .tuple "Call" [.record "Call" [("name", .ofText name), ("args", .list (dumpNodes arguments)),
      ("block", dumpBlock? trailing)]]
  | .block ⟨parameters, body⟩ =>
    .tuple "Block" [.record "Block" [("params", .list (dumpParameters parameters)),
      ("body", .list (dumpNodes body))]]
  | .method name ⟨parameters, body⟩ =>
    .tuple "Method" [.record "Method" [("name", .ofText name),
      ("params", .list (dumpParameters parameters)), ("body", .list (dumpNodes body))]]
  | .classDefinition name superclass body =>
    .tuple "Class" [.record "Class" [("name", name.dump), ("superclass", dumpNode? superclass),
      ("body", .list (dumpNodes body))]]
  | .moduleDefinition name body =>
    .tuple "Module" [.record "Module" [("name", name.dump), ("body", .list (dumpNodes body))]]
  | .unary operator operand =>
    .record "UnaryOp" [("operator", .word operator.name), ("operand", operand.dump)]
  | .binary operator left right =>
    .record "BinaryOp" [("operator", .word operator.name), ("left", left.dump),
      ("right", right.dump)]
  | .group inner => .tuple "Group" [inner.dump]

def dumpNodes : List Node → List Dump
  | [] => []
  | node :: nodes => node.dump :: dumpNodes nodes

def dumpPairs : List (Pair Node) → List Dump
  | [] => []
  | ⟨key, value⟩ :: pairs =>
    .record "HashElement" [("key", key.dump), ("value", value.dump)] :: dumpPairs pairs

def dumpParameters : List (Parameter Node) → List Dump
  | [] => []
  | .plain name :: parameters => .tuple "Plain" [.ofText name] :: dumpParameters parameters
  | .splat name :: parameters => .tuple "Splat" [.ofText name] :: dumpParameters parameters
  | .optional name value :: parameters =>
    .record "Default" [("name", .ofText name), ("default", value.dump)] ::
      dumpParameters parameters
  | .keyword name value :: parameters =>
    .record "Keyword" [("name", .ofText name), ("value", value.dump)] ::
      dumpParameters parameters

def dumpBlock? : Option (Block Node) → Dump
  | none => .word "None"
  | some ⟨parameters, body⟩ =>
    .tuple "Some" [.record "Block" [("params", .list (dumpParameters parameters)),
      ("body", .list (dumpNodes body))]]

def dumpNode? : Option Node → Dump
  | none => .word "None"
  | some node => .tuple "Some" [node.dump]

end

end ScriptFront
