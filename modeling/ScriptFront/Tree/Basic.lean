import ScriptFront.Decimal.Binary64
import ScriptFront.Operator.Basic

/-!
Syntax trees. A node owns the nodes below it; `children` lists them in the order of the source. Two
trees are the same if they have the same shape and equal leaves, numbers with a point being compared
as numbers.
-/

namespace ScriptFront

/-- A key and its value. -/
structure Pair (α : Type) where
  key : α
  value : α
deriving DecidableEq, Repr

/-- A parameter of a method or a block. -/
inductive Parameter (α : Type) where
  | plain (name : String)
  /-- Takes all arguments that are left. -/
  | splat (name : String)
  /-- Has a value if no argument is given. -/
  | optional (name : String) (value : α)
  /-- Is given by name. -/
  | keyword (name : String) (value : α)
deriving DecidableEq, Repr

/-- Parameters and the statements in which they can be used. -/
structure Block (α : Type) where
  parameters : List (Parameter α)
  body : List α
deriving DecidableEq, Repr

/-- An expression or a definition. -/
inductive Node where
  | integer (value : Int)
  | float (value : Binary64)
  /-- A string without inserted expressions. -/
  | text (value : String)
  /-- An expression inserted into a string. -/
  | interpolation (inner : Node)
  /-- A string with inserted expressions: texts and insertions in turn. -/
  | interpolated (parts : List Node)
  | constant (name : String)
  /-- A symbol, named by a string. -/
  | symbol (name : Node)
  | array (elements : List Node)
  | hash (pairs : List (Pair Node))
  | call (name : String) (arguments : List Node) (block : Option (Block Node))
  | block (block : Block Node)
  | method (name : String) (block : Block Node)
  | classDefinition (name : Node) (superclass : Option Node) (body : List Node)
  | moduleDefinition (name : Node) (body : List Node)
  | unary (operator : Operator) (operand : Node)
  | binary (operator : Operator) (left right : Node)
  /-- An expression in parentheses. -/
  | group (inner : Node)
deriving Repr, Inhabited

namespace Pair

def nodes {α : Type} (pair : Pair α) : List α := [pair.key, pair.value]

end Pair

namespace Parameter

variable {α : Type}

def name : Parameter α → String
  | plain name | splat name | optional name _ | keyword name _ => name

/-- The value of a parameter that has one. -/
def value? : Parameter α → Option α
  | plain _ | splat _ => none
  | optional _ value | keyword _ value => some value

end Parameter

namespace Block

variable {α : Type}

/-- The nodes of a block: the values of its parameters, then its body. -/
def nodes (block : Block α) : List α :=
  block.parameters.filterMap Parameter.value? ++ block.body

end Block

namespace Node

/-- The nodes directly below a node, in the order of the source. -/
def children : Node → List Node
  | integer _ | float _ | text _ | constant _ => []
  | interpolation inner | symbol inner | group inner => [inner]
  | unary _ operand => [operand]
  | binary _ left right => [left, right]
  | interpolated parts => parts
  | array elements => elements
  | hash pairs => pairs.flatMap Pair.nodes
  | .call _ arguments trailing => arguments ++ trailing.toList.flatMap Block.nodes
  | .block inner => inner.nodes
  | .method _ inner => inner.nodes
  | classDefinition name superclass body => name :: (superclass.toList ++ body)
  | moduleDefinition name body => name :: body

end Node

end ScriptFront
