import ScriptFront.Tree.Basic

/-!
Outlines of trees: every node in the order of the source, with its depth and a label that says what
it is apart from the nodes below it. A tree can be read off its outline, so two trees are the same
if their outlines are.
-/

namespace ScriptFront

/-- What a node is, apart from the nodes below it. Where these play different parts the label keeps
them apart. -/
inductive Label where
  | integer (value : Int)
  | float (value : Binary64)
  | text (value : String)
  | interpolation
  | interpolated
  | constant (name : String)
  | symbol
  | array
  | hash
  /-- Counts the arguments; the rest belongs to the block. -/
  | call (name : String) (arguments : Nat) (block : Option (List (Parameter Unit)))
  | block (parameters : List (Parameter Unit))
  | method (name : String) (parameters : List (Parameter Unit))
  | classDefinition (derived : Bool)
  | moduleDefinition
  | unary (operator : Operator)
  | binary (operator : Operator)
  | group
deriving DecidableEq, Repr

namespace Parameter

variable {α : Type}

/-- A parameter without its value. -/
def form : Parameter α → Parameter Unit
  | plain name => plain name
  | splat name => splat name
  | optional name _ => optional name ()
  | keyword name _ => keyword name ()

end Parameter

namespace Block

def forms {α : Type} (block : Block α) : List (Parameter Unit) :=
  block.parameters.map Parameter.form

end Block

namespace Label

/-- Equality of labels, numbers with a point being compared as numbers. -/
def same : Label → Label → Bool
  | float left, float right => left.sameValue right
  | left, right => left = right

/-- The names of parameters, with commas between them. -/
def names (parameters : List (Parameter Unit)) : String :=
  String.intercalate "," (parameters.map Parameter.name)

end Label

namespace Node

/-- What a node is, apart from its children. -/
def label : Node → Label
  | .integer value => .integer value
  | .float value => .float value
  | .text value => .text value
  | .interpolation _ => .interpolation
  | .interpolated _ => .interpolated
  | .constant name => .constant name
  | .symbol _ => .symbol
  | .array _ => .array
  | .hash _ => .hash
  | .call name arguments trailing => .call name arguments.length (trailing.map Block.forms)
  | .block inner => .block inner.forms
  | .method name inner => .method name inner.forms
  | .classDefinition _ superclass _ => .classDefinition superclass.isSome
  | .moduleDefinition _ _ => .moduleDefinition
  | .unary operator _ => .unary operator
  | .binary operator _ _ => .binary operator
  | .group _ => .group

theorem sizeOf_lt_of_mem_nodes {block : Block Node} {child : Node} (member : child ∈ block.nodes) :
    sizeOf child < sizeOf block := by
  cases block with
  | mk parameters body =>
    simp only [Block.nodes, List.mem_append, List.mem_filterMap] at member
    rcases member with ⟨parameter, isParameter, value⟩ | isStatement
    · have bound := List.sizeOf_lt_of_mem isParameter
      cases parameter <;> simp_all [Parameter.value?] <;> omega
    · have bound := List.sizeOf_lt_of_mem isStatement
      simp
      omega

/-- A child is smaller than its parent. -/
theorem sizeOf_lt_of_mem_children {node child : Node} (member : child ∈ node.children) :
    sizeOf child < sizeOf node := by
  cases node <;> simp only [children, List.mem_cons, List.mem_append, List.mem_flatMap,
    List.not_mem_nil, or_false, Option.mem_toList] at member
  case interpolated parts => have := List.sizeOf_lt_of_mem member; simp; omega
  case array elements => have := List.sizeOf_lt_of_mem member; simp; omega
  case hash pairs =>
    obtain ⟨pair, isPair, isNode⟩ := member
    have := List.sizeOf_lt_of_mem isPair
    cases pair
    simp [Pair.nodes] at isNode this ⊢
    rcases isNode with rfl | rfl <;> omega
  case call name arguments trailing =>
    rcases member with isArgument | ⟨block, rfl, isNode⟩
    · have := List.sizeOf_lt_of_mem isArgument
      simp
      omega
    · have := sizeOf_lt_of_mem_nodes isNode
      simp
      omega
  case block inner => have := sizeOf_lt_of_mem_nodes member; simp; omega
  case method name inner => have := sizeOf_lt_of_mem_nodes member; simp; omega
  case classDefinition name superclass body =>
    rcases member with rfl | rfl | isStatement
    · simp
      omega
    · simp
      omega
    · have := List.sizeOf_lt_of_mem isStatement
      simp
      omega
  case moduleDefinition name body =>
    rcases member with rfl | isStatement
    · simp
      omega
    · have := List.sizeOf_lt_of_mem isStatement
      simp
      omega
  all_goals grind

/-- Every node of a tree with its depth, parents before their children and these in order. -/
def outline (depth : Nat) (node : Node) : List (Nat × Label) :=
  (depth, node.label) ::
    node.children.attach.flatMap fun ⟨child, member⟩ =>
      have := sizeOf_lt_of_mem_children member
      outline (depth + 1) child
termination_by sizeOf node

/-- A node comes before its children in the outline. -/
theorem outline_eq (depth : Nat) (node : Node) :
    node.outline depth = (depth, node.label) :: node.children.flatMap (outline (depth + 1)) := by
  rw [outline]
  simp [List.flatMap_subtype]

end Node

/-- Whether two outlines agree entry by entry. -/
def sameOutlines : List (Nat × Label) → List (Nat × Label) → Bool
  | [], [] => true
  | (leftDepth, left) :: lefts, (rightDepth, right) :: rights =>
    leftDepth = rightDepth && left.same right && sameOutlines lefts rights
  | _, _ => false

/-- The outlines of several trees, one after the other. -/
def outlineAll (nodes : List Node) : List (Nat × Label) :=
  nodes.flatMap (Node.outline 0)

namespace Node

/-- Whether two trees are the same. -/
def same (left right : Node) : Bool :=
  sameOutlines (left.outline 0) (right.outline 0)

end Node

/-- Whether two programs are the same statement by statement. -/
def sameStatements (left right : List Node) : Bool :=
  sameOutlines (outlineAll left) (outlineAll right)

end ScriptFront
