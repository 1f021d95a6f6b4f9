import ScriptFront.Tree.Basic

/-!
Entries of a comma-separated list. In a list of expressions the pairs that follow one another make
up one hash.
-/

namespace ScriptFront

/-- An expression, or a key with its value. -/
inductive Entry where
  | single (node : Node)
  | pair (pair : Pair Node)
deriving Repr

namespace Entry

/-- The expressions of a list, each run of pairs gathered into a hash. -/
def gather : List Entry → List Node
  | [] => []
  | .single node :: entries => node :: gather entries
  | .pair first :: .pair second :: entries =>
    match gather (.pair second :: entries) with
    | .hash pairs :: nodes => .hash (first :: pairs) :: nodes
    | nodes => .hash [first] :: nodes
  | .pair last :: entries => .hash [last] :: gather entries

end Entry

end ScriptFront
