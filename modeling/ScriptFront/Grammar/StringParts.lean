import ScriptFront.Tree.Basic

/-!
The parts of a string: texts with an inserted expression between each two of them.
-/

namespace ScriptFront

/-- Texts and insertions in turn, with a text at both ends. -/
inductive StringParts where
  | last (text : String)
  | insertion (text : String) (inner : Node) (others : StringParts)
deriving Repr

namespace StringParts

def nodes : StringParts → List Node
  | last text => [.text text]
  | insertion text inner others => .text text :: .interpolation inner :: others.nodes

/-- The string: a text of its own if nothing is inserted. -/
def node : StringParts → Node
  | last text => .text text
  | parts => .interpolated parts.nodes

end StringParts

end ScriptFront
