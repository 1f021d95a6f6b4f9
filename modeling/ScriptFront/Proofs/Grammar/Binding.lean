import ScriptFront.Proofs.Grammar.Building

/-!
# Operators in trees

A tree that was read needs no parentheses beside those it has: an operator that stands directly below
another one binds tighter, or it is of the same level and on the side to which that level groups.
-/

namespace ScriptFront

namespace Node

/-- The operator at the top of a tree, if there is one, may stand over its operands. -/
def BindsWell : Node → Prop
  | .binary operator left right =>
      ∃ binding, operator.binding? = some binding ∧
        binding.AdmitsLeft left ∧ binding.AdmitsRight right
  | .unary operator operand => operator.isUnary = true ∧ operand.isBinary = false
  | _ => True

/-- The left operand of an operator was complete when the operator was met, and the right one was
read at the level that the operator leaves to it. -/
theorem Made.bindsWell {tokens : List Token} {node : Node} (made : node.Made tokens) :
    node.BindsWell := by
  cases made with
  | unary isUnary isOperand => exact ⟨isUnary, isOperand.placed trivial⟩
  | binary follows continues isRight =>
      have placed := isRight.placed trivial
      exact ⟨_, continues.2.2, follows _ _ _ continues, Binding.admitsRight_of_atLeast placed.1⟩
  | _ => trivial

end Node

/-- Wherever an operator stands in a program, its operands may stand below it without
parentheses. -/
theorem bindsWell_of_parseTokens {tokens : List Token} {nodes : List Node}
    (parsed : parseTokens tokens = .ok nodes) :
    ∀ statement ∈ nodes, ∀ part, Node.Occurs part statement → part.BindsWell := by
  intro statement member part occurs
  exact ((whole_of_parseTokens parsed statement member).everywhere part occurs).made.bindsWell

theorem bindsWell_mixed_levels :
    let tokens := [Kind.constant "A", .operator .assign, .integer 1, .operator .minus, .integer 2,
      .operator .minus, .operator .minus, .integer 3, .operator .doubleStar, .integer 4,
      .operator .doubleStar, .constant "B"].map fun kind => (⟨kind, "", ⟨1, 1, none⟩, true⟩ : Token)
    let power := Node.binary .doubleStar (.unary .minus (.integer 3))
      (.binary .doubleStar (.integer 4) (.constant "B"))
    let tree := Node.binary .assign (.constant "A")
      (.binary .minus (.binary .minus (.integer 1) (.integer 2)) power)
    parseTokens tokens = .ok [tree] ∧ ∀ part, Node.Occurs part tree → part.BindsWell := by
  intro tokens power tree
  have parsed : parseTokens tokens = .ok [tree] := by with_unfolding_all rfl
  exact ⟨parsed, bindsWell_of_parseTokens parsed tree (List.mem_singleton_self tree)⟩

end ScriptFront
