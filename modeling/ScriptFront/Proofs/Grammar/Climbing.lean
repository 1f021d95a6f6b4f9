import ScriptFront.Proofs.Grammar.Nodes

/-!
# Climbing through the levels of operators

An operator takes what was read in front of it for its left operand, and reads its right one at the
level that it leaves to it.  So the operator at the top of a phrase binds at the level of the phrase
or tighter, and no operator behind the phrase would continue it at that level.
-/

namespace ScriptFront

namespace Node

/-- The level of the operator at the top of a tree. -/
def level? : Node → Option Nat
  | .binary operator _ _ => operator.binding?.map Binding.level
  | _ => none

def isBinary : Node → Bool
  | .binary .. => true
  | _ => false

end Node

namespace Binding

/-- A tree may stand to the left of an operator. -/
def AdmitsLeft (binding : Binding) (node : Node) : Prop :=
  ∀ level, node.level? = some level →
    binding.level < level ∨ level = binding.level ∧ binding.associativity = .left

/-- A tree may stand to the right of an operator. -/
def AdmitsRight (binding : Binding) (node : Node) : Prop :=
  ∀ level, node.level? = some level →
    binding.level < level ∨ level = binding.level ∧ binding.associativity = .right

end Binding

namespace Node

/-- The operator at the top, if there is one, binds at the given level or tighter. -/
def AtLeast (level : Nat) (node : Node) : Prop :=
  ∀ top, node.level? = some top → level ≤ top

theorem level?_of_not_isBinary {node : Node} (notBinary : node.isBinary = false) :
    node.level? = none := by
  cases node with
  | binary => cases notBinary
  | _ => rfl

end Node

namespace Cursor

/-- No operator ahead continues an expression at the given level. -/
def Below (level : Nat) (cursor : Cursor) : Prop :=
  ∀ operator binding next, cursor.Continues operator binding next → binding.level < level

/-- An operator ahead may take the tree as its left operand. -/
def Follows (cursor : Cursor) (left : Node) : Prop :=
  ∀ operator binding next, cursor.Continues operator binding next → binding.AdmitsLeft left

end Cursor

/-! ## Levels -/

/-- All operators of a level group alike. -/
theorem Operator.associativity_eq
    {first second : Operator} {left right : Binding}
    (isLeft : first.binding? = some left) (isRight : second.binding? = some right)
    (sameLevel : left.level = right.level) : left.associativity = right.associativity := by
  have table : ∀ operator : Operator, ∀ binding, operator.binding? = some binding →
      binding.associativity =
        if binding.level = 1 ∨ binding.level = 11 then .right
        else if binding.level = 5 then .none else .left := by
    intro operator binding isBinding
    cases operator <;> cases isBinding <;> rfl
  rw [table first left isLeft, table second right isRight, sameLevel]

namespace Binding

theorem admitsRight_of_atLeast {binding : Binding} {right : Node}
    (tight : right.AtLeast binding.operandLevel) : binding.AdmitsRight right := by
  intro level isLevel
  have bound : binding.operandLevel ≤ level := tight level isLevel
  unfold operandLevel at bound
  cases grouping : binding.associativity with
  | right =>
      simp only [grouping] at bound
      rcases Nat.lt_or_eq_of_le bound with tighter | same
      · exact Or.inl tighter
      · exact Or.inr ⟨same.symm, rfl⟩
  | left | none =>
      simp only [grouping] at bound
      exact Or.inl bound

/-- What may follow the right operand of an operator may take the whole as its left operand. -/
theorem follows_binary
    {operator : Operator} {binding : Binding} {left right : Node} {cursor : Cursor}
    (isBinding : operator.binding? = some binding)
    (below : cursor.Below binding.operandLevel)
    (single : cursor.chained? binding = none) :
    cursor.Follows (.binary operator left right) := by
  intro other further next continues level isLevel
  have sameLevel : binding.level = level := by
    simpa [Node.level?, isBinding] using isLevel
  have bound : further.level < binding.operandLevel := below other further next continues
  have isFurther : other.binding? = some further := continues.2.2
  unfold operandLevel at bound
  cases grouping : binding.associativity with
  | right =>
      simp only [grouping] at bound
      exact Or.inl (sameLevel ▸ bound)
  | left =>
      simp only [grouping] at bound
      rcases Nat.lt_or_eq_of_le (Nat.le_of_lt_succ bound) with looser | same
      · exact Or.inl (sameLevel ▸ looser)
      · refine Or.inr ⟨sameLevel.symm.trans same.symm, ?_⟩
        rw [Operator.associativity_eq isFurther isBinding same, grouping]
  | none =>
      simp only [grouping] at bound
      rcases Nat.lt_or_eq_of_le (Nat.le_of_lt_succ bound) with looser | same
      · exact Or.inl (sameLevel ▸ looser)
      · have parted := Cursor.chained?_eq_none_iff.1 single grouping
        exact absurd same (parted other further next continues)

end Binding

/-! ## Trees of phrases -/

namespace Phrase

/-- What the operators before a phrase leave to it. -/
def Form.Ordered : Form → Cursor → Prop
  | .climb _ level left, cursor => left.AtLeast level ∧ cursor.Follows left
  | _, _ => True

/-- What the operators in a phrase leave behind it. -/
def Form.Placed : (form : Form) → form.Value → Cursor → Prop
  | .binary _ level, node, next | .climb _ level _, node, next =>
      node.AtLeast level ∧ next.Below level
  | .hash, node, _ | .unary _, node, _ | .primary _, node, _ | .symbol, node, _
  | .group, node, _ | .classDefinition, node, _ | .moduleDefinition, node, _
  | .named _ _, node, _ | .trailingBlock _ _ _, node, _ => node.isBinary = false
  | _, _, _ => True

section Ordered

variable {inCommand : Bool} {level : Nat} {cursor : Cursor}

/-- An operand that is not an operator itself may be followed by any operator. -/
theorem ordered_of_not_isBinary {left : Node} (plain : left.isBinary = false) :
    (Form.climb inCommand level left).Ordered cursor := by
  have noLevel := Node.level?_of_not_isBinary plain
  refine ⟨?_, ?_⟩
  · intro top isTop
    cases noLevel.symm.trans isTop
  · intro operator binding behind _ top isTop
    cases noLevel.symm.trans isTop

/-- What follows the right operand of an operator is not drawn into it. -/
theorem ordered_binary
    {operator : Operator} {binding : Binding} {left right : Node}
    (isBinding : operator.binding? = some binding) (tight : level ≤ binding.level)
    (below : cursor.Below binding.operandLevel) (single : cursor.chained? binding = none) :
    (Form.climb inCommand level (.binary operator left right)).Ordered cursor := by
  refine ⟨?_, Binding.follows_binary isBinding below single⟩
  intro top isTop
  simp only [Node.level?, isBinding, Option.map_some, Option.some.injEq] at isTop
  exact isTop ▸ tight

end Ordered

theorem Reads.placed {form : Form} {cursor next : Cursor} {value : form.Value}
    (reads : Reads form cursor value next) (ordered : form.Ordered cursor) :
    form.Placed value next := by
  induction reads with
  | binary _ _ isOperand further => exact further (ordered_of_not_isBinary (isOperand trivial))
  | stop looser => exact ⟨ordered.1, looser⟩
  | climb continues tight _ single _ isRight further =>
      exact further (ordered_binary continues.2.2 tight (isRight trivial).2 single)
  | operand _ _ isNode | name _ _ isNode | classWord _ _ isNode | moduleWord _ _ isNode
  | colon _ _ isNode | brace _ _ isNode | paren _ _ isNode => exact isNode trivial
  | string =>
      rename_i parts _ _ _
      cases parts <;> rfl
  | call _ _ _ _ isNode => exact isNode trivial
  | _ => trivial

end Phrase

end ScriptFront
