import ScriptFront.Operator.Basic

/-!
How strongly operators bind between two operands. A higher level binds tighter; a unary operator
binds tighter than every level.
-/

namespace ScriptFront

/-- How operators of one level group when they follow one another. -/
inductive Associativity where
  | left
  | right
  /-- Two operators of the level may not follow one another. -/
  | none
deriving DecidableEq, Repr

/-- The level of an operator between two operands, and how its level groups. -/
structure Binding where
  level : Nat
  associativity : Associativity
deriving DecidableEq, Repr

namespace Binding

/-- The level from which the right operand is read: the same level only where operators group to the
right. -/
def operandLevel (binding : Binding) : Nat :=
  match binding.associativity with
  | .right => binding.level
  | .left | .none => binding.level + 1

/-- The level at which a whole expression is read. -/
def loosest : Nat := 1

end Binding

/-- The binding of an operator between two operands; the two negations never stand there. -/
def Operator.binding? : Operator → Option Binding
  | assign | plusAssign | minusAssign | starAssign | slashAssign | percentAssign
  | doubleStarAssign => some ⟨1, .right⟩
  | doublePipe => some ⟨2, .left⟩
  | doubleAmpersand => some ⟨3, .left⟩
  | equal | notEqual | greater | less | greaterEqual | lessEqual | spaceship | tripleEqual =>
    some ⟨4, .left⟩
  | doubleDot | tripleDot => some ⟨5, .none⟩
  | pipe | caret => some ⟨6, .left⟩
  | ampersand => some ⟨7, .left⟩
  | shiftLeft | shiftRight => some ⟨8, .left⟩
  | plus | minus => some ⟨9, .left⟩
  | star | slash | percent => some ⟨10, .left⟩
  | doubleStar => some ⟨11, .right⟩
  | bang | tilde => none

theorem Operator.loosest_le_level {operator : Operator} {binding : Binding}
    (bound : operator.binding? = some binding) : Binding.loosest ≤ binding.level := by
  cases operator <;> simp_all [binding?] <;> subst bound <;> decide

end ScriptFront
