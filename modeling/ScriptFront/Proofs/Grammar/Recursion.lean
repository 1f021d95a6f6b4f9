import ScriptFront.Proofs.Grammar.Reading

/-!
# Recursion over the grammar

Each function of the grammar calls others at a later place, or at the same place others of a lower
rank.  What holds of a phrase if it holds of all earlier ones therefore holds of every phrase.
-/

namespace ScriptFront

namespace Phrase

/-- The function that reads a phrase. -/
def run :
    (form : Form) → Cursor → Except (Refusal × Cursor) (form.Value × Cursor)
  | .statements inBody, cursor => (statements inBody cursor).result
  | .statement, cursor => (statement cursor).result
  | .bareHash first, cursor => (bareHash first cursor).result
  | .body, cursor => (body cursor).result
  | .entry inCommand, cursor => (entry inCommand cursor).result
  | .entries inCommand, cursor => (entries inCommand cursor).result
  | .pairs, cursor => (pairs cursor).result
  | .morePairs first, cursor => (morePairs first cursor).result
  | .enclosed closer, cursor => (enclosed closer cursor).result
  | .hash, cursor => (hash cursor).result
  | .binary inCommand level, cursor => (binary inCommand level cursor).result
  | .climb inCommand level left, cursor => (climb inCommand level left cursor).result
  | .unary inCommand, cursor => (unary inCommand cursor).result
  | .primary inCommand, cursor => (primary inCommand cursor).result
  | .stringParts text, cursor => (stringParts text cursor).result
  | .symbol, cursor => (symbol cursor).result
  | .group, cursor => (group cursor).result
  | .classDefinition, cursor => (classDefinition cursor).result
  | .moduleDefinition, cursor => (moduleDefinition cursor).result
  | .definition, cursor => (definition cursor).result
  | .parameters, cursor => (parameters cursor).result
  | .parameterList, cursor => (parameterList cursor).result
  | .parameter, cursor => (parameter cursor).result
  | .parameterValue name, cursor => (parameterValue name cursor).result
  | .named inCommand name, cursor => (named inCommand name cursor).result
  | .trailingBlock inCommand name list, cursor => (trailingBlock inCommand name list cursor).result
  | .arguments, cursor => (arguments cursor).result

/-- The order of the functions that are called at the same place. -/
def Form.rank : Form → Nat
  | .statements _ | .named _ _ => 7
  | .statement | .enclosed _ | .hash | .arguments => 6
  | .entries _ | .pairs => 5
  | .entry _ | .group | .parameterValue _ => 4
  | .binary _ _ => 3
  | .unary _ => 2
  | .bareHash _ | .primary _ | .definition | .parameterList => 1
  | _ => 0

/-- A property of all phrases that are read for the sake of another one. -/
def Earlier (property : Form → Cursor → Prop) (form : Form) (cursor : Cursor) : Prop :=
  ∀ other place, 8 * place.size + other.rank < 8 * cursor.size + form.rank → property other place

section Earlier

variable {property : Form → Cursor → Prop} {form : Form} {cursor place : Cursor}

theorem Form.rank_le (form : Form) : form.rank ≤ 7 := by
  unfold rank
  split <;> omega

theorem Earlier.of_lt
    (earlier : Earlier property form cursor) (other : Form) (shorter : place.size < cursor.size) :
    property other place := by
  have bound := other.rank_le
  exact earlier other place (by omega)

theorem Earlier.of_le
    (earlier : Earlier property form cursor) (other : Form) (le : place.size ≤ cursor.size)
    (lower : other.rank.blt form.rank = true) : property other place := by
  have less : other.rank < form.rank := Nat.blt_eq.mp lower
  exact earlier other place (by omega)

theorem Earlier.of_rank
    (earlier : Earlier property form cursor) (other : Form)
    (lower : other.rank.blt form.rank = true) : property other cursor :=
  earlier.of_le other (Nat.le_refl _) lower

end Earlier

theorem forall_of_earlier
    {property : Form → Cursor → Prop}
    (step : ∀ form cursor, Earlier property form cursor → property form cursor)
    (form : Form) (cursor : Cursor) : property form cursor := by
  induction measure : 8 * cursor.size + form.rank using Nat.strongRecOn
      generalizing form cursor with
  | _ bound inductionHypothesis =>
      refine step form cursor ?_
      intro other place less
      exact inductionHypothesis _ (measure ▸ less) other place rfl

end Phrase

end ScriptFront
