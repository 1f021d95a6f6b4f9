import ScriptFront.Proofs.Grammar.Completeness

/-!
# Where phrases start

An expression and whatever starts with one is told by its first token.  How that token is set off
from what stands in front of it, or whether a body ends there, says nothing to the phrase.
-/

namespace ScriptFront

/-- An expression or a statement can start with a token of this kind. -/
def Kind.startsPhrase : Kind → Bool
  | .integer _ | .float _ | .fragment _ | .identifier _ | .constant _ | .keyword _
  | .operator _ => true
  | .mark .colon | .mark .leftBracket | .mark .leftBrace | .mark .leftParen
  | .mark .blockArrow => true
  | _ => false

theorem Kind.isLayout_of_startsPhrase {kind : Kind} (starts : kind.startsPhrase = true) :
    kind.isLayout = false := by
  cases kind with
  | newline | indent | dedent | endOfInput => cases starts
  | _ => rfl

/-- The word in front of a colon that makes it a key. -/
theorem Kind.startsPhrase_of_word
    {kind : Kind}
    (isWord : (∃ text, kind = .identifier text) ∨ ∃ keyword, kind = .keyword keyword) :
    kind.startsPhrase = true := by
  rcases isWord with ⟨text, rfl⟩ | ⟨keyword, rfl⟩
  · rfl
  · rfl

namespace Phrase

open Cursor

variable {cursor next : Cursor}

theorem Reads.primary_starts
    {inCommand : Bool} {node : Node} (reads : Reads (.primary inCommand) cursor node next) :
    cursor.peek.kind.startsPhrase = true := by
  cases reads with
  | integer here | float here | constant here | string here | name here | classWord here
  | moduleWord here | colon here | array here | brace here | paren here | block here =>
      rw [here.peek_kind]
      rfl

theorem Reads.unary_starts
    {inCommand : Bool} {node : Node} (reads : Reads (.unary inCommand) cursor node next) :
    cursor.peek.kind.startsPhrase = true := by
  cases reads with
  | operand _ isNode => exact isNode.primary_starts
  | unary sign =>
      rw [sign.peek_kind]
      rfl

theorem Reads.binary_starts
    {inCommand : Bool} {level : Nat} {node : Node}
    (reads : Reads (.binary inCommand level) cursor node next) :
    cursor.peek.kind.startsPhrase = true := by
  cases reads with
  | binary isLeft => exact isLeft.unary_starts

theorem Reads.entry_starts
    {inCommand : Bool} {first : Entry} (reads : Reads (.entry inCommand) cursor first next) :
    cursor.peek.kind.startsPhrase = true := by
  cases reads with
  | keyed names =>
      rcases names with ⟨word, middle, takes, isWord, -⟩
      rw [takes.peek]
      exact Kind.startsPhrase_of_word isWord
  | expression _ isNode => exact isNode.binary_starts
  | pair _ isKey => exact isKey.binary_starts

theorem Reads.entries_starts
    {inCommand : Bool} {list : List Entry} (reads : Reads (.entries inCommand) cursor list next) :
    cursor.peek.kind.startsPhrase = true := by
  cases reads with
  | lastEntry isFirst => exact isFirst.entry_starts
  | moreEntries isFirst => exact isFirst.entry_starts

theorem Reads.pairs_starts
    {list : List (Pair Node)} (reads : Reads .pairs cursor list next) :
    cursor.peek.kind.startsPhrase = true := by
  cases reads with
  | pairs isFirst => exact isFirst.entry_starts

theorem Reads.parameter_starts
    {parameter : Parameter Node} (reads : Reads .parameter cursor parameter next) :
    cursor.peek.kind.startsPhrase = true := by
  cases reads with
  | splat here | parameter here =>
      rw [here.peek_kind]
      rfl

theorem Reads.parameterList_starts
    {list : List (Parameter Node)} (reads : Reads .parameterList cursor list next) :
    cursor.peek.kind.startsPhrase = true := by
  cases reads with
  | lastParameter isFirst => exact isFirst.parameter_starts
  | moreParameters isFirst => exact isFirst.parameter_starts

theorem Reads.statement_starts
    {node : Node} (reads : Reads .statement cursor node next) :
    cursor.peek.kind.startsPhrase = true := by
  cases reads with
  | statement isFirst => exact isFirst.entry_starts

/-- Statements do not end where another one starts. -/
theorem Reads.statement_goesOn
    {node : Node} (reads : Reads .statement cursor node next) (inBody : Bool) :
    cursor.endsStatements inBody = false := by
  have starts := reads.statement_starts
  have noDedent : cursor.isAt .dedent = false := by
    refine decide_eq_false ?_
    intro isDedent
    rw [isDedent] at starts
    cases starts
  have noEnd : cursor.atEnd = false := by
    cases isAhead : cursor.ahead with
    | cons => rw [atEnd, isAhead]; rfl
    | nil =>
        rw [peek, peekAt, isAhead] at starts
        cases starts
  rw [Cursor.endsStatements, noEnd, noDedent, Bool.and_false, Bool.or_false]

end Phrase

namespace Cursor

variable {cursor other next last : Cursor} {kind : Kind}

/-- The same tokens lie ahead of two places, but for how the first of them is set off. -/
def Restarts (cursor other : Cursor) : Prop :=
  ∃ token again next, cursor.Takes token next ∧ other.Takes again next ∧
    again.kind = token.kind ∧ again.lexeme = token.lexeme

namespace Restarts

theorem symm (restarts : cursor.Restarts other) : other.Restarts cursor := by
  rcases restarts with ⟨token, again, next, takes, takesAgain, sameKind, sameLexeme⟩
  exact ⟨again, token, next, takesAgain, takes, sameKind.symm, sameLexeme.symm⟩

theorem takes
    {token : Token} (restarts : cursor.Restarts other) (takes : cursor.Takes token next) :
    ∃ again, other.Takes again next ∧ again.kind = token.kind ∧ again.lexeme = token.lexeme := by
  rcases restarts with ⟨first, again, place, takesFirst, takesAgain, sameKind, sameLexeme⟩
  obtain ⟨rfl, rfl⟩ := takesFirst.unique takes
  exact ⟨again, takesAgain, sameKind, sameLexeme⟩

theorem peek_kind (restarts : cursor.Restarts other) : other.peek.kind = cursor.peek.kind := by
  rcases restarts with ⟨token, again, next, takes, takesAgain, sameKind, -⟩
  rw [takes.peek, takesAgain.peek, sameKind]

theorem not_endsStatements (restarts : cursor.Restarts other) :
    cursor.endsStatements false = false := by
  rcases restarts with ⟨token, -, next, takes, -⟩
  simp [endsStatements, atEnd, takes.ahead]

theorem accepts (restarts : cursor.Restarts other) (accepts : cursor.Accepts kind next) :
    other.Accepts kind next := by
  rcases accepts with ⟨token, takes, rfl⟩
  rcases restarts.takes takes with ⟨again, takesAgain, sameKind, -⟩
  exact ⟨again, takesAgain, sameKind⟩

theorem unary? (restarts : cursor.Restarts other) (unsigned : cursor.unary? = none) :
    other.unary? = none :=
  unary?_of_peek_kind restarts.peek_kind unsigned

theorem namesKey
    {name : String} (restarts : cursor.Restarts other) (names : cursor.NamesKey name next) :
    other.NamesKey name next := by
  rcases names with ⟨word, middle, takes, isWord, isColon, spaced, isName⟩
  rcases restarts.takes takes with ⟨again, takesAgain, sameKind, sameLexeme⟩
  exact ⟨again, middle, takesAgain, sameKind ▸ isWord, isColon, spaced, isName.trans sameLexeme.symm⟩

theorem symbolKey? (restarts : cursor.Restarts other) (unnamed : cursor.symbolKey? = none) :
    other.symbolKey? = none := by
  refine symbolKey?_eq_none_iff.2 ?_
  intro name next names
  exact symbolKey?_eq_none_iff.1 unnamed name next (restarts.symm.namesKey names)

end Restarts

end Cursor

namespace Phrase

open Cursor

variable {cursor other next : Cursor}

theorem Reads.primary_restarted
    {inCommand : Bool} {node : Node} (reads : Reads (.primary inCommand) cursor node next)
    (restarts : cursor.Restarts other) : Reads (.primary inCommand) other node next := by
  cases reads with
  | integer here => exact .integer (restarts.accepts here)
  | float here => exact .float (restarts.accepts here)
  | constant here => exact .constant (restarts.accepts here)
  | string here areParts => exact .string (restarts.accepts here) areParts
  | name here isNode => exact .name (restarts.accepts here) isNode
  | classWord here isNode => exact .classWord (restarts.accepts here) isNode
  | moduleWord here isNode => exact .moduleWord (restarts.accepts here) isNode
  | colon here isNode => exact .colon (restarts.accepts here) isNode
  | array here areElements => exact .array (restarts.accepts here) areElements
  | brace here isNode => exact .brace (restarts.accepts here) isNode
  | paren here isNode => exact .paren (restarts.accepts here) isNode
  | block here isBlock => exact .block (restarts.accepts here) isBlock

theorem Reads.binary_restarted
    {inCommand : Bool} {level : Nat} {node : Node}
    (reads : Reads (.binary inCommand level) cursor node next)
    (restarts : cursor.Restarts other) : Reads (.binary inCommand level) other node next := by
  cases reads with
  | binary isLeft further =>
      refine .binary ?_ further
      cases isLeft with
      | operand unsigned isNode =>
          exact .operand (restarts.unary? unsigned) (isNode.primary_restarted restarts)
      | unary sign isUnary isOperand => exact .unary (restarts.accepts sign) isUnary isOperand

theorem Reads.entry_restarted
    {inCommand : Bool} {first : Entry} (reads : Reads (.entry inCommand) cursor first next)
    (restarts : cursor.Restarts other) : Reads (.entry inCommand) other first next := by
  cases reads with
  | keyed names isValue => exact .keyed (restarts.namesKey names) isValue
  | expression unnamed isNode alone =>
      exact .expression (restarts.symbolKey? unnamed) (isNode.binary_restarted restarts) alone
  | pair unnamed isKey separates isValue =>
      exact .pair (restarts.symbolKey? unnamed) (isKey.binary_restarted restarts) separates isValue

theorem Reads.entries_restarted
    {inCommand : Bool} {list : List Entry} (reads : Reads (.entries inCommand) cursor list next)
    (restarts : cursor.Restarts other) : Reads (.entries inCommand) other list next := by
  cases reads with
  | lastEntry isFirst ends => exact .lastEntry (isFirst.entry_restarted restarts) ends
  | moreEntries isFirst comma areOthers =>
      exact .moreEntries (isFirst.entry_restarted restarts) comma areOthers

theorem Reads.statement_restarted
    {node : Node} (reads : Reads .statement cursor node next)
    (restarts : cursor.Restarts other) : Reads .statement other node next := by
  cases reads with
  | statement isFirst whole ends =>
      exact .statement (isFirst.entry_restarted restarts) whole ends

/-- The statements of a program, however the first token is set off. -/
theorem Reads.statements_restarted
    {nodes : List Node} (reads : Reads (.statements false) cursor nodes next)
    (restarts : cursor.Restarts other) :
    ∃ last, Reads (.statements false) other nodes last := by
  by_cases isNewline : cursor.peek.kind = .newline
  · rcases accepts_of_peek_kind isNewline (by simp) with ⟨line, accepts⟩
    have sameLines : cursor.skipNewlines = other.skipNewlines := by
      rw [accepts.skipNewlines_eq, (restarts.accepts accepts).skipNewlines_eq]
    cases reads with
    | noStatements ends => exact ⟨_, .noStatements (sameLines ▸ ends)⟩
    | moreStatements more isFirst areOthers =>
        exact ⟨next, .moreStatements (sameLines ▸ more) (sameLines ▸ isFirst) areOthers⟩
  · have here : cursor.skipNewlines = cursor := skipNewlines_of_none (accept?_eq_none isNewline)
    have alsoHere : other.skipNewlines = other := by
      refine skipNewlines_of_none (accept?_eq_none ?_)
      rw [restarts.peek_kind]
      exact isNewline
    cases reads with
    | noStatements ends =>
        rw [here, restarts.not_endsStatements] at ends
        cases ends
    | moreStatements _ isFirst areOthers =>
        have more : other.skipNewlines.endsStatements false = false := by
          rw [alsoHere]
          exact restarts.symm.not_endsStatements
        rw [here] at isFirst
        refine ⟨next, .moreStatements more ?_ areOthers⟩
        rw [alsoHere]
        exact isFirst.statement_restarted restarts

end Phrase

end ScriptFront
