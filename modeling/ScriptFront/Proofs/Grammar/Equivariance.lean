import ScriptFront.Proofs.Grammar.Moving
import ScriptFront.Proofs.Grammar.Recursion

/-!
# Places do not matter

Each function of the grammar reads the same value from tokens at other places, or refuses the same
token for the same reason.  One statement for each function, in the order of the functions, that
takes what the function calls for granted.
-/

namespace ScriptFront

open Cursor

/-- The same result, with the place it reaches in tokens at other places. -/
def movedResult {α : Type} (move : Location → Location) :
    Except (Refusal × Cursor) (α × Cursor) → Except (Refusal × Cursor) (α × Cursor)
  | .ok (value, next) => .ok (value, next.moved move)
  | .error (refusal, stop) => .error (refusal, stop.moved move)

/-- The second outcome is the first one, in tokens at other places. -/
def Outcome.Moves
    {α : Type} {bound other : Nat} (move : Location → Location)
    (first : Outcome bound α) (second : Outcome other α) : Prop :=
  second.result = movedResult move first.result

namespace Outcome

variable {α β : Type} {bound other wider further : Nat} {move : Location → Location}
  {first : Outcome bound α} {second : Outcome other α} {cursor : Cursor}

theorem Moves.widen
    (moves : Moves move first second) (le : bound ≤ wider) (le' : other ≤ further) :
    Moves move (first.widen le) (second.widen le') := by
  unfold Moves
  rw [result_widen, result_widen]
  exact moves

theorem Moves.relax (moves : Moves move first second) : Moves move first.relax second.relax :=
  moves.widen _ _

theorem Moves.map (moves : Moves move first second) (change : α → β) :
    Moves move (first.map change) (second.map change) := by
  unfold Moves at moves ⊢
  rw [result_map, result_map, moves]
  cases first <;> rfl

theorem Moves.andThen
    (moves : Moves move first second)
    {rest : α → (next : Cursor) → next.size < bound → Outcome (next.size + 1) β}
    {restMoved : α → (next : Cursor) → next.size < other → Outcome (next.size + 1) β}
    (restMoves : ∀ value next shorter shorter',
      Moves move (rest value next shorter) (restMoved value (next.moved move) shorter')) :
    Moves move (first.andThen rest) (second.andThen restMoved) := by
  cases first with
  | done value next shorter =>
      have read : second.result = .ok (value, next.moved move) := moves
      have restMove := restMoves value next shorter (size_lt_of_result read)
      unfold Moves at restMove ⊢
      rw [result_andThen_of_ok read, restMove]
      simp only [andThen, result_widen]
  | stuck refusal stop =>
      cases second with
      | done => cases moves
      | stuck other place =>
          have same : Except.error (other, place) =
              (Except.error (refusal, stop.moved move) : Except _ (α × Cursor)) := moves
          cases same
          rfl

theorem moves_yield (cursor : Cursor) (value : α) :
    Moves move (cursor.yield value) ((cursor.moved move).yield value) := rfl

theorem moves_refuse (cursor : Cursor) (wanted : List Expectation) :
    Moves move (cursor.refuse wanted : Outcome bound α)
      ((cursor.moved move).refuse wanted : Outcome other α) := rfl

theorem moves_expect
    (cursor : Cursor) (kind : Kind) (wanted : List Expectation) (value : α) :
    Moves move (cursor.expect kind wanted value)
      ((cursor.moved move).expect kind wanted value) := by
  unfold expect
  rw [accept?_moved]
  cases cursor.accept? kind <;> rfl

end Outcome

namespace Cursor

variable {move : Location → Location}

open Outcome

theorem moves_constant (cursor : Cursor) :
    Moves move cursor.constant (cursor.moved move).constant := by
  unfold constant
  rw [take?_moved]
  cases cursor.take? with
  | none => rfl
  | some taken =>
      rcases taken with ⟨advance, ⟨kind, lexeme, location, spaced⟩⟩
      cases kind <;> rfl

theorem moves_superclass (cursor : Cursor) :
    Moves move cursor.superclass (cursor.moved move).superclass := by
  unfold superclass
  rw [accept?_moved]
  cases cursor.accept? (.operator .less) with
  | none => rfl
  | some sign => exact ((moves_constant sign.next).map some).widen _ _

theorem moves_splatName (cursor : Cursor) :
    Moves move cursor.splatName (cursor.moved move).splatName := by
  unfold splatName
  rw [take?_moved]
  cases cursor.take? with
  | none => rfl
  | some taken =>
      rcases taken with ⟨advance, ⟨kind, lexeme, location, spaced⟩⟩
      cases kind <;> rfl

theorem moves_statementEnd {α : Type} (cursor : Cursor) (value : α) :
    Moves move (cursor.statementEnd value) ((cursor.moved move).statementEnd value) := by
  unfold statementEnd
  rw [accept?_moved, isAt_moved, atEnd_moved]
  cases cursor.accept? .newline with
  | some newline => rfl
  | none =>
      change Moves move (if _ then _ else _)
        (if (cursor.isAt .dedent || cursor.atEnd || cursor.afterBody) = true then _ else _)
      split <;> rfl

theorem chained?_moved (cursor : Cursor) (binding : Binding) :
    (cursor.moved move).chained? binding = cursor.chained? binding := by
  unfold chained?
  rw [binary?_moved]
  cases binding.associativity with
  | none => cases cursor.binary? <;> rfl
  | _ => rfl

end Cursor

namespace Phrase

open Outcome

variable {move : Location → Location}

/-- Tokens at other places are read to the same effect. -/
def Moved (move : Location → Location) (form : Form) (cursor : Cursor) : Prop :=
  run form (cursor.moved move) = movedResult move (run form cursor)

theorem moves_statements (inBody : Bool) (cursor : Cursor)
    (earlier : Earlier (Moved move) (.statements inBody) cursor) :
    Moves move (statements inBody cursor) (statements inBody (cursor.moved move)) := by
  have sameEnd : (cursor.moved move).skipNewlines.endsStatements inBody =
      cursor.skipNewlines.endsStatements inBody := by
    rw [skipNewlines_moved, endsStatements_moved]
  rw [statements, statements, sameEnd]
  split
  · unfold Moves
    rw [result_done, result_done, skipNewlines_moved]
    rfl
  · have isFirst : Moves move (statement cursor.skipNewlines)
        (statement (cursor.moved move).skipNewlines) := by
      rw [skipNewlines_moved]
      exact earlier.of_le .statement cursor.size_skipNewlines_le rfl
    refine (isFirst.andThen ?_).widen _ _
    intro first next shorter _
    have others := earlier.of_lt (.statements inBody)
      (Nat.lt_of_lt_of_le shorter cursor.size_skipNewlines_le)
    exact Moves.map others (first :: ·)

theorem moves_statement (cursor : Cursor)
    (earlier : Earlier (Moved move) .statement cursor) :
    Moves move (statement cursor) (statement (cursor.moved move)) := by
  rw [statement, statement]
  refine Moves.andThen (earlier.of_rank (.entry false) rfl) ?_
  intro first middle shorter _
  refine Moves.andThen (earlier.of_lt (.bareHash first) shorter) ?_
  intro node next _ _
  exact moves_statementEnd next node

theorem moves_bareHash (first : Entry) (cursor : Cursor)
    (earlier : Earlier (Moved move) (.bareHash first) cursor) :
    Moves move (bareHash first cursor) (bareHash first (cursor.moved move)) := by
  cases first with
  | single node =>
      rw [bareHash, bareHash]
      exact moves_yield cursor node
  | pair pair =>
      rw [bareHash, bareHash]
      exact Moves.map (earlier.of_rank (.morePairs pair) rfl) Node.hash

theorem moves_body (cursor : Cursor)
    (earlier : Earlier (Moved move) .body cursor) :
    Moves move (body cursor) (body (cursor.moved move)) := by
  rw [body, body, bodyStart?_moved]
  cases cursor.bodyStart? with
  | none => exact moves_yield cursor []
  | some start =>
      refine (Moves.andThen (earlier.of_lt (.statements true) start.shorter) ?_).widen _ _
      intro nodes next _ _
      cases nodes with
      | nil => exact moves_refuse next _
      | cons head tail =>
          unfold Moves
          simp only [List.isEmpty_cons, Bool.false_eq_true, if_false, result_done,
            skipDedent_moved]
          rfl

theorem moves_entry (inCommand : Bool) (cursor : Cursor)
    (earlier : Earlier (Moved move) (.entry inCommand) cursor) :
    Moves move (Phrase.entry inCommand cursor) (Phrase.entry inCommand (cursor.moved move)) := by
  rw [Phrase.entry, Phrase.entry, symbolKey?_moved]
  cases cursor.symbolKey? with
  | some key =>
      exact (Moves.map (earlier.of_lt (.binary inCommand Binding.loosest) key.shorter) _).widen _ _
  | none =>
      refine Moves.andThen (earlier.of_rank (.binary inCommand Binding.loosest) rfl) ?_
      intro node next shorter _
      rw [separator?_moved]
      cases next.separator? with
      | none => exact moves_yield next _
      | some colon =>
          have value := earlier.of_lt (.binary inCommand Binding.loosest)
            (Nat.lt_trans colon.shorter shorter)
          exact (Moves.map value _).widen _ _

theorem moves_entries (inCommand : Bool) (cursor : Cursor)
    (earlier : Earlier (Moved move) (.entries inCommand) cursor) :
    Moves move (entries inCommand cursor) (entries inCommand (cursor.moved move)) := by
  rw [entries, entries]
  refine Moves.andThen (earlier.of_rank (.entry inCommand) rfl) ?_
  intro first next shorter _
  rw [accept?_moved]
  cases next.accept? (.mark .comma) with
  | none => exact moves_yield next _
  | some comma =>
      have others := earlier.of_lt (.entries inCommand) (Nat.lt_trans comma.shorter shorter)
      exact (Moves.map others _).widen _ _

theorem moves_pairs (cursor : Cursor)
    (earlier : Earlier (Moved move) .pairs cursor) :
    Moves move (pairs cursor) (pairs (cursor.moved move)) := by
  rw [pairs, pairs]
  refine Moves.andThen (earlier.of_rank (.entry false) rfl) ?_
  intro first next shorter _
  cases first with
  | single node => exact moves_refuse next _
  | pair pair => exact earlier.of_lt (.morePairs pair) shorter

theorem moves_morePairs (first : Pair Node) (cursor : Cursor)
    (earlier : Earlier (Moved move) (.morePairs first) cursor) :
    Moves move (morePairs first cursor) (morePairs first (cursor.moved move)) := by
  rw [morePairs, morePairs, accept?_moved]
  cases cursor.accept? (.mark .comma) with
  | none => exact moves_yield cursor _
  | some comma =>
      exact (Moves.map (earlier.of_lt .pairs comma.shorter) _).widen _ _

theorem moves_enclosed (closer : Mark) (cursor : Cursor)
    (earlier : Earlier (Moved move) (.enclosed closer) cursor) :
    Moves move (enclosed closer cursor) (enclosed closer (cursor.moved move)) := by
  rw [enclosed, enclosed, accept?_moved]
  cases cursor.accept? (.mark closer) with
  | some closed => rfl
  | none =>
      refine Moves.andThen (earlier.of_rank (.entries false) rfl) ?_
      intro list next _ _
      exact (moves_expect next _ _ _).relax

theorem moves_hash (cursor : Cursor)
    (earlier : Earlier (Moved move) .hash cursor) :
    Moves move (hash cursor) (hash (cursor.moved move)) := by
  rw [hash, hash, accept?_moved]
  cases cursor.accept? (.mark .rightBrace) with
  | some closed => rfl
  | none =>
      refine Moves.andThen (earlier.of_rank .pairs rfl) ?_
      intro list next _ _
      exact (moves_expect next _ _ _).relax

theorem moves_binary (inCommand : Bool) (level : Nat) (cursor : Cursor)
    (earlier : Earlier (Moved move) (.binary inCommand level) cursor) :
    Moves move (binary inCommand level cursor) (binary inCommand level (cursor.moved move)) := by
  rw [binary, binary]
  refine Moves.andThen (earlier.of_rank (.unary inCommand) rfl) ?_
  intro left next shorter _
  exact earlier.of_lt (.climb inCommand level left) shorter

theorem moves_climb (inCommand : Bool) (level : Nat) (left : Node) (cursor : Cursor)
    (earlier : Earlier (Moved move) (.climb inCommand level left) cursor) :
    Moves move (climb inCommand level left cursor)
      (climb inCommand level left (cursor.moved move)) := by
  rw [climb, climb, binary?_moved]
  cases cursor.binary? with
  | none => exact moves_yield cursor left
  | some sign =>
      change Moves move (if sign.binding.level < level then _ else _)
        (if sign.binding.level < level then _ else _)
      split
      · exact moves_yield cursor left
      · have operand := earlier.of_lt (.binary inCommand sign.binding.operandLevel) sign.shorter
        refine (Moves.andThen operand ?_).widen _ _
        intro right next shorter _
        simp only [Binary.moved, chained?_moved]
        cases next.chained? sign.binding with
        | some again => rfl
        | none =>
            exact earlier.of_lt (.climb inCommand level (.binary sign.operator left right))
              (Nat.lt_trans shorter sign.shorter)

theorem moves_unary (inCommand : Bool) (cursor : Cursor)
    (earlier : Earlier (Moved move) (.unary inCommand) cursor) :
    Moves move (unary inCommand cursor) (unary inCommand (cursor.moved move)) := by
  rw [unary, unary, unary?_moved]
  cases cursor.unary? with
  | none => exact earlier.of_rank (.primary inCommand) rfl
  | some sign =>
      exact (Moves.map (earlier.of_lt (.unary inCommand) sign.shorter) _).widen _ _

theorem moves_primary (inCommand : Bool) (cursor : Cursor)
    (earlier : Earlier (Moved move) (.primary inCommand) cursor) :
    Moves move (primary inCommand cursor) (primary inCommand (cursor.moved move)) := by
  rw [primary, primary, take?_moved]
  cases cursor.take? with
  | none => exact moves_refuse cursor _
  | some first =>
      rcases first with ⟨⟨next, shorter⟩, ⟨kind, lexeme, location, spaced⟩⟩
      cases kind with
      | integer value => rfl
      | float value => rfl
      | constant name => rfl
      | fragment text =>
          exact (Moves.map (earlier.of_lt (.stringParts text) shorter) StringParts.node).widen _ _
      | identifier name => exact Moves.widen (earlier.of_lt (.named inCommand name) shorter) _ _
      | keyword word =>
          cases word with
          | classWord => exact Moves.widen (earlier.of_lt .classDefinition shorter) _ _
          | moduleWord => exact Moves.widen (earlier.of_lt .moduleDefinition shorter) _ _
      | mark sign =>
          cases sign with
          | colon => exact Moves.widen (earlier.of_lt .symbol shorter) _ _
          | leftBracket =>
              have list := earlier.of_lt (.enclosed .rightBracket) shorter
              exact (Moves.map list Node.array).widen _ _
          | leftBrace => exact Moves.widen (earlier.of_lt .hash shorter) _ _
          | leftParen => exact Moves.widen (earlier.of_lt .group shorter) _ _
          | blockArrow => exact (Moves.map (earlier.of_lt .definition shorter) Node.block).widen _ _
          | _ => exact moves_refuse cursor _
      | _ => exact moves_refuse cursor _

theorem moves_stringParts (text : String) (cursor : Cursor)
    (earlier : Earlier (Moved move) (.stringParts text) cursor) :
    Moves move (stringParts text cursor) (stringParts text (cursor.moved move)) := by
  rw [stringParts, stringParts, take?_moved]
  cases cursor.take? with
  | none => exact moves_yield cursor _
  | some taken =>
      rcases taken with ⟨⟨next, shorter⟩, ⟨kind, lexeme, location, spaced⟩⟩
      cases kind with
      | fragment more =>
          cases spaced with
          | false => exact Moves.widen (earlier.of_lt (.stringParts (text ++ more)) shorter) _ _
          | true => exact moves_yield cursor _
      | interpolationStart =>
          have inserted := earlier.of_lt (.binary false Binding.loosest) shorter
          refine (Moves.andThen inserted ?_).widen _ _
          intro inner closing shorterInner _
          refine ((moves_expect closing _ _ _).andThen ?_).relax
          intro _ behind shorterBehind _
          have others := earlier.of_lt (.stringParts "")
            (Nat.lt_trans shorterBehind (Nat.lt_trans shorterInner shorter))
          exact Moves.map others (StringParts.insertion text inner)
      | _ => exact moves_yield cursor _

theorem moves_symbol (cursor : Cursor)
    (earlier : Earlier (Moved move) .symbol cursor) :
    Moves move (symbol cursor) (symbol (cursor.moved move)) := by
  have sameSpaced : (cursor.moved move).peek.spaced = cursor.peek.spaced := by
    rw [peek_moved]
    rfl
  rw [symbol, symbol, sameSpaced, take?_moved]
  split
  · exact moves_refuse cursor _
  · cases cursor.take? with
    | none => exact moves_refuse cursor _
    | some taken =>
        rcases taken with ⟨⟨next, shorter⟩, ⟨kind, lexeme, location, spaced⟩⟩
        cases kind with
        | fragment text => exact (Moves.map (earlier.of_lt (.stringParts text) shorter) _).widen _ _
        | identifier name => rfl
        | constant name => rfl
        | keyword word => rfl
        | _ => exact moves_refuse cursor _

theorem moves_group (cursor : Cursor)
    (earlier : Earlier (Moved move) .group cursor) :
    Moves move (group cursor) (group (cursor.moved move)) := by
  rw [group, group]
  refine Moves.andThen (earlier.of_rank (.binary false Binding.loosest) rfl) ?_
  intro inner next _ _
  exact (moves_expect next _ _ _).relax

theorem moves_classDefinition (cursor : Cursor)
    (earlier : Earlier (Moved move) .classDefinition cursor) :
    Moves move (classDefinition cursor) (classDefinition (cursor.moved move)) := by
  rw [classDefinition, classDefinition]
  refine (moves_constant cursor).andThen ?_
  intro name next shorter _
  refine (moves_superclass next).andThen ?_
  intro base behind shorterBase _
  have inside := earlier.of_lt .body (Nat.lt_of_le_of_lt (Nat.le_of_lt_succ shorterBase) shorter)
  exact Moves.map inside _

theorem moves_moduleDefinition (cursor : Cursor)
    (earlier : Earlier (Moved move) .moduleDefinition cursor) :
    Moves move (moduleDefinition cursor) (moduleDefinition (cursor.moved move)) := by
  rw [moduleDefinition, moduleDefinition]
  refine (moves_constant cursor).andThen ?_
  intro name next shorter _
  exact Moves.map (earlier.of_lt .body shorter) _

theorem moves_definition (cursor : Cursor)
    (earlier : Earlier (Moved move) .definition cursor) :
    Moves move (definition cursor) (definition (cursor.moved move)) := by
  rw [definition, definition]
  refine Moves.andThen (earlier.of_rank .parameters rfl) ?_
  intro list next shorter _
  exact Moves.map (earlier.of_le .body (Nat.le_of_lt_succ shorter) rfl) _

theorem moves_parameters (cursor : Cursor)
    (earlier : Earlier (Moved move) .parameters cursor) :
    Moves move (parameters cursor) (parameters (cursor.moved move)) := by
  rw [parameters, parameters, accept?_moved]
  cases cursor.accept? (.mark .leftParen) with
  | none => exact moves_yield cursor _
  | some opened =>
      have sameClosing := accept?_moved move opened.next (.mark .rightParen)
      simp only [Option.map_some, Advance.moved, sameClosing]
      cases opened.next.accept? (.mark .rightParen) with
      | some closed => rfl
      | none =>
          refine (Moves.andThen (earlier.of_lt .parameterList opened.shorter) ?_).widen _ _
          intro list next _ _
          exact (moves_expect next _ _ _).relax

theorem moves_parameterList (cursor : Cursor)
    (earlier : Earlier (Moved move) .parameterList cursor) :
    Moves move (parameterList cursor) (parameterList (cursor.moved move)) := by
  rw [parameterList, parameterList]
  refine Moves.andThen (earlier.of_rank .parameter rfl) ?_
  intro first next shorter _
  rw [accept?_moved]
  cases next.accept? (.mark .comma) with
  | none => exact moves_yield next _
  | some comma =>
      have others := earlier.of_lt .parameterList (Nat.lt_trans comma.shorter shorter)
      exact (Moves.map others _).widen _ _

theorem moves_parameter (cursor : Cursor)
    (earlier : Earlier (Moved move) .parameter cursor) :
    Moves move (Phrase.parameter cursor) (Phrase.parameter (cursor.moved move)) := by
  rw [Phrase.parameter, Phrase.parameter, take?_moved]
  cases cursor.take? with
  | none => exact moves_refuse cursor _
  | some taken =>
      rcases taken with ⟨⟨next, shorter⟩, ⟨kind, lexeme, location, spaced⟩⟩
      cases kind with
      | identifier name => exact Moves.widen (earlier.of_lt (.parameterValue name) shorter) _ _
      | operator sign =>
          cases sign with
          | star => exact (moves_splatName next).widen _ _
          | _ => exact moves_refuse cursor _
      | _ => exact moves_refuse cursor _

theorem moves_parameterValue (name : String) (cursor : Cursor)
    (earlier : Earlier (Moved move) (.parameterValue name) cursor) :
    Moves move (parameterValue name cursor) (parameterValue name (cursor.moved move)) := by
  rw [parameterValue, parameterValue]
  cases bareName? name with
  | some bare => exact (Moves.map (earlier.of_rank (.binary false Binding.loosest) rfl) _).relax
  | none =>
      simp only [accept?_moved]
      cases cursor.accept? (.operator .assign) with
      | some assign =>
          have value := earlier.of_lt (.binary false Binding.loosest) assign.shorter
          exact (Moves.map value _).widen _ _
      | none =>
          cases cursor.accept? (.mark .colon) with
          | some colon =>
              have value := earlier.of_lt (.binary false Binding.loosest) colon.shorter
              exact (Moves.map value _).widen _ _
          | none => exact moves_yield cursor _

theorem moves_named (inCommand : Bool) (name : String) (cursor : Cursor)
    (earlier : Earlier (Moved move) (.named inCommand name) cursor) :
    Moves move (named inCommand name cursor) (named inCommand name (cursor.moved move)) := by
  rw [named, named, accept?_moved]
  cases cursor.accept? (.mark .arrow) with
  | some arrow =>
      exact (Moves.map (earlier.of_lt .definition arrow.shorter) _).widen _ _
  | none =>
      refine Moves.andThen (earlier.of_rank .arguments rfl) ?_
      intro list next shorter _
      exact earlier.of_le (.trailingBlock inCommand name list) (Nat.le_of_lt_succ shorter) rfl

theorem moves_trailingBlock (inCommand : Bool) (name : String) (list : List Node)
    (cursor : Cursor)
    (earlier : Earlier (Moved move) (.trailingBlock inCommand name list) cursor) :
    Moves move (trailingBlock inCommand name list cursor)
      (trailingBlock inCommand name list (cursor.moved move)) := by
  rw [trailingBlock.eq_def, trailingBlock.eq_def, accept?_moved]
  cases inCommand with
  | true => exact moves_yield cursor _
  | false =>
      cases cursor.accept? (.mark .blockArrow) with
      | none => exact moves_yield cursor _
      | some arrow =>
          exact (Moves.map (earlier.of_lt .definition arrow.shorter) _).widen _ _

theorem moves_arguments (cursor : Cursor)
    (earlier : Earlier (Moved move) .arguments cursor) :
    Moves move (arguments cursor) (arguments (cursor.moved move)) := by
  have sameSpaced : (cursor.moved move).peek.spaced = cursor.peek.spaced := by
    rw [peek_moved]
    rfl
  rw [arguments, arguments, accept?_moved, sameSpaced, continuesBehindParens_moved,
    atArgument_moved]
  cases cursor.accept? (.mark .leftParen) with
  | some opened =>
      change Moves move (if _ then _ else _) (if _ then _ else _)
      split
      · exact (Moves.map (earlier.of_rank (.entries true) rfl) Entry.gather).relax
      · exact Moves.widen (earlier.of_lt (.enclosed .rightParen) opened.shorter) _ _
  | none =>
      change Moves move (if _ then _ else _) (if _ then _ else _)
      split
      · exact (Moves.map (earlier.of_rank (.entries true) rfl) Entry.gather).relax
      · exact moves_yield cursor _

/-- Every phrase is read from tokens at other places as it is read here. -/
theorem moved (move : Location → Location) (form : Form) (cursor : Cursor) :
    Moved move form cursor := by
  refine forall_of_earlier ?_ form cursor
  intro form cursor earlier
  cases form with
  | statements inBody => exact moves_statements inBody cursor earlier
  | statement => exact moves_statement cursor earlier
  | bareHash first => exact moves_bareHash first cursor earlier
  | body => exact moves_body cursor earlier
  | entry inCommand => exact moves_entry inCommand cursor earlier
  | entries inCommand => exact moves_entries inCommand cursor earlier
  | pairs => exact moves_pairs cursor earlier
  | morePairs first => exact moves_morePairs first cursor earlier
  | enclosed closer => exact moves_enclosed closer cursor earlier
  | hash => exact moves_hash cursor earlier
  | binary inCommand level => exact moves_binary inCommand level cursor earlier
  | climb inCommand level left => exact moves_climb inCommand level left cursor earlier
  | unary inCommand => exact moves_unary inCommand cursor earlier
  | primary inCommand => exact moves_primary inCommand cursor earlier
  | stringParts text => exact moves_stringParts text cursor earlier
  | symbol => exact moves_symbol cursor earlier
  | group => exact moves_group cursor earlier
  | classDefinition => exact moves_classDefinition cursor earlier
  | moduleDefinition => exact moves_moduleDefinition cursor earlier
  | definition => exact moves_definition cursor earlier
  | parameters => exact moves_parameters cursor earlier
  | parameterList => exact moves_parameterList cursor earlier
  | parameter => exact moves_parameter cursor earlier
  | parameterValue name => exact moves_parameterValue name cursor earlier
  | named inCommand name => exact moves_named inCommand name cursor earlier
  | trailingBlock inCommand name list =>
      exact moves_trailingBlock inCommand name list cursor earlier
  | arguments => exact moves_arguments cursor earlier

end Phrase

end ScriptFront
