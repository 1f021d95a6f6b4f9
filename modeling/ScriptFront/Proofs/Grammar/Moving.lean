import ScriptFront.Proofs.Grammar.Steps

/-!
# Tokens at other places

What a cursor finds depends on the tokens, not on their places.  If all tokens are moved, every
lookup finds the same tokens at their new places.
-/

namespace ScriptFront

/-- The token at another place. -/
def Token.moved (move : Location → Location) (token : Token) : Token :=
  { token with location := move token.location }

namespace Cursor

/-- The cursor before the same tokens, all at other places. -/
def moved (move : Location → Location) (cursor : Cursor) : Cursor :=
  ⟨cursor.ahead.map (Token.moved move),
    { cursor.ending with location := move cursor.ending.location }, cursor.afterBody⟩

variable (move : Location → Location) {cursor : Cursor}

theorem size_moved (cursor : Cursor) :
    (cursor.moved move).size = cursor.size :=
  List.length_map _

theorem peekAt_moved (cursor : Cursor) (distance : Nat) :
    (cursor.moved move).peekAt distance = (cursor.peekAt distance).moved move := by
  simp only [peekAt, moved, List.getD_eq_getElem?_getD, List.getElem?_map]
  cases cursor.ahead[distance]? <;> rfl

theorem peek_moved (cursor : Cursor) :
    (cursor.moved move).peek = cursor.peek.moved move :=
  peekAt_moved move cursor 0

theorem atEnd_moved (cursor : Cursor) : (cursor.moved move).atEnd = cursor.atEnd := by
  simp [atEnd, moved]

theorem isAt_moved (cursor : Cursor) (kind : Kind) :
    (cursor.moved move).isAt kind = cursor.isAt kind := by
  rw [isAt, isAt, peek_moved]
  rfl

theorem endsStatements_moved (cursor : Cursor) (inBody : Bool) :
    (cursor.moved move).endsStatements inBody = cursor.endsStatements inBody := by
  rw [endsStatements, endsStatements, atEnd_moved, isAt_moved]

/-! ## Taking tokens -/

def Advance.moved (advance : Advance cursor) :
    Advance (cursor.moved move) :=
  ⟨advance.next.moved move, by
    rw [size_moved, size_moved]
    exact advance.shorter⟩

def Taken.moved (taken : Taken cursor) :
    Taken (cursor.moved move) :=
  ⟨taken.toAdvance.moved move, taken.token.moved move⟩

theorem take?_moved (cursor : Cursor) :
    (cursor.moved move).take? = cursor.take?.map (Taken.moved move) := by
  rcases cursor with ⟨_ | ⟨first, others⟩, ending, afterBody⟩ <;> rfl

theorem accept?_moved (cursor : Cursor) (kind : Kind) :
    (cursor.moved move).accept? kind = (cursor.accept? kind).map (Advance.moved move) := by
  unfold accept?
  rw [take?_moved]
  cases cursor.take? with
  | none => rfl
  | some taken =>
      change (if taken.token.kind = kind then _ else _) = _
      dsimp only
      split <;> rfl

theorem skipNewlines_moved (cursor : Cursor) :
    (cursor.moved move).skipNewlines = cursor.skipNewlines.moved move := by
  induction cursor using skipNewlines.induct with
  | case1 cursor absent =>
      rw [skipNewlines_of_none absent, skipNewlines_of_none]
      rw [accept?_moved, absent]
      rfl
  | case2 cursor newline present _ inductionHypothesis =>
      have presentMoved : (cursor.moved move).accept? .newline = some (newline.moved move) := by
        rw [accept?_moved, present]
        rfl
      rw [skipNewlines_of_some present, skipNewlines_of_some presentMoved]
      exact inductionHypothesis

theorem skipDedent_moved (cursor : Cursor) :
    (cursor.moved move).skipDedent = cursor.skipDedent.moved move := by
  unfold skipDedent
  rw [accept?_moved]
  cases cursor.accept? .dedent <;> rfl

theorem Accepts.moved
    {move : Location → Location} {kind : Kind} {next : Cursor}
    (accepts : cursor.Accepts kind next) :
    (cursor.moved move).Accepts kind (next.moved move) := by
  rcases accepts with ⟨token, takes, isKind⟩
  refine ⟨token.moved move, ⟨?_, ?_, takes.afterBody⟩, isKind⟩
  · rw [Cursor.moved, takes.ahead]
    rfl
  · simp only [Cursor.moved, takes.ending]

theorem Advance.eq_of_next {first second : Advance cursor} (same : first.next = second.next) :
    first = second := by
  cases first
  cases second
  cases same
  rfl

theorem bodyStart?_moved (cursor : Cursor) :
    (cursor.moved move).bodyStart? = cursor.bodyStart?.map (Advance.moved move) := by
  cases found : cursor.bodyStart? with
  | some start =>
      rcases startsBody_of_bodyStart? found with ⟨line, isLine, isIndent⟩
      have startsMoved : (cursor.moved move).StartsBody (start.next.moved move) := by
        refine ⟨line.moved move, isLine.moved, ?_⟩
        rw [skipNewlines_moved]
        exact isIndent.moved
      rcases bodyStart?_of_startsBody startsMoved with ⟨other, foundMoved, isNext⟩
      rw [foundMoved]
      exact congrArg some (Advance.eq_of_next isNext)
  | none =>
      unfold bodyStart? at found ⊢
      rw [accept?_moved]
      cases isLine : cursor.accept? .newline with
      | none => rfl
      | some newline =>
          rw [isLine] at found
          cases isIndent : newline.next.skipNewlines.accept? .indent with
          | some indent =>
              simp only [isIndent] at found
              cases found
          | none =>
              have absent : (newline.next.moved move).skipNewlines.accept? .indent = none := by
                rw [skipNewlines_moved, accept?_moved, isIndent]
                rfl
              simp only [Option.map_some, Option.map_none, Advance.moved, absent]

/-! ## Looking ahead -/

def Binary.moved (sign : Binary cursor) :
    Binary (cursor.moved move) :=
  ⟨sign.toAdvance.moved move, sign.operator, sign.binding⟩

def Unary.moved (sign : Unary cursor) :
    Unary (cursor.moved move) :=
  ⟨sign.toAdvance.moved move, sign.operator⟩

def SymbolKey.moved (key : SymbolKey cursor) :
    SymbolKey (cursor.moved move) :=
  ⟨key.toAdvance.moved move, key.name⟩

theorem binary?_moved (cursor : Cursor) :
    (cursor.moved move).binary? = cursor.binary?.map (Binary.moved move) := by
  unfold binary?
  rw [take?_moved, show (cursor.moved move).afterBody = cursor.afterBody from rfl]
  cases cursor.afterBody with
  | true => rfl
  | false =>
      cases cursor.take? with
      | none => rfl
      | some taken =>
          rcases taken with ⟨advance, ⟨kind, lexeme, location, spaced⟩⟩
          cases kind with
          | operator operator =>
              change (operator.binding?.map _) = (operator.binding?.map _).map _
              cases operator.binding? <;> rfl
          | _ => rfl

theorem unary?_moved (cursor : Cursor) :
    (cursor.moved move).unary? = cursor.unary?.map (Unary.moved move) := by
  unfold unary?
  rw [take?_moved]
  cases cursor.take? with
  | none => rfl
  | some taken =>
      rcases taken with ⟨advance, ⟨kind, lexeme, location, spaced⟩⟩
      cases kind with
      | operator operator =>
          simp only [Option.map_some, Taken.moved, Token.moved]
          split <;> rfl
      | _ => rfl

theorem symbolKey?_moved (cursor : Cursor) :
    (cursor.moved move).symbolKey? = cursor.symbolKey?.map (SymbolKey.moved move) := by
  unfold symbolKey?
  rw [take?_moved]
  cases cursor.take? with
  | none => rfl
  | some word =>
      rcases word with ⟨advance, ⟨kind, lexeme, location, spaced⟩⟩
      cases kind with
      | identifier name | keyword name =>
          have sameColon := accept?_moved move advance.next (.mark .colon)
          simp only [Option.map_some, Taken.moved, Token.moved, Advance.moved, sameColon]
          cases advance.next.accept? (.mark .colon) with
          | none => rfl
          | some colon =>
              have sameSpaced : (Advance.moved move colon).next.peek.spaced =
                  colon.next.peek.spaced := by
                rw [Advance.moved, peek_moved]
                rfl
              simp only [Option.map_some, sameSpaced]
              cases colon.next.peek.spaced <;> rfl
      | _ => rfl

theorem separator?_moved (cursor : Cursor) :
    (cursor.moved move).separator? = cursor.separator?.map (Advance.moved move) := by
  unfold separator?
  rw [accept?_moved, show (cursor.moved move).afterBody = cursor.afterBody from rfl]
  cases cursor.afterBody with
  | true => rfl
  | false =>
      cases cursor.accept? (.mark .colon) with
      | none => rfl
      | some colon =>
          have samePeek := peek_moved move colon.next
          simp only [Option.map_some, Advance.moved, samePeek, Token.moved]
          cases colon.next.peek.spaced <;> rfl

theorem behindParens?_moved (depth : Nat) (tokens : List Token) :
    behindParens? depth (tokens.map (Token.moved move)) =
      (behindParens? depth tokens).map (List.map (Token.moved move)) := by
  induction tokens generalizing depth with
  | nil => rfl
  | cons head tail inductionHypothesis =>
      simp only [List.map_cons, behindParens?, inductionHypothesis,
        show (head.moved move).kind = head.kind from rfl]
      split
      · rfl
      split
      · split <;> rfl
      · rfl

theorem continuesBehindParens_moved (cursor : Cursor) :
    (cursor.moved move).continuesBehindParens = cursor.continuesBehindParens := by
  unfold continuesBehindParens
  rw [show (cursor.moved move).ahead = cursor.ahead.map (Token.moved move) from rfl,
    behindParens?_moved]
  rcases behindParens? 0 cursor.ahead with _ | _ | ⟨token, others⟩ <;> rfl

theorem atArgument_moved (cursor : Cursor) :
    (cursor.moved move).atArgument = cursor.atArgument := by
  unfold atArgument
  rw [peek_moved, peekAt_moved]
  rfl

end Cursor

end ScriptFront
