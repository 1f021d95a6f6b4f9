import ScriptFront.Proofs.Grammar.Passing

/-!
# Balanced parentheses

Every phrase is a run of tokens in which each parenthesis has its partner.  A search for the
parenthesis that closes an open one therefore passes over whole phrases.
-/

namespace ScriptFront

def Kind.isParen : Kind → Bool
  | .mark .leftParen | .mark .rightParen => true
  | _ => false

theorem Kind.isParen_of_standsAlone
    {kind : Kind} (alone : kind.standsAlone = true) : kind.isParen = false := by
  cases kind with
  | mark sign => cases sign <;> first | rfl | cases alone
  | _ => rfl

/-- A bracket is opened and closed by parentheses, or neither by one. -/
theorem Kind.parens_of_bracket
    {opener closer : Kind} {bracket : Bracket} (opens : opener.opens? = some bracket)
    (closes : closer.closes? = some bracket) :
    (opener = .mark .leftParen ∧ closer = .mark .rightParen) ∨
      (opener.isParen = false ∧ closer.isParen = false) := by
  have opener_of_paren : bracket = .paren → opener = .mark .leftParen := by
    rintro rfl
    unfold Kind.opens? at opens
    split at opens <;> first | rfl | cases opens
  have closer_of_paren : bracket = .paren → closer = .mark .rightParen := by
    rintro rfl
    unfold Kind.closes? at closes
    split at closes <;> first | rfl | cases closes
  by_cases isParen : bracket = .paren
  · exact Or.inl ⟨opener_of_paren isParen, closer_of_paren isParen⟩
  · refine Or.inr ⟨?_, ?_⟩
    · unfold Kind.isParen
      split
      · exact absurd (Option.some.inj opens).symm isParen
      · cases opens
      · rfl
    · unfold Kind.isParen
      split
      · cases closes
      · exact absurd (Option.some.inj closes).symm isParen
      · rfl

namespace Cursor

/-- Between two places each parenthesis has its partner. -/
def Balanced (cursor next : Cursor) : Prop :=
  ∃ passed, cursor.ahead = passed ++ next.ahead ∧ next.ending = cursor.ending ∧
    ∀ depth rest, behindParens? (depth + 1) (passed ++ rest) = behindParens? (depth + 1) rest

variable {cursor middle next : Cursor} {token : Token} {kind : Kind}

theorem Balanced.refl (cursor : Cursor) : cursor.Balanced cursor :=
  ⟨[], rfl, rfl, fun _ _ => rfl⟩

theorem Balanced.trans
    (first : cursor.Balanced middle) (second : middle.Balanced next) : cursor.Balanced next := by
  rcases first with ⟨left, isLeft, sameLeft, passLeft⟩
  rcases second with ⟨right, isRight, sameRight, passRight⟩
  refine ⟨left ++ right, ?_, sameRight.trans sameLeft, ?_⟩
  · rw [isLeft, isRight, List.append_assoc]
  · intro depth rest
    rw [List.append_assoc, passLeft, passRight]

theorem Takes.balanced (takes : cursor.Takes token next) (plain : token.kind.isParen = false) :
    cursor.Balanced next := by
  refine ⟨[token], takes.ahead, takes.ending, ?_⟩
  intro depth rest
  have noLeft : token.kind ≠ .mark .leftParen := by
    intro isLeft
    rw [isLeft] at plain
    cases plain
  have noRight : token.kind ≠ .mark .rightParen := by
    intro isRight
    rw [isRight] at plain
    cases plain
  rw [List.singleton_append, behindParens?, if_neg noLeft, if_neg noRight]

theorem Accepts.balanced (accepts : cursor.Accepts kind next) (plain : kind.isParen = false) :
    cursor.Balanced next := by
  rcases accepts with ⟨token, takes, rfl⟩
  exact takes.balanced plain

/-- The parenthesis that closes here is the partner of the one that opens. -/
theorem behindParens?_of_parens
    {last : Cursor} (opens : cursor.Accepts (.mark .leftParen) middle)
    (inner : middle.Balanced next) (closes : next.Accepts (.mark .rightParen) last) :
    ∃ passed, cursor.ahead = passed ++ last.ahead ∧ last.ending = cursor.ending ∧
      ∀ depth rest, behindParens? depth (passed ++ rest) =
        if depth = 0 then some rest else behindParens? depth rest := by
  rcases opens with ⟨left, takesLeft, isLeft⟩
  rcases inner with ⟨passed, isPassed, samePassed, pass⟩
  rcases closes with ⟨right, takesRight, isRight⟩
  have differs : right.kind ≠ .mark .leftParen := by
    rw [isRight]
    simp
  refine ⟨left :: passed ++ [right], ?_, ?_, ?_⟩
  · rw [takesLeft.ahead, isPassed, takesRight.ahead]
    simp
  · rw [takesRight.ending, samePassed, takesLeft.ending]
  · intro depth rest
    rw [List.cons_append, List.cons_append, List.append_assoc, behindParens?, if_pos isLeft, pass,
      List.singleton_append, behindParens?, if_neg differs, if_pos isRight]
    by_cases isOuter : depth = 0
    · rw [if_pos (by omega), if_pos isOuter]
    · rw [if_neg (by omega), if_neg isOuter]
      rfl

/-- Partners around a balanced run. -/
theorem balanced_of_parens
    {last : Cursor} (opens : cursor.Accepts (.mark .leftParen) middle)
    (inner : middle.Balanced next) (closes : next.Accepts (.mark .rightParen) last) :
    cursor.Balanced last := by
  rcases behindParens?_of_parens opens inner closes with ⟨passed, isPassed, sameEnding, pass⟩
  refine ⟨passed, isPassed, sameEnding, ?_⟩
  intro depth rest
  rw [pass, if_neg (Nat.succ_ne_zero depth)]

theorem balanced_skipNewlines (cursor : Cursor) : cursor.Balanced cursor.skipNewlines :=
  related_skipNewlines Balanced .refl (fun line further => (line.balanced rfl).trans further) cursor

theorem StartsBody.balanced (starts : cursor.StartsBody next) : cursor.Balanced next := by
  rcases starts with ⟨line, isLine, isIndent⟩
  have first := isLine.balanced rfl
  have last := isIndent.balanced rfl
  exact first.trans ((balanced_skipNewlines line).trans last)

/-- Phrases and parts of them are balanced. -/
theorem Passes.balanced (passes : cursor.Passes next) : cursor.Balanced next := by
  induction passes with
  | here cursor => exact .refl cursor
  | append _ _ isFirst isSecond => exact isFirst.trans isSecond
  | token takes alone => exact takes.balanced (Kind.isParen_of_standsAlone alone)
  | colon isColon _ _ inner => exact (isColon.balanced rfl).trans inner
  | bracket opens isOpener _ _ closes isCloser inner =>
      rcases Kind.parens_of_bracket isOpener isCloser with ⟨rfl, rfl⟩ | ⟨plain, alsoPlain⟩
      · exact balanced_of_parens opens inner closes
      · exact (opens.balanced plain).trans (inner.trans (closes.balanced alsoPlain))
  | body starts _ closes inner => exact starts.balanced.trans (inner.trans (closes.balanced rfl))
  | openBody starts _ _ inner => exact starts.balanced.trans inner

end Cursor

namespace Phrase

/-- The tokens of a phrase are balanced, apart from the mark that closes a list. -/
def Form.Spans : Form → Cursor → Cursor → Prop
  | .enclosed closer, cursor, next =>
      ∃ closing, cursor.Balanced closing ∧ closing.Accepts (.mark closer) next
  | .group, cursor, next =>
      ∃ closing, cursor.Balanced closing ∧ closing.Accepts (.mark .rightParen) next
  | _, cursor, next => cursor.Balanced next

theorem Reads.spans
    {form : Form} {cursor next : Cursor} {value : form.Value}
    (reads : Reads form cursor value next) : form.Spans cursor next := by
  have passes := reads.passes
  cases form with
  | enclosed | group =>
      rcases passes with ⟨closing, inner, closes⟩
      exact ⟨closing, inner.balanced, closes⟩
  | hash =>
      rcases passes with ⟨closing, inner, closes⟩
      exact inner.balanced.trans (closes.balanced rfl)
  | _ => exact passes.balanced

end Phrase

end ScriptFront
