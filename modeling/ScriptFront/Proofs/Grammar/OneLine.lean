import ScriptFront.Proofs.Grammar.FollowedReading

/-!
# Phrases in one line

Only an indented body leads a part of a statement over the end of its line.  Where no token is an
indent, what is read of it contains no newline.
-/

namespace ScriptFront

namespace Cursor

/-- Between the two places a newline stands only together with an indent. -/
def StaysInLine (cursor next : Cursor) : Prop :=
  ∃ passed, cursor.ahead = passed ++ next.ahead ∧
    ((∃ token ∈ passed, token.kind = .newline) → ∃ token ∈ passed, token.kind = .indent)

variable {cursor middle next : Cursor} {token : Token} {kind : Kind}

namespace StaysInLine

theorem refl (cursor : Cursor) : cursor.StaysInLine cursor := ⟨[], rfl, by simp⟩

theorem trans (first : cursor.StaysInLine middle) (second : middle.StaysInLine next) :
    cursor.StaysInLine next := by
  rcases first with ⟨left, isLeft, inLineLeft⟩
  rcases second with ⟨right, isRight, inLineRight⟩
  refine ⟨left ++ right, by rw [isLeft, isRight, List.append_assoc], ?_⟩
  rintro ⟨token, member, isNewline⟩
  rcases List.mem_append.1 member with inLeft | inRight
  · rcases inLineLeft ⟨token, inLeft, isNewline⟩ with ⟨indent, isMember, isIndent⟩
    exact ⟨indent, List.mem_append_left _ isMember, isIndent⟩
  · rcases inLineRight ⟨token, inRight, isNewline⟩ with ⟨indent, isMember, isIndent⟩
    exact ⟨indent, List.mem_append_right _ isMember, isIndent⟩

/-- Without indents there are no newlines between the places. -/
theorem inLine
    {passed : List Token} (stays : cursor.StaysInLine next)
    (isPassed : cursor.ahead = passed ++ next.ahead)
    (noIndent : ∀ token ∈ cursor.ahead, token.kind ≠ .indent) :
    ∀ token ∈ passed, token.kind ≠ .newline := by
  rcases stays with ⟨same, isSame, inLine⟩
  obtain rfl := List.append_cancel_right (isPassed.symm.trans isSame)
  intro token member isNewline
  rcases inLine ⟨token, member, isNewline⟩ with ⟨indent, isMember, isIndent⟩
  exact noIndent indent (isPassed ▸ List.mem_append_left _ isMember) isIndent

end StaysInLine

theorem Takes.staysInLine (takes : cursor.Takes token next) (inLine : token.kind ≠ .newline) :
    cursor.StaysInLine next := by
  refine ⟨[token], takes.ahead, ?_⟩
  rintro ⟨other, member, isNewline⟩
  exact absurd (List.mem_singleton.1 member ▸ isNewline) inLine

theorem Accepts.staysInLine (accepts : cursor.Accepts kind next) (inLine : kind ≠ .newline) :
    cursor.StaysInLine next := by
  rcases accepts with ⟨token, takes, rfl⟩
  exact takes.staysInLine inLine

/-- An indented body stands behind its indent. -/
theorem StartsBody.staysInLine
    {passed : List Token} (starts : cursor.StartsBody middle)
    (isPassed : middle.ahead = passed ++ next.ahead) : cursor.StaysInLine next := by
  rcases starts.ahead with ⟨newline, lines, indent, isAhead, -, -, isIndent⟩
  refine ⟨newline :: lines ++ indent :: passed, ?_, fun _ => ⟨indent, by simp, isIndent⟩⟩
  rw [isAhead, isPassed]
  simp

theorem skipDedent_staysInLine (cursor : Cursor) : cursor.StaysInLine cursor.skipDedent := by
  unfold skipDedent
  split
  · exact .refl cursor
  · rename_i dedent found
    exact (accepts_of_accept? found).staysInLine (by simp)

theorem NamesKey.staysInLine {name : String} (names : cursor.NamesKey name next) :
    cursor.StaysInLine next := by
  rcases names with ⟨word, middle, takes, isWord, isColon, -⟩
  refine (takes.staysInLine ?_).trans (isColon.staysInLine (by simp))
  rcases isWord with ⟨text, isText⟩ | ⟨keyword, isKeyword⟩
  · simp [isText]
  · simp [isKeyword]

end Cursor

theorem Kind.ne_newline_of_symbolName?
    {kind : Kind} {name : String} (names : kind.symbolName? = some name) : kind ≠ .newline := by
  rintro rfl
  cases names

namespace Phrase

open Cursor

variable {cursor next : Cursor}

/-- A part of a statement ends in the line in which it starts, unless it has an indented body. -/
theorem Reads.staysInLine
    {form : Form} {value : form.Value} (reads : Reads form cursor value next)
    (part : form.isPart = true) : cursor.StaysInLine next := by
  induction reads with
  | noStatements | moreStatements | statement => cases part
  | single | noBody | lastPair | stop | lastPart | noParameters | plain | withoutBlock
  | noArguments => exact .refl _
  | bareHash _ isRest | expression _ _ _ isRest | lastEntry _ _ isRest | operand _ _ isRest
  | lastParameter _ _ isRest | setter _ _ isRest | larger _ _ _ isRest | command _ _ _ isRest =>
      exact isRest rfl
  | body starts areNodes =>
      rcases areNodes.passed with ⟨passed, isPassed, -⟩
      exact (starts.staysInLine isPassed).trans (skipDedent_staysInLine _)
  | keyed names _ isValue => exact names.staysInLine.trans (isValue rfl)
  | pair _ _ separates _ isKey isValue =>
      exact (isKey rfl).trans ((separates.2.1.staysInLine (by simp)).trans (isValue rfl))
  | moreEntries _ comma _ isFirst areOthers | moreParameters _ comma _ isFirst areOthers =>
      exact (isFirst rfl).trans ((comma.staysInLine (by simp)).trans (areOthers rfl))
  | pairs _ _ isFirst areOthers | binary _ _ isFirst areOthers | definition _ _ isFirst areOthers
  | call _ _ _ isFirst areOthers => exact (isFirst rfl).trans (areOthers rfl)
  | emptyEnclosed closes | emptyHash closes => exact closes.staysInLine (by simp)
  | enclosed _ _ closes inner | hash _ _ closes inner | group _ closes inner =>
      exact (inner rfl).trans (closes.staysInLine (by simp))
  | climb continues _ _ _ _ isRight further =>
      exact (continues.2.1.staysInLine (by simp)).trans ((isRight rfl).trans (further rfl))
  | unary here _ _ isRest | morePairs here _ isRest | string here _ isRest | name here _ isRest
  | classWord here _ isRest | moduleWord here _ isRest | colon here _ isRest | array here _ isRest
  | brace here _ isRest | paren here _ isRest | block here _ isRest | symbolString _ here _ isRest
  | moduleDefinition here _ isRest | classDefinition here _ _ isRest | parameter here _ isRest
  | keyword _ here _ isRest | method here _ isRest | withBlock here _ isRest
  | parenthesized here _ _ isRest | optional _ here _ isRest =>
      exact (here.staysInLine (by simp)).trans (isRest rfl)
  | integer here | float here | constant here => exact here.staysInLine (by simp)
  | adjacent here isText _ _ areParts =>
      exact (here.staysInLine (by simp [isText])).trans (areParts rfl)
  | insertion opens _ closes _ isInner areOthers =>
      refine (opens.staysInLine (by simp)).trans ((isInner rfl).trans ?_)
      exact (closes.staysInLine (by simp)).trans (areOthers rfl)
  | symbolName _ here names => exact here.staysInLine (Kind.ne_newline_of_symbolName? names)
  | derivedClass names derives namesBase _ isBody =>
      refine (names.staysInLine (by simp)).trans ((derives.staysInLine (by simp)).trans ?_)
      exact (namesBase.staysInLine (by simp)).trans (isBody rfl)
  | emptyParameters opens closes =>
      exact (opens.staysInLine (by simp)).trans (closes.staysInLine (by simp))
  | parameters opens _ _ closes areParameters =>
      exact (opens.staysInLine (by simp)).trans
        ((areParameters rfl).trans (closes.staysInLine (by simp)))
  | splat star names => exact (star.staysInLine (by simp)).trans (names.staysInLine (by simp))

end Phrase

end ScriptFront
