import ScriptFront.Proofs.Grammar.Following

/-!
# Phrases with something else behind them

A part of a statement that is read in a line is read in the same way if another closing bracket, the
end of the input or a block follows it.  Only a block could be taken for a part of it, and that is
left to the outermost call by everything that stands in an argument list.
-/

namespace ScriptFront

namespace Phrase

open Cursor

variable {back other cursor again next : Cursor}

theorem Reads.size_le
    {form : Form} {value : form.Value} (reads : Reads form cursor value next) :
    next.size ≤ cursor.size := by
  rcases reads.passed with ⟨passed, isPassed, -⟩
  rw [size, size, isPassed, List.length_append]
  exact Nat.le_add_left _ _

/-- An operand that starts with a parenthesis is a group. -/
theorem Reads.unary_parens
    {inCommand : Bool} {node : Node} (reads : Reads (.unary inCommand) cursor node next)
    (isOpener : cursor.peek.kind = .mark .leftParen) :
    ∃ behind, cursor.Accepts (.mark .leftParen) behind ∧ Reads .group behind node next := by
  cases reads with
  | unary sign => cases isOpener.symm.trans sign.peek_kind
  | operand _ isPrimary =>
      cases isPrimary with
      | paren opens isGroup => exact ⟨_, opens, isGroup⟩
      | integer here | float here | constant here | string here | name here | classWord here
      | moduleWord here | colon here | array here | brace here | block here =>
          cases isOpener.symm.trans here.peek_kind

/-- A list that starts with parentheses goes on behind them. -/
theorem Reads.entries_parens
    {inCommand : Bool} {list : List Entry} (reads : Reads (.entries inCommand) cursor list next)
    (isOpener : cursor.peek.kind = .mark .leftParen) :
    ∃ rest, behindParens? 0 cursor.ahead = some rest ∧ next.size ≤ rest.length := by
  have ofBinary {level : Nat} {node : Node} {last : Cursor}
      (reads : Reads (.binary inCommand level) cursor node last) :
      ∃ rest, behindParens? 0 cursor.ahead = some rest ∧ last.size ≤ rest.length := by
    cases reads with
    | binary isLeft further =>
        rcases isLeft.unary_parens isOpener with ⟨behind, opens, isGroup⟩
        rcases isGroup.spans with ⟨closing, inner, closes⟩
        rcases behindParens?_of_parens opens inner closes with ⟨passed, isPassed, -, pass⟩
        refine ⟨_, ?_, further.size_le⟩
        rw [isPassed]
        exact pass 0 _
  have ofEntry {first : Entry} {last : Cursor}
      (reads : Reads (.entry inCommand) cursor first last) :
      ∃ rest, behindParens? 0 cursor.ahead = some rest ∧ last.size ≤ rest.length := by
    cases reads with
    | keyed names =>
        rcases names with ⟨word, middle, takes, isWord, -⟩
        rw [takes.peek] at isOpener
        rw [isOpener] at isWord
        simp at isWord
    | expression _ isNode => exact ofBinary isNode
    | pair _ isKey separates isValue =>
        rcases ofBinary isKey with ⟨rest, found, enough⟩
        refine ⟨rest, found, Nat.le_trans (Nat.le_of_lt ?_) enough⟩
        exact Nat.lt_of_le_of_lt isValue.size_le separates.2.1.size_lt
  cases reads with
  | lastEntry isFirst => exact ofEntry isFirst
  | moreEntries isFirst comma areOthers =>
      rcases ofEntry isFirst with ⟨rest, found, enough⟩
      refine ⟨rest, found, Nat.le_trans (Nat.le_of_lt ?_) enough⟩
      exact Nat.lt_of_le_of_lt areOthers.size_le comma.size_lt

/-- The phrase is a part of a statement. -/
def Form.isPart : Form → Bool
  | .statements _ | .statement => false
  | _ => true

/-- A block behind the phrase does not belong to it. -/
def Form.leavesBlock : Form → Bool
  | .statements _ | .statement | .bareHash _ | .pairs | .morePairs _ | .parameterList | .parameter
  | .parameterValue _ => false
  | .entry inCommand | .entries inCommand | .binary inCommand _ | .climb inCommand _ _
  | .unary inCommand | .primary inCommand | .named inCommand _ | .trailingBlock inCommand _ _ =>
    inCommand
  | _ => true

/-- A block that may follow does not belong to the phrase that ends here. -/
def Leaves (back other : Cursor) (form : Form) (next : Cursor) : Prop :=
  other.peek.kind = .mark .blockArrow → form.leavesBlock = true ∨ back.size < next.size

theorem leaves_of_lt {form : Form} (filled : back.size < next.size) :
    Leaves back other form next :=
  fun _ => Or.inr filled

theorem leaves_of_true {form : Form} (leaves : form.leavesBlock = true) :
    Leaves back other form next :=
  fun _ => Or.inl leaves

/-- The phrase is followed by another part of the one that it belongs to. -/
theorem Leaves.of_le
    {form part : Form} {last : Cursor} (leaves : Leaves back other form last)
    (same : part.leavesBlock = form.leavesBlock) (le : last.size ≤ next.size) :
    Leaves back other part next := by
  intro isArrow
  rw [same]
  exact (leaves isArrow).imp_right fun filled => Nat.lt_of_lt_of_le filled le

/-- A token, and a phrase behind it. -/
theorem exchanged_behind
    {kind : Kind} {form whole : Form} {value : form.Value} {result : whole.Value}
    {behind start : Cursor} (exchanged : Exchanged back other cursor again)
    (here : cursor.Accepts kind behind) (reads : Reads form behind value next)
    (enough : back.size ≤ next.size)
    (isPart : ∀ {place}, Exchanged back other behind place →
      ∃ last, Reads form place value last ∧ Exchanged back other next last)
    (isWhole : ∀ {place last}, again.Accepts kind place → Reads form place value last →
      Reads whole start result last) :
    ∃ last, Reads whole start result last ∧ Exchanged back other next last := by
  rcases exchanged.accepts here (Nat.le_trans enough reads.size_le) with
    ⟨place, hereAgain, further⟩
  rcases isPart further with ⟨last, readsAgain, atEnd⟩
  exact ⟨last, isWhole hereAgain readsAgain, atEnd⟩

/-- What follows a part of a statement in its line may be exchanged, unless a block follows that the
part would take. -/
theorem Reads.exchanged
    {form : Form} {value : form.Value} (reads : Reads form cursor value next)
    (exchanged : Exchanged back other cursor again) (enough : back.size ≤ next.size)
    (part : form.isPart = true) (leaves : Leaves back other form next) :
    ∃ last, Reads form again value last ∧ Exchanged back other next last := by
  induction reads generalizing again with
  | noStatements | moreStatements | statement => cases part
  | single => exact ⟨again, .single, exchanged⟩
  | bareHash _ arePairs =>
      rcases arePairs exchanged enough rfl leaves with ⟨last, readsPairs, behind⟩
      exact ⟨last, .bareHash readsPairs, behind⟩
  | noBody => exact ⟨again, .noBody exchanged.bodyStart?, exchanged⟩
  | body starts => exact absurd starts exchanged.not_startsBody
  -- Lists
  | keyed names readsValue isValue =>
      rcases exchanged.namesKey names (Nat.le_trans enough readsValue.size_le) with
        ⟨place, namesAgain, further⟩
      rcases isValue further enough rfl leaves with ⟨last, readsAgain, behind⟩
      exact ⟨last, .keyed namesAgain readsAgain, behind⟩
  | expression unnamed _ alone isNode =>
      rcases isNode exchanged enough rfl leaves with ⟨last, readsAgain, behind⟩
      exact ⟨last, .expression (exchanged.symbolKey? unnamed) readsAgain (behind.separator? alone),
        behind⟩
  | pair unnamed _ separates readsValue isKey isValue =>
      have enoughValue := Nat.le_trans enough readsValue.size_le
      have filled := Nat.lt_of_le_of_lt enoughValue separates.2.1.size_lt
      rcases isKey exchanged (Nat.le_of_lt filled) rfl (leaves_of_lt filled) with
        ⟨middle, readsKey, atColon⟩
      rcases atColon.separates separates enoughValue with ⟨place, separatesAgain, further⟩
      rcases isValue further enough rfl leaves with ⟨last, readsAgain, behind⟩
      exact ⟨last, .pair (exchanged.symbolKey? unnamed) readsKey separatesAgain readsAgain, behind⟩
  | lastEntry _ ends isFirst =>
      rcases isFirst exchanged enough rfl leaves with ⟨last, readsAgain, behind⟩
      exact ⟨last, .lastEntry readsAgain (behind.peek_kind_ne ends rfl), behind⟩
  | moreEntries _ comma readsOthers isFirst areOthers =>
      have enoughOthers := Nat.le_trans enough readsOthers.size_le
      have filled := Nat.lt_of_le_of_lt enoughOthers comma.size_lt
      rcases isFirst exchanged (Nat.le_of_lt filled) rfl (leaves_of_lt filled) with
        ⟨middle, readsFirst, atComma⟩
      exact exchanged_behind atComma comma readsOthers enough (areOthers · enough rfl leaves)
        (.moreEntries readsFirst)
  | pairs _ readsPairs isFirst arePairs =>
      have enoughPairs := Nat.le_trans enough readsPairs.size_le
      rcases isFirst exchanged enoughPairs rfl (leaves.of_le rfl readsPairs.size_le) with
        ⟨middle, readsFirst, further⟩
      rcases arePairs further enough rfl leaves with ⟨last, readsAgain, behind⟩
      exact ⟨last, .pairs readsFirst readsAgain, behind⟩
  | lastPair ends => exact ⟨again, .lastPair (exchanged.peek_kind_ne ends rfl), exchanged⟩
  | morePairs comma readsOthers areOthers =>
      exact exchanged_behind exchanged comma readsOthers enough (areOthers · enough rfl leaves)
        .morePairs
  | emptyEnclosed closes =>
      rcases exchanged.accepts closes enough with ⟨last, closesAgain, behind⟩
      exact ⟨last, .emptyEnclosed closesAgain, behind⟩
  | enclosed filled readsEntries closes areEntries =>
      have inside := Nat.lt_of_le_of_lt enough closes.size_lt
      rcases areEntries exchanged (Nat.le_of_lt inside) rfl (leaves_of_lt inside) with
        ⟨middle, readsAgain, atCloser⟩
      rcases atCloser.accepts closes enough with ⟨last, closesAgain, behind⟩
      have samePeek := exchanged.peek_eq (Nat.lt_of_lt_of_le inside readsEntries.size_le)
      exact ⟨last, .enclosed (samePeek ▸ filled) readsAgain closesAgain, behind⟩
  | emptyHash closes =>
      rcases exchanged.accepts closes enough with ⟨last, closesAgain, behind⟩
      exact ⟨last, .emptyHash closesAgain, behind⟩
  | hash filled readsPairs closes arePairs =>
      have inside := Nat.lt_of_le_of_lt enough closes.size_lt
      rcases arePairs exchanged (Nat.le_of_lt inside) rfl (leaves_of_lt inside) with
        ⟨middle, readsAgain, atCloser⟩
      rcases atCloser.accepts closes enough with ⟨last, closesAgain, behind⟩
      have samePeek := exchanged.peek_eq (Nat.lt_of_lt_of_le inside readsPairs.size_le)
      exact ⟨last, .hash (samePeek ▸ filled) readsAgain closesAgain, behind⟩
  -- Operators
  | binary _ readsFurther isLeft isFurther =>
      have enoughLeft := Nat.le_trans enough readsFurther.size_le
      rcases isLeft exchanged enoughLeft rfl (leaves.of_le rfl readsFurther.size_le) with
        ⟨middle, readsLeft, further⟩
      rcases isFurther further enough rfl leaves with ⟨last, readsAgain, behind⟩
      exact ⟨last, .binary readsLeft readsAgain, behind⟩
  | stop looser =>
      refine ⟨again, .stop ?_, exchanged⟩
      intro operator binding last continues
      rcases exchanged.continues_back continues with ⟨next, continuesHere⟩
      exact looser operator binding next continuesHere
  | climb continues tight readsRight single readsFurther isRight isFurther =>
      have enoughRight := Nat.le_trans enough readsFurther.size_le
      rcases exchanged.continues continues (Nat.le_trans enoughRight readsRight.size_le) with
        ⟨place, continuesAgain, atRight⟩
      rcases isRight atRight enoughRight rfl (leaves.of_le rfl readsFurther.size_le) with
        ⟨middle, readsRightAgain, further⟩
      rcases isFurther further enough rfl leaves with ⟨last, readsAgain, behind⟩
      exact ⟨last, .climb continuesAgain tight readsRightAgain (further.chained? single) readsAgain,
        behind⟩
  | operand unsigned readsNode isNode =>
      rcases isNode exchanged enough rfl leaves with ⟨last, readsAgain, behind⟩
      have filled := Nat.lt_of_le_of_lt enough readsNode.primary_size_lt
      exact ⟨last, .operand (exchanged.unary? filled unsigned) readsAgain, behind⟩
  | unary sign isUnary readsOperand isOperand =>
      exact exchanged_behind exchanged sign readsOperand enough (isOperand · enough rfl leaves)
        (fun signAgain => .unary signAgain isUnary)
  -- Expressions that are not made by operators
  | integer here =>
      rcases exchanged.accepts here enough with ⟨last, hereAgain, behind⟩
      exact ⟨last, .integer hereAgain, behind⟩
  | float here =>
      rcases exchanged.accepts here enough with ⟨last, hereAgain, behind⟩
      exact ⟨last, .float hereAgain, behind⟩
  | constant here =>
      rcases exchanged.accepts here enough with ⟨last, hereAgain, behind⟩
      exact ⟨last, .constant hereAgain, behind⟩
  | string here readsParts areParts =>
      exact exchanged_behind exchanged here readsParts enough
        (areParts · enough rfl (leaves_of_true rfl)) .string
  | name here readsNode isNode =>
      exact exchanged_behind exchanged here readsNode enough (isNode · enough rfl leaves) .name
  | classWord here readsNode isNode =>
      exact exchanged_behind exchanged here readsNode enough
        (isNode · enough rfl (leaves_of_true rfl)) .classWord
  | moduleWord here readsNode isNode =>
      exact exchanged_behind exchanged here readsNode enough
        (isNode · enough rfl (leaves_of_true rfl)) .moduleWord
  | colon here readsNode isNode =>
      exact exchanged_behind exchanged here readsNode enough
        (isNode · enough rfl (leaves_of_true rfl)) .colon
  | array here readsElements areElements =>
      exact exchanged_behind exchanged here readsElements enough
        (areElements · enough rfl (leaves_of_true rfl)) .array
  | brace here readsNode isNode =>
      exact exchanged_behind exchanged here readsNode enough
        (isNode · enough rfl (leaves_of_true rfl)) .brace
  | paren here readsNode isNode =>
      exact exchanged_behind exchanged here readsNode enough
        (isNode · enough rfl (leaves_of_true rfl)) .paren
  | block here readsBlock isBlock =>
      exact exchanged_behind exchanged here readsBlock enough
        (isBlock · enough rfl (leaves_of_true rfl)) .block
  | lastPart ends => exact ⟨again, .lastPart (exchanged.endsString ends), exchanged⟩
  | adjacent here isText hugs readsParts areParts =>
      rcases exchanged.takes here (Nat.le_trans enough readsParts.size_le) with
        ⟨place, hereAgain, further⟩
      rcases areParts further enough rfl (leaves_of_true rfl) with ⟨last, readsAgain, behind⟩
      exact ⟨last, .adjacent hereAgain isText hugs readsAgain, behind⟩
  | insertion opens readsInner closes readsOthers isInner areOthers =>
      have enoughOthers := Nat.le_trans enough readsOthers.size_le
      have inside := Nat.lt_of_le_of_lt enoughOthers closes.size_lt
      have enoughInner := Nat.le_trans (Nat.le_of_lt inside) readsInner.size_le
      rcases exchanged.accepts opens enoughInner with ⟨place, opensAgain, atInner⟩
      rcases isInner atInner (Nat.le_of_lt inside) rfl (leaves_of_lt inside) with
        ⟨closing, readsInnerAgain, atCloser⟩
      rcases atCloser.accepts closes enoughOthers with ⟨start, closesAgain, further⟩
      rcases areOthers further enough rfl (leaves_of_true rfl) with ⟨last, readsAgain, behind⟩
      exact ⟨last, .insertion opensAgain readsInnerAgain closesAgain readsAgain, behind⟩
  | symbolString hugs here readsParts areParts =>
      have enoughParts := Nat.le_trans enough readsParts.size_le
      have samePeek := exchanged.peek_eq (Nat.lt_of_le_of_lt enoughParts here.size_lt)
      rcases exchanged.accepts here enoughParts with ⟨place, hereAgain, further⟩
      rcases areParts further enough rfl (leaves_of_true rfl) with ⟨last, readsAgain, behind⟩
      exact ⟨last, .symbolString (samePeek ▸ hugs) hereAgain readsAgain, behind⟩
  | symbolName hugs here names =>
      have samePeek := exchanged.peek_eq (Nat.lt_of_le_of_lt enough here.size_lt)
      rcases exchanged.takes here enough with ⟨last, hereAgain, behind⟩
      exact ⟨last, .symbolName (samePeek ▸ hugs) hereAgain names, behind⟩
  | group _ closes isInner =>
      have inside := Nat.lt_of_le_of_lt enough closes.size_lt
      rcases isInner exchanged (Nat.le_of_lt inside) rfl (leaves_of_lt inside) with
        ⟨middle, readsAgain, atCloser⟩
      rcases atCloser.accepts closes enough with ⟨last, closesAgain, behind⟩
      exact ⟨last, .group readsAgain closesAgain, behind⟩
  -- Definitions
  | classDefinition names underived readsBody isBody =>
      rcases exchanged.accepts names (Nat.le_trans enough readsBody.size_le) with
        ⟨place, namesAgain, further⟩
      rcases isBody further enough rfl (leaves_of_true rfl) with ⟨last, readsAgain, behind⟩
      exact ⟨last, .classDefinition namesAgain (further.peek_kind_ne underived rfl) readsAgain,
        behind⟩
  | derivedClass names derives namesBase readsBody isBody =>
      have enoughBody := Nat.le_trans enough readsBody.size_le
      have enoughBase := Nat.le_trans enoughBody (Nat.le_of_lt namesBase.size_lt)
      have enoughSign := Nat.le_trans enoughBase (Nat.le_of_lt derives.size_lt)
      rcases exchanged.accepts names enoughSign with ⟨first, namesAgain, atSign⟩
      rcases atSign.accepts derives enoughBase with ⟨second, derivesAgain, atBase⟩
      rcases atBase.accepts namesBase enoughBody with ⟨third, baseAgain, further⟩
      rcases isBody further enough rfl (leaves_of_true rfl) with ⟨last, readsAgain, behind⟩
      exact ⟨last, .derivedClass namesAgain derivesAgain baseAgain readsAgain, behind⟩
  | moduleDefinition names readsBody isBody =>
      exact exchanged_behind exchanged names readsBody enough
        (isBody · enough rfl (leaves_of_true rfl)) .moduleDefinition
  | definition _ readsBody areParameters isBody =>
      have enoughBody := Nat.le_trans enough readsBody.size_le
      rcases areParameters exchanged enoughBody rfl (leaves_of_true rfl) with
        ⟨middle, readsParameters, further⟩
      rcases isBody further enough rfl (leaves_of_true rfl) with ⟨last, readsAgain, behind⟩
      exact ⟨last, .definition readsParameters readsAgain, behind⟩
  | noParameters absent =>
      exact ⟨again, .noParameters (exchanged.peek_kind_ne absent rfl), exchanged⟩
  | emptyParameters opens closes =>
      have inside := Nat.lt_of_le_of_lt enough closes.size_lt
      rcases exchanged.accepts opens (Nat.le_of_lt inside) with ⟨middle, opensAgain, atCloser⟩
      rcases atCloser.accepts closes enough with ⟨last, closesAgain, behind⟩
      exact ⟨last, .emptyParameters opensAgain closesAgain, behind⟩
  | parameters opens filled readsList closes areParameters =>
      have inside := Nat.lt_of_le_of_lt enough closes.size_lt
      have insideList := Nat.lt_of_lt_of_le inside readsList.size_le
      rcases exchanged.accepts opens (Nat.le_of_lt insideList) with ⟨place, opensAgain, further⟩
      rcases areParameters further (Nat.le_of_lt inside) rfl (leaves_of_lt inside) with
        ⟨middle, readsAgain, atCloser⟩
      rcases atCloser.accepts closes enough with ⟨last, closesAgain, behind⟩
      have samePeek := further.peek_eq insideList
      exact ⟨last, .parameters opensAgain (samePeek ▸ filled) readsAgain closesAgain, behind⟩
  | lastParameter _ ends isFirst =>
      rcases isFirst exchanged enough rfl leaves with ⟨last, readsAgain, behind⟩
      exact ⟨last, .lastParameter readsAgain (behind.peek_kind_ne ends rfl), behind⟩
  | moreParameters _ comma readsOthers isFirst areOthers =>
      have enoughOthers := Nat.le_trans enough readsOthers.size_le
      have filled := Nat.lt_of_le_of_lt enoughOthers comma.size_lt
      rcases isFirst exchanged (Nat.le_of_lt filled) rfl (leaves_of_lt filled) with
        ⟨middle, readsFirst, atComma⟩
      exact exchanged_behind atComma comma readsOthers enough (areOthers · enough rfl leaves)
        (.moreParameters readsFirst)
  | splat star names =>
      rcases exchanged.accepts star (Nat.le_trans enough (Nat.le_of_lt names.size_lt)) with
        ⟨place, starAgain, further⟩
      rcases further.accepts names enough with ⟨last, namesAgain, behind⟩
      exact ⟨last, .splat starAgain namesAgain, behind⟩
  | parameter names readsParameter isParameter =>
      exact exchanged_behind exchanged names readsParameter enough (isParameter · enough rfl leaves)
        .parameter
  | setter isSetter _ isValue =>
      rcases isValue exchanged enough rfl leaves with ⟨last, readsAgain, behind⟩
      exact ⟨last, .setter isSetter readsAgain, behind⟩
  | optional isBare assigns readsValue isValue =>
      exact exchanged_behind exchanged assigns readsValue enough (isValue · enough rfl leaves)
        (.optional isBare)
  | keyword isBare colon readsValue isValue =>
      exact exchanged_behind exchanged colon readsValue enough (isValue · enough rfl leaves)
        (.keyword isBare)
  | plain isBare unassigned unnamed =>
      have unassignedAgain := exchanged.peek_kind_ne unassigned rfl
      have unnamedAgain := exchanged.peek_kind_ne unnamed rfl
      exact ⟨again, .plain isBare unassignedAgain unnamedAgain, exchanged⟩
  -- Names
  | method arrow readsBlock isBlock =>
      exact exchanged_behind exchanged arrow readsBlock enough
        (isBlock · enough rfl (leaves_of_true rfl)) .method
  | call noMethod _ readsNode areArguments isNode =>
      have enoughArguments := Nat.le_trans enough readsNode.size_le
      rcases areArguments exchanged enoughArguments rfl (leaves_of_true rfl) with
        ⟨middle, readsArguments, further⟩
      rcases isNode further enough rfl leaves with ⟨last, readsAgain, behind⟩
      exact ⟨last, .call (exchanged.peek_kind_ne noMethod rfl) readsArguments readsAgain, behind⟩
  | withBlock arrow readsBlock isBlock =>
      exact exchanged_behind exchanged arrow readsBlock enough
        (isBlock · enough rfl (leaves_of_true rfl)) .withBlock
  | withoutBlock stays =>
      refine ⟨again, .withoutBlock ?_, exchanged⟩
      rcases exchanged.stops_or_takes with
        ⟨sameSize, -, samePeek⟩ | ⟨-, token, next, last, takes, takesAgain, -⟩
      · by_cases isArrow : other.peek.kind = .mark .blockArrow
        · rcases leaves isArrow with isCommand | filled
          · exact Or.inl isCommand
          · exact absurd sameSize (Nat.ne_of_gt filled)
        · exact Or.inr (samePeek ▸ isArrow)
      · rw [takesAgain.peek, ← takes.peek]
        exact stays
  | parenthesized opens whole readsArguments areArguments =>
      -- The search for the closing parenthesis ends in the phrase, as the arguments are balanced.
      rcases readsArguments.spans with ⟨closing, inner, closes⟩
      rcases behindParens?_of_parens opens inner closes with ⟨passed, isPassed, -, pass⟩
      have found : behindParens? 0 _ = some _ :=
        (congrArg (behindParens? 0) isPassed).trans (pass 0 _)
      have inside := Nat.le_trans enough readsArguments.size_le
      have samePeek := exchanged.peek_eq (Nat.lt_of_le_of_lt inside opens.size_lt)
      rcases exchanged.accepts opens inside with ⟨place, opensAgain, further⟩
      rcases areArguments further enough rfl (leaves_of_true rfl) with ⟨last, readsAgain, behind⟩
      refine ⟨last, .parenthesized opensAgain ?_ readsAgain, behind⟩
      rw [samePeek, exchanged.continuesBehindParens found enough]
      exact whole
  | larger opens isLarger readsArguments areArguments =>
      rcases readsArguments.entries_parens opens with ⟨rest, found, within⟩
      have filled := Nat.lt_of_le_of_lt enough readsArguments.entries_size_lt
      have samePeek := exchanged.peek_eq filled
      rcases areArguments exchanged enough rfl (leaves_of_true rfl) with ⟨last, readsAgain, behind⟩
      refine ⟨last, .larger (samePeek ▸ opens) ?_ readsAgain, behind⟩
      rw [samePeek, exchanged.continuesBehindParens found (Nat.le_trans enough within)]
      exact isLarger
  | command unopened starts _ areArguments =>
      rcases areArguments exchanged enough rfl (leaves_of_true rfl) with ⟨last, readsAgain, behind⟩
      have startsAgain := exchanged.atArgument.trans starts
      exact ⟨last, .command (exchanged.peek_kind_ne unopened rfl) startsAgain readsAgain, behind⟩
  | noArguments unopened absent =>
      have absentAgain := exchanged.atArgument.trans absent
      exact ⟨again, .noArguments (exchanged.peek_kind_ne unopened rfl) absentAgain, exchanged⟩

/-- What a phrase passes over in a line ends firmly. -/
theorem firm_of_passes
    {front : List Token} (passes : cursor.Passes next) (endsFirm : cursor.EndsFirm next)
    (isAhead : cursor.ahead = front ++ next.ahead)
    (inLine : ∀ token ∈ front, token.kind.isLayout = false) : Token.Firm front := by
  rcases passes.last_ne_colon with ⟨passed, isPassed, noColon⟩
  rcases endsFirm with ⟨alsoPassed, isAlsoPassed, noOperator, -⟩
  obtain rfl := List.append_cancel_right (isAhead.symm.trans isPassed)
  obtain rfl := List.append_cancel_right (isAhead.symm.trans isAlsoPassed)
  exact ⟨inLine, noColon, noOperator⟩

/-- A part of a statement up to where it stops, with something else behind it. -/
theorem Reads.followed_alike
    {form : Form} {value : form.Value} {front : List Token} (back other : Cursor)
    (reads : Reads form (back.led front) value next) (firm : Token.Firm front)
    (stops : back.peek.kind.StopAlike other.peek.kind) (isEnd : next.ahead = back.ahead)
    (part : form.isPart = true) (leaves : Leaves back other form next) :
    Reads form (other.led front) value (other.led []) := by
  have exchanged : Exchanged back other (back.led front) (other.led front) :=
    ⟨stops, front, firm, rfl, rfl⟩
  have enough : back.size ≤ next.size := Nat.le_of_eq (congrArg List.length isEnd).symm
  rcases reads.exchanged exchanged enough part leaves with
    ⟨last, readsOther, -, rest, -, isNext, rfl⟩
  have isRest : rest ++ back.ahead = [] ++ back.ahead := by
    rw [isNext] at isEnd
    exact isEnd
  rw [List.append_cancel_right isRest] at readsOther
  exact readsOther

/-- A part of a statement up to where its line stops, with something else behind it. -/
theorem Reads.followed
    {form : Form} {value : form.Value} {front : List Token} (back other : Cursor)
    (reads : Reads form (back.led front) value next) (firm : Token.Firm front)
    (stops : back.peek.kind.stopsLine = true) (stopsOther : other.peek.kind.stopsLine = true)
    (isEnd : next.ahead = back.ahead) (part : form.isPart = true)
    (leaves : Leaves back other form next) : Reads form (other.led front) value (other.led []) :=
  reads.followed_alike back other firm (Or.inl ⟨stops, stopsOther⟩) isEnd part leaves

end Phrase

end ScriptFront
