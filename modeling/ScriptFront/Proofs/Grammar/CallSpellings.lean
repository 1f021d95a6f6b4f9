import ScriptFront.Proofs.Grammar.ArgumentLists
import ScriptFront.Proofs.Grammar.Climbing

/-!
# The spellings of a call

The arguments of a call stand in parentheses, with or without a blank in front of them, or they
follow the name directly.  Without blocks among them they are the same arguments in all three.
-/

namespace ScriptFront

/-! ## Programs of one line -/

theorem Cursor.Passes.inLine
    {cursor next : Cursor} (passes : cursor.Passes next)
    (noDedent : ∀ token ∈ cursor.ahead, token.kind ≠ .dedent) (inLine : cursor.afterBody = false) :
    next.afterBody = false := by
  induction passes with
  | here => exact inLine
  | append first _ isFirst isSecond =>
      exact isSecond (first.forall_behind noDedent) (isFirst noDedent inLine)
  | token takes => exact takes.inLine (noDedent _ (takes.ahead ▸ List.mem_cons_self))
  | colon isColon _ _ isBehind =>
      exact isBehind (isColon.forall_behind noDedent) (isColon.inLine (by simp))
  | bracket opens _ _ inner closes =>
      have noDedentBehind := inner.forall_behind (opens.forall_behind noDedent)
      rcases closes with ⟨closer, takes, -⟩
      exact takes.inLine (noDedentBehind closer (takes.ahead ▸ List.mem_cons_self))
  | body starts inner closes =>
      have noDedentBehind := inner.forall_behind (starts.forall_behind noDedent)
      rcases closes.ahead with ⟨dedent, isAhead, isDedent⟩
      exact absurd isDedent (noDedentBehind dedent (isAhead ▸ List.mem_cons_self))
  | openBody starts _ _ isInner =>
      have noDedentInside := starts.forall_behind noDedent
      rcases starts with ⟨line, -, isIndent⟩
      exact isInner noDedentInside (isIndent.inLine (by simp))

namespace Phrase

open Cursor

/-- A program in one line is one statement. -/
theorem Reads.lone_line
    {cursor last : Cursor} {nodes : List Node}
    (reads : Reads (.statements false) cursor nodes last) (filled : cursor.ahead ≠ [])
    (isLine : ∀ token ∈ cursor.ahead, token.kind.isLayout = false)
    (inLine : cursor.afterBody = false) :
    ∃ first middle node next, nodes = [node] ∧ Reads (.entry false) cursor first middle ∧
      Reads (.bareHash first) middle node next ∧ next.ahead = [] := by
  have differs {kind : Kind} (isLayout : kind.isLayout = true) :
      ∀ token ∈ cursor.ahead, token.kind ≠ kind := by
    intro token member
    exact (Kind.ne_of_isLayout isLayout (isLine token member)).symm
  have skips : cursor.skipNewlines = cursor := skipNewlines_of_inLine (differs rfl)
  cases reads with
  | noStatements ends =>
      rw [skips, Cursor.endsStatements, atEnd_of_filled filled] at ends
      cases ends
  | @moreStatements _ _ behind _ _ _ _ isFirst areOthers =>
      rw [skips] at isFirst
      cases isFirst with
      | @statement _ middle next _ first _ isEntry whole ends =>
          have passes : cursor.Passes next := isEntry.passes.append whole.passes
          have atNewline : next.peek.kind ≠ .newline :=
            peek_kind_ne_of_forall (passes.forall_behind (differs rfl)) (by simp)
          have atDedent : next.peek.kind ≠ .dedent :=
            peek_kind_ne_of_forall (passes.forall_behind (differs rfl)) (by simp)
          rcases ends with accepts | ⟨-, ends, isNext⟩
          · exact absurd accepts.peek_kind atNewline
          · rw [isNext] at areOthers
            have isEnd : next.ahead = [] := by
              simpa [isAt, atDedent, atEnd, passes.inLine (differs rfl) inLine] using ends
            have skipsHere : next.skipNewlines = next :=
              skipNewlines_of_none (accept?_eq_none atNewline)
            cases areOthers with
            | noStatements => exact ⟨first, middle, _, next, rfl, isEntry, whole, isEnd⟩
            | moreStatements more =>
                rw [skipsHere, Cursor.endsStatements, atEnd, isEnd] at more
                cases more

/-! ## Calls -/

section Calls

variable {name : String} {word : Token} {rest : List Token} {ending : Ending}

theorem Reads.entries_below
    {inCommand : Bool} {cursor next : Cursor} {list : List Entry}
    (reads : Reads (.entries inCommand) cursor list next) : next.Below Binding.loosest := by
  have ofEntry {first : Entry} {last : Cursor}
      (reads : Reads (.entry inCommand) cursor first last) : last.Below Binding.loosest := by
    cases reads with
    | keyed _ isValue => exact (isValue.placed trivial).2
    | expression _ isNode => exact (isNode.placed trivial).2
    | pair _ _ _ isValue => exact (isValue.placed trivial).2
  cases reads with
  | lastEntry isFirst => exact ofEntry isFirst
  | moreEntries _ _ areOthers => exact areOthers.entries_below
termination_by list

/-- A name with arguments behind which nothing goes on is a call, or a call is the key of a pair. -/
theorem Reads.entry_call
    {first : Entry} {middle : Cursor}
    (reads : Reads (.entry false) ⟨word :: rest, ending, false⟩ first middle)
    (isWord : word.kind = .identifier name)
    (unnamed : (Cursor.mk (word :: rest) ending false).symbolKey? = none)
    (noMethod : (Cursor.mk rest ending false).peek.kind ≠ .mark .arrow)
    (stops : ∀ list next, Reads .arguments ⟨rest, ending, false⟩ list next →
      next.Below Binding.loosest ∧ next.peek.kind ≠ .mark .blockArrow) :
    ∃ list next, Reads .arguments ⟨rest, ending, false⟩ list next ∧
      ((first = .single (.call name list none) ∧ middle = next) ∨
        next.ahead ≠ [] ∧ ∃ value, first = .pair ⟨.call name list none, value⟩) := by
  have isHere : (Cursor.mk (word :: rest) ending false).peek.kind = .identifier name := isWord
  have ofBinary {node : Node} {last : Cursor}
      (reads : Reads (.binary false Binding.loosest) ⟨word :: rest, ending, false⟩ node last) :
      ∃ list, Reads .arguments ⟨rest, ending, false⟩ list last ∧ node = .call name list none := by
    cases reads with
    | binary isLeft further =>
        cases isLeft with
        | unary sign => cases isHere.symm.trans sign.peek_kind
        | operand _ isPrimary =>
            cases isPrimary with
            | name here isNamed =>
                obtain rfl := Kind.identifier.inj (isHere.symm.trans here.peek_kind)
                obtain rfl := here.unique (accepts_cons isWord (by simp))
                cases isNamed with
                | method arrow => exact absurd arrow.peek_kind noMethod
                | call _ areArguments isNode =>
                    rcases stops _ _ areArguments with ⟨below, noBlock⟩
                    cases isNode with
                    | withBlock arrow => exact absurd arrow.peek_kind noBlock
                    | withoutBlock =>
                        cases further with
                        | stop => exact ⟨_, areArguments, rfl⟩
                        | climb continues tight =>
                            exact absurd (below _ _ _ continues) (Nat.not_lt_of_le tight)
            | integer here | float here | constant here | string here | classWord here
            | moduleWord here | colon here | array here | brace here | paren here | block here =>
                cases isHere.symm.trans here.peek_kind
  cases reads with
  | keyed names => exact absurd names (symbolKey?_eq_none_iff.1 unnamed _ _)
  | expression _ isNode =>
      rcases ofBinary isNode with ⟨list, areArguments, rfl⟩
      exact ⟨list, middle, areArguments, Or.inl ⟨rfl, rfl⟩⟩
  | pair _ isKey separates =>
      rcases ofBinary isKey with ⟨list, areArguments, rfl⟩
      exact ⟨list, _, areArguments, Or.inr ⟨separates.2.1.ahead_ne_nil, _, rfl⟩⟩

/-- A call up to the end of the tokens is a program. -/
theorem reads_program_of_call
    {list : List Node} {next : Cursor}
    (areArguments : Reads .arguments ⟨rest, ending, false⟩ list next) (isEnd : next.ahead = [])
    (isWord : word.kind = .identifier name)
    (unnamed : (Cursor.mk (word :: rest) ending false).symbolKey? = none)
    (noMethod : (Cursor.mk rest ending false).peek.kind ≠ .mark .arrow) :
    Reads (.statements false) ⟨word :: rest, ending, false⟩ [.call name list none] next := by
  have noBlock : next.peek.kind ≠ .mark .blockArrow := by
    rw [peek_of_end isEnd]
    exact Kind.noConfusion
  have isCall : Reads (.primary false) ⟨word :: rest, ending, false⟩ (.call name list none) next :=
    .name (accepts_cons isWord (by simp))
      (.call noMethod areArguments (.withoutBlock (Or.inr noBlock)))
  exact reads_program_of_primary isCall isEnd isWord (by simp) (by simp) unnamed

variable {opener closer : Token} {given : List Token}

/-- With nothing behind them the parentheses hold all arguments. -/
theorem not_continues_of_closed
    (isOpener : opener.kind = .mark .leftParen) (isCloser : closer.kind = .mark .rightParen)
    (paired : Token.Paired given) (ending : Ending) (flag : Bool) :
    (Cursor.mk (opener :: (given ++ [closer])) ending flag).continuesBehindParens = false := by
  have found : behindParens? 0 (opener :: (given ++ [closer])) = some [] := by
    rw [behindParens?, if_pos isOpener, paired 0, behindParens?, isCloser]
    rfl
  rw [continuesBehindParens, found]

/-- The arguments up to the end are those in the parentheses. -/
theorem reads_arguments_closed_iff
    {list : List Node} {next : Cursor} (isOpener : opener.kind = .mark .leftParen)
    (isCloser : closer.kind = .mark .rightParen) (paired : Token.Paired given) :
    Reads .arguments ⟨opener :: (given ++ [closer]), ending, false⟩ list next ↔
      Reads (.enclosed .rightParen) ⟨given ++ [closer], ending, false⟩ list
        ⟨[], ending, false⟩ ∧ next = ⟨[], ending, false⟩ := by
  have isHere :
      (Cursor.mk (opener :: (given ++ [closer])) ending false).peek.kind = .mark .leftParen :=
    isOpener
  have opens : (Cursor.mk (opener :: (given ++ [closer])) ending false).Accepts (.mark .leftParen)
      ⟨given ++ [closer], ending, false⟩ := accepts_cons isOpener (by simp)
  have whole := not_continues_of_closed isOpener isCloser paired ending false
  constructor
  · intro reads
    cases reads with
    | parenthesized opened _ areArguments =>
        obtain rfl := opened.unique opens
        obtain rfl := areArguments.enclosed_ends paired isCloser
        exact ⟨areArguments, rfl⟩
    | larger _ isLarger =>
        rw [whole, Bool.and_false] at isLarger
        cases isLarger
    | command unopened => exact absurd isHere unopened
    | noArguments unopened => exact absurd isHere unopened
  · rintro ⟨inside, rfl⟩
    refine .parenthesized opens ?_ inside
    rw [whole, Bool.and_false]

/-- A program that is a name with parentheses behind it is a call. -/
theorem reads_program_parens_iff
    {nodes : List Node} (isWord : word.kind = .identifier name)
    (isOpener : opener.kind = .mark .leftParen) (isCloser : closer.kind = .mark .rightParen)
    (between : Token.BetweenParens given) :
    (∃ last, Reads (.statements false) ⟨word :: opener :: (given ++ [closer]), ending, false⟩ nodes
      last) ↔
      ∃ list, Reads (.enclosed .rightParen) ⟨given ++ [closer], ending, false⟩ list
        ⟨[], ending, false⟩ ∧ nodes = [.call name list none] := by
  have unnamed :
      (Cursor.mk (word :: opener :: (given ++ [closer])) ending false).symbolKey? = none :=
    symbolKey?_eq_none_of_second isOpener (by simp)
  have noMethod :
      (Cursor.mk (opener :: (given ++ [closer])) ending false).peek.kind ≠ .mark .arrow := by
    intro isArrow
    cases isOpener.symm.trans isArrow
  constructor
  · rintro ⟨last, reads⟩
    have isLine : ∀ token ∈ word :: opener :: (given ++ [closer]),
        token.kind.isLayout = false := by
      refine List.forall_mem_cons.2 ⟨by rw [isWord]; rfl, List.forall_mem_cons.2
        ⟨by rw [isOpener]; rfl, List.forall_mem_append.2 ⟨between.inLine, ?_⟩⟩⟩
      exact List.forall_mem_singleton.2 (by rw [isCloser]; rfl)
    rcases reads.lone_line (List.cons_ne_nil _ _) isLine rfl with
      ⟨first, middle, node, next, rfl, isEntry, isNode, -⟩
    have stops (list : List Node) (next : Cursor)
        (reads : Reads .arguments ⟨opener :: (given ++ [closer]), ending, false⟩ list next) :
        next.Below Binding.loosest ∧ next.peek.kind ≠ .mark .blockArrow := by
      obtain rfl := ((reads_arguments_closed_iff isOpener isCloser between.paired).1 reads).2
      refine ⟨?_, Kind.noConfusion⟩
      intro operator binding behind continues
      exact absurd rfl continues.2.1.ahead_ne_nil
    rcases isEntry.entry_call isWord unnamed noMethod stops with
      ⟨list, behind, areArguments, isCall⟩
    rcases (reads_arguments_closed_iff isOpener isCloser between.paired).1 areArguments with
      ⟨inside, rfl⟩
    rcases isCall with ⟨rfl, rfl⟩ | ⟨goesOn, -⟩
    · cases isNode with
      | single => exact ⟨list, inside, rfl⟩
    · exact absurd rfl goesOn
  · rintro ⟨list, inside, rfl⟩
    have areArguments := (reads_arguments_closed_iff isOpener isCloser between.paired).2
      ⟨inside, rfl⟩
    exact ⟨_, reads_program_of_call areArguments rfl isWord unnamed noMethod⟩

/-- The colon behind a key starts no argument. -/
theorem not_atArgument_of_colon
    {cursor next : Cursor} (isColon : cursor.Accepts (.mark .colon) next)
    (spaced : next.peek.spaced = true) : cursor.atArgument = false := by
  rcases isColon with ⟨colon, takes, isKind⟩
  rw [atArgument, takes.peekAt_one, takes.peek, isKind, spaced]
  simp

/-- Where an argument list starts behind a name, that is not a key. -/
theorem symbolKey?_eq_none_of_atArgument
    (isWord : word.kind = .identifier name)
    (starts : (Cursor.mk rest ending false).atArgument = true) :
    (Cursor.mk (word :: rest) ending false).symbolKey? = none := by
  refine symbolKey?_eq_none_iff.2 ?_
  rintro key next ⟨first, middle, takes, -, isColon, spaced, -⟩
  obtain rfl := (takes.unique (takes_cons (by simp [isWord]))).2
  cases starts.symm.trans (not_atArgument_of_colon isColon spaced)

theorem peek_kind_ne_arrow_of_atArgument
    (starts : (Cursor.mk rest ending false).atArgument = true) :
    (Cursor.mk rest ending false).peek.kind ≠ .mark .arrow := by
  intro isArrow
  simp [atArgument, isArrow] at starts

theorem Reads.entries_end
    {entries : List Entry} {inCommand : Bool} {next : Cursor}
    (areEntries : Reads (.entries inCommand) ⟨given, ending, false⟩ entries next)
    (between : Token.BetweenParens given) (isEnd : next.ahead = []) :
    next = ⟨[], ending, false⟩ := by
  rcases areEntries.passed with ⟨passed, -, sameEnding⟩
  have passes : (Cursor.mk given ending false).Passes next := areEntries.passes
  rw [← isEnd, ← passes.inLine (between.ne_of_isLayout rfl) rfl]
  exact congrArg (Cursor.mk next.ahead · next.afterBody) sameEnding

/-- A program that is a name with a list of arguments behind it is a call, or its first expression
is the key of a pair. -/
theorem Reads.program_list
    {nodes : List Node} {last : Cursor}
    (reads : Reads (.statements false) ⟨word :: given, ending, false⟩ nodes last)
    (isWord : word.kind = .identifier name) (between : Token.BetweenParens given)
    (starts : (Cursor.mk given ending false).atArgument = true)
    (noParens : (Cursor.mk given ending false).peek.kind ≠ .mark .leftParen) :
    (∃ entries, Reads (.entries true) ⟨given, ending, false⟩ entries ⟨[], ending, false⟩ ∧
      nodes = [.call name (Entry.gather entries) none]) ∨
    ∃ list value pairs, nodes = [.hash (⟨.call name list none, value⟩ :: pairs)] := by
  have ofArguments {list : List Node} {next : Cursor}
      (reads : Reads .arguments ⟨given, ending, false⟩ list next) :
      ∃ entries, Reads (.entries true) ⟨given, ending, false⟩ entries next ∧
        list = Entry.gather entries := by
    cases reads with
    | parenthesized opens => exact absurd opens.peek_kind noParens
    | larger opens => exact absurd opens noParens
    | command _ _ areEntries => exact ⟨_, areEntries, rfl⟩
    | noArguments _ absent => cases absent.symm.trans starts
  have isLine : ∀ token ∈ word :: given, token.kind.isLayout = false :=
    List.forall_mem_cons.2 ⟨by rw [isWord]; rfl, between.inLine⟩
  rcases reads.lone_line (List.cons_ne_nil _ _) isLine rfl with
    ⟨first, middle, node, behind, rfl, isEntry, isNode, isEnd⟩
  have stops (list : List Node) (next : Cursor)
      (reads : Reads .arguments ⟨given, ending, false⟩ list next) :
      next.Below Binding.loosest ∧ next.peek.kind ≠ .mark .blockArrow := by
    rcases ofArguments reads with ⟨entries, areEntries, -⟩
    have noBlock : ∀ token ∈ next.ahead, token.kind ≠ .mark .blockArrow :=
      areEntries.forall_behind between.noBlock
    exact ⟨areEntries.entries_below, peek_kind_ne_of_forall noBlock (by simp)⟩
  have unnamed := symbolKey?_eq_none_of_atArgument isWord starts
  rcases isEntry.entry_call isWord unnamed (peek_kind_ne_arrow_of_atArgument starts) stops with
    ⟨list, next, areArguments, ⟨rfl, rfl⟩ | ⟨-, value, rfl⟩⟩
  · rcases ofArguments areArguments with ⟨entries, areEntries, rfl⟩
    cases isNode with
    | single => exact Or.inl ⟨entries, areEntries.entries_end between isEnd ▸ areEntries, rfl⟩
  · cases isNode with
    | bareHash arePairs =>
        cases arePairs with
        | lastPair => exact Or.inr ⟨list, value, [], rfl⟩
        | morePairs => exact Or.inr ⟨list, value, _, rfl⟩

theorem reads_program_of_entries
    {entries : List Entry} {next : Cursor} (isWord : word.kind = .identifier name)
    (areEntries : Reads (.entries true) ⟨given, ending, false⟩ entries next)
    (isEnd : next.ahead = []) (starts : (Cursor.mk given ending false).atArgument = true)
    (noParens : (Cursor.mk given ending false).peek.kind ≠ .mark .leftParen) :
    Reads (.statements false) ⟨word :: given, ending, false⟩
      [.call name (Entry.gather entries) none] next :=
  reads_program_of_call (.command noParens starts areEntries) isEnd isWord
    (symbolKey?_eq_none_of_atArgument isWord starts) (peek_kind_ne_arrow_of_atArgument starts)

/-- No argument list starts with a reserved word, so nothing is read behind the name. -/
theorem Reads.not_call_of_keyword
    {first : Token} {keyword : Keyword} {arguments : List Node} {last : Cursor}
    (isWord : word.kind = .identifier name) (isKeyword : first.kind = .keyword keyword)
    (inLine : ∀ token ∈ first :: rest, token.kind.isLayout = false) :
    ¬Reads (.statements false) ⟨word :: first :: rest, ending, false⟩ [.call name arguments none]
      last := by
  intro reads
  have isHere : (Cursor.mk (first :: rest) ending false).peek.kind = .keyword keyword := isKeyword
  have noArguments {list : List Node} {next : Cursor}
      (reads : Reads .arguments ⟨first :: rest, ending, false⟩ list next) :
      next = ⟨first :: rest, ending, false⟩ := by
    cases reads with
    | parenthesized opens => cases isHere.symm.trans opens.peek_kind
    | larger opens => cases isHere.symm.trans opens
    | command _ starts => simp [atArgument, isHere] at starts
    | noArguments => rfl
  have isLine : ∀ token ∈ word :: first :: rest, token.kind.isLayout = false :=
    List.forall_mem_cons.2 ⟨by rw [isWord]; rfl, inLine⟩
  rcases reads.lone_line (List.cons_ne_nil _ _) isLine rfl with
    ⟨entry, middle, node, behind, isCall, isEntry, isNode, isEnd⟩
  have unnamed : (Cursor.mk (word :: first :: rest) ending false).symbolKey? = none :=
    symbolKey?_eq_none_of_second isKeyword (by simp)
  have stops (list : List Node) (next : Cursor)
      (reads : Reads .arguments ⟨first :: rest, ending, false⟩ list next) :
      next.Below Binding.loosest ∧ next.peek.kind ≠ .mark .blockArrow := by
    rw [noArguments reads, isHere]
    refine ⟨?_, by simp⟩
    intro operator binding place continues
    cases isHere.symm.trans continues.2.1.peek_kind
  rcases isEntry.entry_call isWord unnamed (by simp [isHere]) stops with
    ⟨list, next, areArguments, ⟨rfl, rfl⟩ | ⟨-, value, rfl⟩⟩
  · cases isNode with
    | single =>
        rw [noArguments areArguments] at isEnd
        cases isEnd
  · cases isNode with
    | bareHash => cases List.singleton_inj.1 isCall

/-- What stands between parentheses is a list of arguments up to the end. -/
theorem reads_enclosed_iff
    {list : List Node} (isCloser : closer.kind = .mark .rightParen)
    (between : Token.BetweenParens given) (some : given ≠ []) (other : Ending) :
    Reads (.enclosed .rightParen) ⟨given ++ [closer], ending, false⟩ list ⟨[], ending, false⟩ ↔
      ∃ entries, Reads (.entries true) ⟨given, other, false⟩ entries ⟨[], other, false⟩ ∧
        list = Entry.gather entries := by
  have closes : (Cursor.mk [closer] ending false).Accepts (.mark .rightParen) ⟨[], ending, false⟩ :=
    accepts_cons isCloser (by simp)
  have filled : (Cursor.mk (given ++ [closer]) ending false).peek.kind ≠ .mark .rightParen := by
    intro isFirst
    cases given with
    | nil => exact absurd rfl some
    | cons first others =>
        have isRight : first.kind = .mark .rightParen := isFirst
        have searched := between.paired 0 [closer]
        rw [List.cons_append, behindParens?, behindParens?, isRight, isCloser] at searched
        simp at searched
  constructor
  · intro reads
    cases reads with
    | emptyEnclosed closed => exact absurd closed.peek_kind filled
    | @enclosed _ _ middle _ entries _ areEntries closed =>
        rcases closed.ahead with ⟨token, isLast, -⟩
        rcases areEntries.passed with ⟨passed, isPassed, -⟩
        have isWhole : given ++ [closer] = passed ++ [token] := by
          rw [← isLast]
          exact isPassed
        have isCloserHere : middle.ahead = [closer] := by
          rw [isLast, List.append_inj_right' isWhole rfl]
        exact ⟨entries, areEntries.entries_unclosed between isCloser isCloserHere true other, rfl⟩
  · rintro ⟨entries, areEntries, rfl⟩
    exact .enclosed filled (areEntries.entries_closed between isCloser rfl false ending) closes

end Calls

end Phrase

/-! ## Lists of tokens -/

namespace Token

variable {word opener closer : Token} {given : List Token} {name : String}

theorem missingEnding_cons (word : Token) (some : given ≠ []) :
    Cursor.missingEnding (word :: given) = Cursor.missingEnding given := by
  have sameLast : (word :: given).getLast? = given.getLast? := by
    rw [List.getLast?_cons, List.getLast?_eq_some_getLast some]
    rfl
  rw [Cursor.missingEnding, Cursor.missingEnding, sameLast]

theorem BetweenParens.ofTokens
    (between : BetweenParens given) (isWord : word.kind = .identifier name) :
    Cursor.ofTokens (word :: given) =
      ⟨word :: given, Cursor.missingEnding (word :: given), false⟩ := by
  refine Cursor.ofTokens_of_plain ?_ ?_
  · refine List.forall_mem_cons.2 ⟨?_, between.noTrivia⟩
    rw [isWord]
    rfl
  · refine List.forall_mem_cons.2 ⟨?_, between.ne_of_isLayout rfl⟩
    simp [isWord]

theorem BetweenParens.ofTokens_parens
    (between : BetweenParens given) (isWord : word.kind = .identifier name)
    (isOpener : opener.kind = .mark .leftParen) (isCloser : closer.kind = .mark .rightParen) :
    Cursor.ofTokens (word :: opener :: (given ++ [closer])) =
      ⟨word :: opener :: (given ++ [closer]), Cursor.missingEnding [closer], false⟩ := by
  have sameEnding : Cursor.missingEnding (word :: opener :: (given ++ [closer])) =
      Cursor.missingEnding [closer] := by
    rw [missingEnding_cons word (by simp), missingEnding_cons opener (by simp),
      Cursor.missingEnding, Cursor.missingEnding, List.getLast?_append]
    rfl
  rw [← sameEnding]
  refine Cursor.ofTokens_of_plain ?_ ?_
  · simp only [List.forall_mem_cons, List.forall_mem_append, isWord, isOpener, isCloser]
    exact ⟨rfl, rfl, between.noTrivia, rfl, List.forall_mem_nil _⟩
  · simp only [List.forall_mem_cons, List.forall_mem_append, isWord, isOpener, isCloser]
    exact ⟨Kind.noConfusion, Kind.noConfusion, between.ne_of_isLayout rfl, Kind.noConfusion,
      List.forall_mem_nil _⟩

end Token

section Spellings

open Phrase

variable {name : String} {word opener closer : Token} {given : List Token}

theorem parseTokens_parens_iff
    {nodes : List Node} (isWord : word.kind = .identifier name)
    (isOpener : opener.kind = .mark .leftParen) (isCloser : closer.kind = .mark .rightParen)
    (between : Token.BetweenParens given) :
    parseTokens (word :: opener :: (given ++ [closer])) = .ok nodes ↔
      ∃ list, Reads (.enclosed .rightParen)
        ⟨given ++ [closer], Cursor.missingEnding [closer], false⟩ list
        ⟨[], Cursor.missingEnding [closer], false⟩ ∧ nodes = [.call name list none] := by
  rw [parseTokens_eq_ok_iff, between.ofTokens_parens isWord isOpener isCloser]
  exact reads_program_parens_iff isWord isOpener isCloser between

/-- The same call, however its parenthesis is set off; and without parentheses, where its arguments
are seen to start, unless the call is then read as the first key of a hash. -/
theorem parseTokens_call_spellings
    {again : Token} (isWord : word.kind = .identifier name)
    (isOpener : opener.kind = .mark .leftParen) (isAgain : again.kind = .mark .leftParen)
    (isCloser : closer.kind = .mark .rightParen) (between : Token.BetweenParens given) :
    (∀ nodes, parseTokens (word :: opener :: (given ++ [closer])) = .ok nodes ↔
      parseTokens (word :: again :: (given ++ [closer])) = .ok nodes) ∧
    ((Cursor.ofTokens given).atArgument = true →
      (∀ first ∈ given.head?, first.kind ≠ .mark .leftParen) →
      (∀ nodes, parseTokens (word :: opener :: (given ++ [closer])) = .ok nodes ↔
        parseTokens (word :: given) = .ok nodes ∧ ∃ list, nodes = [.call name list none]) ∧
      ∀ nodes, parseTokens (word :: given) = .ok nodes →
        (∃ list, nodes = [.call name list none]) ∨
          ∃ list value pairs, nodes = [.hash (⟨.call name list none, value⟩ :: pairs)]) := by
  refine ⟨?_, ?_⟩
  · intro nodes
    rw [parseTokens_parens_iff isWord isOpener isCloser between,
      parseTokens_parens_iff isWord isAgain isCloser between]
  · intro starts notParens
    have some : given ≠ [] := by
      rintro rfl
      cases starts
    have isList := between.ofTokens isWord
    rw [Token.missingEnding_cons word some] at isList
    have isGiven : Cursor.ofTokens given = ⟨given, Cursor.missingEnding given, false⟩ :=
      Cursor.ofTokens_of_plain between.noTrivia (between.ne_of_isLayout rfl)
    rw [isGiven] at starts
    generalize Cursor.missingEnding given = ending at isList starts
    have isProgram (nodes : List Node) : parseTokens (word :: given) = .ok nodes ↔
        ∃ last, Reads (.statements false) ⟨word :: given, ending, false⟩ nodes last := by
      rw [parseTokens_eq_ok_iff, isList]
    have noParens : (Cursor.mk given ending false).peek.kind ≠ .mark .leftParen := by
      cases given with
      | nil => exact absurd rfl some
      | cons first others => exact notParens first rfl
    refine ⟨?_, ?_⟩
    · intro nodes
      rw [parseTokens_parens_iff isWord isOpener isCloser between, isProgram]
      constructor
      · rintro ⟨list, inside, rfl⟩
        rcases (reads_enclosed_iff isCloser between some ending).1 inside with
          ⟨entries, areEntries, rfl⟩
        exact ⟨⟨_, reads_program_of_entries isWord areEntries rfl starts noParens⟩, _, rfl⟩
      · rintro ⟨⟨last, reads⟩, list, rfl⟩
        rcases reads.program_list isWord between starts noParens with
          ⟨entries, areEntries, isCall⟩ | ⟨other, value, pairs, isHash⟩
        · exact ⟨_, (reads_enclosed_iff isCloser between some ending).2 ⟨entries, areEntries, rfl⟩,
            isCall⟩
        · cases List.singleton_inj.1 isHash
    · intro nodes parsed
      rcases (isProgram nodes).1 parsed with ⟨last, reads⟩
      rcases reads.program_list isWord between starts noParens with ⟨entries, -, rfl⟩ | isHash
      · exact Or.inl ⟨_, rfl⟩
      · exact Or.inr isHash

/-- A number and a pair are given to a call in each of its spellings. -/
theorem parseTokens_call_spellings_pair :
    ∃ (word opener again closer : Token) (given : List Token),
      given.map Token.kind = [.integer 1, .mark .comma, .identifier "a", .mark .colon, .integer 2] ∧
      opener.spaced = false ∧ again.spaced = true ∧
      parseTokens (word :: opener :: (given ++ [closer])) =
        .ok [.call "f" [.integer 1, .hash [⟨.symbol (.text "a"), .integer 2⟩]] none] ∧
      parseTokens (word :: again :: (given ++ [closer])) =
        .ok [.call "f" [.integer 1, .hash [⟨.symbol (.text "a"), .integer 2⟩]] none] ∧
      parseTokens (word :: given) =
        .ok [.call "f" [.integer 1, .hash [⟨.symbol (.text "a"), .integer 2⟩]] none] := by
  let token (kind : Kind) (lexeme : String) (spaced : Bool) : Token :=
    ⟨kind, lexeme, ⟨1, 1, none⟩, spaced⟩
  let word := token (.identifier "f") "f" false
  let opener := token (.mark .leftParen) "(" false
  let again := token (.mark .leftParen) "(" true
  let closer := token (.mark .rightParen) ")" false
  let given := [token (.integer 1) "1" true, token (.mark .comma) "," false,
    token (.identifier "a") "a" true, token (.mark .colon) ":" false, token (.integer 2) "2" true]
  have between : Token.BetweenParens given :=
    ⟨by decide, by decide, by decide, by decide⟩
  have isWord : word.kind = .identifier "f" := rfl
  have isOpener : opener.kind = .mark .leftParen := rfl
  have isAgain : again.kind = .mark .leftParen := rfl
  have isCloser : closer.kind = .mark .rightParen := rfl
  have spellings := parseTokens_call_spellings isWord isOpener isAgain isCloser between
  have parsed : parseTokens (word :: opener :: (given ++ [closer])) =
      .ok [.call "f" [.integer 1, .hash [⟨.symbol (.text "a"), .integer 2⟩]] none] := by
    with_unfolding_all rfl
  refine ⟨word, opener, again, closer, given, rfl, rfl, rfl, parsed, (spellings.1 _).1 parsed, ?_⟩
  exact (((spellings.2 (by decide) (by simp [given, token])).1 _).1 parsed).1

/-- Without parentheses a call can be the key of a pair, but not with its arguments in them. -/
theorem call_spellings_differ :
    ∃ (word opener closer : Token) (given : List Token),
      word.kind = .identifier "f" ∧ opener.kind = .mark .leftParen ∧
      closer.kind = .mark .rightParen ∧ Token.BetweenParens given ∧
      (∀ first ∈ given.head?, first.kind ≠ .mark .leftParen ∧ first.spaced = true) ∧
      (Cursor.ofTokens given).atArgument = true ∧
      parseTokens (word :: given) = .ok [.hash [⟨.call "f" [.hash [⟨.integer 1, .integer 2⟩]] none,
        .integer 3⟩]] ∧
      ¬∃ nodes, parseTokens (word :: opener :: (given ++ [closer])) = .ok nodes := by
  let token (kind : Kind) (lexeme : String) (spaced : Bool) : Token :=
    ⟨kind, lexeme, ⟨1, 1, none⟩, spaced⟩
  let word := token (.identifier "f") "f" false
  let opener := token (.mark .leftParen) "(" false
  let closer := token (.mark .rightParen) ")" false
  let given := [token (.integer 1) "1" true, token (.mark .colon) ":" true,
    token (.integer 2) "2" true, token (.mark .colon) ":" true, token (.integer 3) "3" true]
  have refused : parseTokens (word :: opener :: (given ++ [closer])) =
      .error (Refusal.fault (token (.mark .colon) ":" true)
        (.unexpected [.mark .comma, .mark .rightParen])) := by
    with_unfolding_all rfl
  refine ⟨word, opener, closer, given, rfl, rfl, rfl, ⟨by decide, by decide, by decide, by decide⟩,
    by simp [given, token], by decide, by with_unfolding_all rfl, ?_⟩
  rintro ⟨nodes, parsed⟩
  cases refused.symm.trans parsed

/-- Arguments that can stand in parentheses follow the name without them, behind a blank, unless the
first one starts with a reserved word. -/
theorem parseTokens_list_iff_of_parens
    {first : Token} {rest : List Token} {arguments : List Node}
    (isWord : word.kind = .identifier name) (isOpener : opener.kind = .mark .leftParen)
    (isCloser : closer.kind = .mark .rightParen) (between : Token.BetweenParens (first :: rest))
    (noParens : first.kind ≠ .mark .leftParen)
    (noSign : ∀ operator, first.kind ≠ .operator operator)
    (parsed : parseTokens (word :: opener :: (first :: rest ++ [closer])) =
      .ok [.call name arguments none]) :
    parseTokens (word :: { first with spaced := true } :: rest) = .ok [.call name arguments none] ↔
      ∀ keyword, first.kind ≠ .keyword keyword := by
  let again : Token := { first with spaced := true }
  have betweenAgain : Token.BetweenParens (again :: rest) := by
    refine ⟨?_, ?_, ?_, between.balanced⟩
    · exact List.forall_mem_cons.2 (List.forall_mem_cons.1 between.noTrivia)
    · exact List.forall_mem_cons.2 (List.forall_mem_cons.1 between.inLine)
    · exact List.forall_mem_cons.2 (List.forall_mem_cons.1 between.noBlock)
  have isList := betweenAgain.ofTokens isWord
  generalize Cursor.missingEnding (word :: again :: rest) = ending at isList
  rw [parseTokens_eq_ok_iff, isList]
  constructor
  · rintro ⟨last, reads⟩ keyword isKeyword
    have isReserved : again.kind = .keyword keyword := isKeyword
    exact Reads.not_call_of_keyword isWord isReserved betweenAgain.inLine reads
  · intro noWord
    rcases (parseTokens_parens_iff isWord isOpener isCloser between).1 parsed with
      ⟨list, inside, isCall⟩
    obtain rfl := (Node.call.inj (List.singleton_inj.1 isCall)).2.1
    rcases (reads_enclosed_iff isCloser between (List.cons_ne_nil _ _) ending).1 inside with
      ⟨entries, areEntries, rfl⟩
    have restarts : (Cursor.mk (first :: rest) ending false).Restarts
        ⟨again :: rest, ending, false⟩ := by
      have inLine : first.kind ≠ .dedent := between.ne_of_isLayout rfl first List.mem_cons_self
      exact ⟨first, again, _, Cursor.takes_cons inLine, Cursor.takes_cons inLine, rfl, rfl⟩
    have areAgain := areEntries.entries_restarted restarts
    have noBlock : again.kind ≠ .mark .blockArrow := between.noBlock first List.mem_cons_self
    have starts := areAgain.entries_atArgument rfl noParens noSign noWord noBlock
    exact ⟨_, reads_program_of_entries isWord areAgain rfl starts noParens⟩

/-- A symbol and an array are given to a call without parentheses as they are with them. -/
theorem parseTokens_list_of_symbol :
    ∃ (word opener closer first : Token) (rest : List Token),
      (first :: rest).map Token.kind = [.mark .colon, .identifier "a", .mark .comma,
        .mark .leftBracket, .integer 1, .mark .rightBracket] ∧
      parseTokens (word :: opener :: (first :: rest ++ [closer])) =
        .ok [.call "f" [.symbol (.text "a"), .array [.integer 1]] none] ∧
      parseTokens (word :: { first with spaced := true } :: rest) =
        .ok [.call "f" [.symbol (.text "a"), .array [.integer 1]] none] := by
  let token (kind : Kind) (lexeme : String) (spaced : Bool) : Token :=
    ⟨kind, lexeme, ⟨1, 1, none⟩, spaced⟩
  let word := token (.identifier "f") "f" false
  let opener := token (.mark .leftParen) "(" false
  let closer := token (.mark .rightParen) ")" false
  let first := token (.mark .colon) ":" false
  let rest := [token (.identifier "a") "a" false, token (.mark .comma) "," false,
    token (.mark .leftBracket) "[" true, token (.integer 1) "1" false,
    token (.mark .rightBracket) "]" false]
  have between : Token.BetweenParens (first :: rest) :=
    ⟨by decide, by decide, by decide, by decide⟩
  have parsed : parseTokens (word :: opener :: (first :: rest ++ [closer])) =
      .ok [.call "f" [.symbol (.text "a"), .array [.integer 1]] none] := by
    with_unfolding_all rfl
  have spelled := parseTokens_list_iff_of_parens rfl rfl rfl between (by simp [first, token])
    (by simp [first, token]) parsed
  exact ⟨word, opener, closer, first, rest, rfl, parsed, spelled.2 (by simp [first, token])⟩

/-- A pair whose key is a reserved word can be given to a call in parentheses only. -/
theorem list_of_reserved_key_differs :
    ∃ (word opener closer first : Token) (rest : List Token),
      word.kind = .identifier "f" ∧ opener.kind = .mark .leftParen ∧
      closer.kind = .mark .rightParen ∧ Token.BetweenParens (first :: rest) ∧
      first.kind = .keyword .classWord ∧ first.spaced = true ∧
      parseTokens (word :: opener :: (first :: rest ++ [closer])) =
        .ok [.call "f" [.hash [⟨.symbol (.text "class"), .integer 1⟩]] none] ∧
      ¬∃ nodes, parseTokens (word :: first :: rest) = .ok nodes := by
  let token (kind : Kind) (lexeme : String) (spaced : Bool) : Token :=
    ⟨kind, lexeme, ⟨1, 1, none⟩, spaced⟩
  let word := token (.identifier "f") "f" false
  let opener := token (.mark .leftParen) "(" false
  let closer := token (.mark .rightParen) ")" false
  let first := token (.keyword .classWord) "class" true
  let rest := [token (.mark .colon) ":" false, token (.integer 1) "1" true]
  have refused : parseTokens (word :: first :: rest) =
      .error (Refusal.fault first (.unexpected [.newline, .dedent, .endOfInput])) := by
    with_unfolding_all rfl
  refine ⟨word, opener, closer, first, rest, rfl, rfl, rfl,
    ⟨by decide, by decide, by decide, by decide⟩, rfl, rfl, by with_unfolding_all rfl, ?_⟩
  rintro ⟨nodes, parsed⟩
  cases refused.symm.trans parsed

end Spellings

end ScriptFront
