import ScriptFront.Proofs.Grammar.IndexedReading

/-!
# What a parser with an index reads

Each function of the parser reads what the phrase reads from the place at which the parser stands,
and leaves the parser where that ends; where the phrase is refused, so is the parser.  That is shown
for one function after the other, if it holds for those that the function calls.  These are called
behind a token, or at the same place if they come earlier in an order of the functions.
-/

namespace ScriptFront

/-- The order of the functions that are called at the same place. -/
def Production.rank : Production → Nat
  | .statements _ | .bodyStatements _ => 7
  | .statement => 6
  | .expressionList _ _ => 5
  | .entry => 4
  | .binary _ => 3
  | .unary => 2
  | .primary => 1
  | _ => 0

theorem Production.rank_le (production : Production) : production.rank ≤ 7 := by
  cases production <;> simp [rank]

namespace Input

/-- A function that is called reads what the phrase reads from a place. -/
def Agrees (input : Input) (call : Callees) : Production → Cursor → Prop
  | .statements before, cursor => ∀ parser, input.Stands 0 cursor parser →
      input.Follows 0 ((Phrase.statements false cursor).map (before ++ ·)).result
        ((call (.statements before)).run parser)
  | .bodyStatements before, cursor => ∀ parser, input.Stands 0 cursor parser →
      input.Follows 0
        ((Phrase.statements true cursor).andThen fun nodes next _ =>
          next.bodyEnd (before ++ nodes)).result
        ((call (.bodyStatements before)).run parser)
  | .statement, cursor => ∀ parser, input.Stands 0 cursor parser →
      input.Follows 0 (Phrase.statement cursor).result ((call .statement).run parser)
  | .entry, cursor => ∀ depth parser, input.Stands depth cursor parser →
      input.Follows depth (Phrase.entry (isCommand depth) cursor).result ((call .entry).run parser)
  | .expressionList nodes run, cursor => ∀ depth parser, input.Stands depth cursor parser →
      input.Follows depth
        ((Phrase.entries (isCommand depth) cursor).map (Entry.collect nodes run)).result
        ((call (.expressionList nodes run)).run parser)
  | .hashTail before, cursor => ∀ front first parser, before = front ++ [first] →
      input.Stands 0 cursor parser →
      input.Follows 0 ((Phrase.morePairs first cursor).map fun list => .hash (front ++ list)).result
        ((call (.hashTail before)).run parser)
  | .binary level, cursor => ∀ depth parser, input.Stands depth cursor parser →
      input.Follows depth (Phrase.binary (isCommand depth) level cursor).result
        ((call (.binary level)).run parser)
  | .climb level left, cursor => ∀ depth parser, input.Stands depth cursor parser →
      input.Follows depth (Phrase.climb (isCommand depth) level left cursor).result
        ((call (.climb level left)).run parser)
  | .unary, cursor => ∀ depth parser, input.Stands depth cursor parser →
      input.Follows depth (Phrase.unary (isCommand depth) cursor).result ((call .unary).run parser)
  | .primary, cursor => ∀ depth parser, input.Stands depth cursor parser →
      input.Follows depth (Phrase.primary (isCommand depth) cursor).result
        ((call .primary).run parser)
  | .stringParts text before, cursor => ∀ depth parser, input.Stands depth cursor parser →
      input.Follows depth
        ((Phrase.stringParts text cursor).map (StringParts.nodeBehind before)).result
        ((call (.stringParts text before)).run parser)
  | .parameterTail before, cursor => ∀ parser, input.Stands 0 cursor parser →
      input.Follows 0 (cursor.moreParameters before).result
        ((call (.parameterTail before)).run parser)

/-- What is called at later places reads what it should. -/
def Later (input : Input) (call : Callees) (size : Nat) : Prop :=
  ∀ production place, place.size < size → input.Agrees call production place

theorem Later.mono
    {input : Input} {call : Callees} {size smaller : Nat} (later : input.Later call size)
    (le : smaller ≤ size) : input.Later call smaller :=
  fun production place shorter => later production place (Nat.lt_of_lt_of_le shorter le)

/-- So does what is called at the same place with a lower rank. -/
structure Earlier (input : Input) (call : Callees) (rank size : Nat) : Prop where
  later : input.Later call size
  lower : ∀ production place, place.size ≤ size → production.rank < rank →
    input.Agrees call production place

open Machine

variable {input : Input} {call : Callees} {depth size : Nat} {cursor next : Cursor}
  {parser : Parser} {token : Token}

/-! ## Statements -/

theorem agrees_statements
    {before : List Node} (earlier : input.Earlier call 7 cursor.size) :
    input.Agrees (step call) (.statements before) cursor := by
  intro parser stands
  have le := cursor.size_skipNewlines_le
  rcases run_skipNewlines stands (size_lt_loopFuel stands) with ⟨after, ran, stands_after⟩
  rw [Phrase.statements]
  apply Follows.after_ok (run_loopFuel parser)
  apply Follows.after_ok ran
  apply Follows.after_ok (run_isAtEnd stands_after)
  simp only [Cursor.endsStatements, Bool.false_and, Bool.or_false]
  cases atEnd : cursor.skipNewlines.atEnd with
  | true =>
      rw [if_pos rfl, if_pos rfl, Outcome.map, List.append_nil]
      exact .done stands_after
  | false =>
      rw [if_neg Bool.false_ne_true, if_neg Bool.false_ne_true, Outcome.map_widen,
        Outcome.result_widen, Outcome.map_andThen]
      apply Follows.andThen (earlier.lower .statement _ le (by decide) after stands_after)
      intro first next shorter behind stands_behind
      have further := earlier.later (.statements (before ++ [first])) next
        (Nat.lt_of_lt_of_le shorter le) behind stands_behind
      rw [Outcome.map_map]
      simpa only [Function.comp_def, List.append_assoc, List.singleton_append] using further

theorem follows_bodyEnd (before : List Node) (stands : input.Stands depth cursor parser) :
    input.Follows depth (cursor.bodyEnd before).result ((Machine.bodyEnd before).run parser) := by
  rw [Machine.bodyEnd, Cursor.bodyEnd]
  cases before with
  | nil => exact .refuse stands (by simp)
  | cons first others =>
      show input.Follows depth (.ok (first :: others, cursor.skipDedent)) _
      unfold Cursor.skipDedent
      cases found : cursor.accept? .dedent with
      | none => exact .unmatched found (by simp) stands (.done stands)
      | some dedent =>
          exact .matched (Cursor.accepts_of_accept? found) stands fun after stands_after =>
            .done stands_after

theorem agrees_bodyStatements
    {before : List Node} (earlier : input.Earlier call 7 cursor.size) :
    input.Agrees (step call) (.bodyStatements before) cursor := by
  intro parser stands
  have le := cursor.size_skipNewlines_le
  rcases run_skipNewlines stands (size_lt_loopFuel stands) with ⟨after, ran, stands_after⟩
  rw [Phrase.statements]
  apply Follows.after_ok (run_loopFuel parser)
  apply Follows.after_ok ran
  apply Follows.after_ok (run_check stands_after _)
  have ended : input.Follows 0 (cursor.skipNewlines.bodyEnd (before ++ [])).result
      ((Machine.bodyEnd before).run after) := by
    rw [List.append_nil]
    exact follows_bodyEnd before stands_after
  simp only [Cursor.endsStatements, Bool.true_and]
  cases atDedent : cursor.skipNewlines.isAt .dedent with
  | true =>
      rw [Bool.or_true, if_pos rfl, if_pos rfl, Outcome.andThen, Outcome.result_widen]
      exact ended
  | false =>
      rw [Bool.or_false, if_neg Bool.false_ne_true]
      apply Follows.after_ok (run_isAtEnd stands_after)
      cases atEnd : cursor.skipNewlines.atEnd with
      | true =>
          rw [if_pos rfl, if_pos rfl, Outcome.andThen, Outcome.result_widen]
          exact ended
      | false =>
          rw [if_neg Bool.false_ne_true, if_neg Bool.false_ne_true, Outcome.result_andThen_widen,
            Outcome.result_andThen_andThen]
          apply Follows.andThen (earlier.lower .statement _ le (by decide) after stands_after)
          intro first next shorter behind stands_behind
          have further := earlier.later (.bodyStatements (before ++ [first])) next
            (Nat.lt_of_lt_of_le shorter le) behind stands_behind
          rw [Outcome.andThen_map]
          simpa only [List.append_assoc, List.singleton_append] using further

theorem follows_bareHash
    (first : Entry) (later : input.Later call size) (shorter : cursor.size < size)
    (stands : input.Stands 0 cursor parser) :
    input.Follows 0 (Phrase.bareHash first cursor).result ((bareHash call first).run parser) := by
  cases first with
  | single node =>
      rw [Phrase.bareHash]
      exact .yield stands node
  | pair both =>
      rw [Phrase.bareHash]
      exact later (.hashTail [both]) cursor shorter [] both parser rfl stands

theorem follows_statementEnd (node : Node) (stands : input.Stands depth cursor parser) :
    input.Follows depth (cursor.statementEnd node).result ((statementEnd node).run parser) := by
  rw [Cursor.statementEnd]
  cases found : cursor.accept? .newline with
  | some newline =>
      exact .matched (Cursor.accepts_of_accept? found) stands fun after stands_after =>
        .done stands_after
  | none =>
      apply Follows.unmatched found (by simp) stands
      apply Follows.after_ok (run_check stands _)
      cases cursor.isAt .dedent with
      | true => exact .done stands
      | false =>
          apply Follows.after_ok (run_isAtEnd stands)
          cases cursor.atEnd with
          | true => exact .done stands
          | false =>
              apply Follows.after_ok (run_afterBody stands)
              cases cursor.afterBody with
              | true => exact .done stands
              | false => exact .refuse stands (by simp)

theorem agrees_statement (earlier : input.Earlier call 6 cursor.size) :
    input.Agrees (step call) .statement cursor := by
  intro parser stands
  rw [Phrase.statement]
  apply Follows.andThen (earlier.lower .entry cursor (Nat.le_refl _) (by decide) 0 parser stands)
  intro first next shorter after stands_after
  apply Follows.andThen (follows_bareHash first earlier.later shorter stands_after)
  intro node last le behind stands_behind
  exact follows_statementEnd node stands_behind

/-! ## Indented bodies -/

/-- The newlines ahead, counted, and the token behind them. -/
theorem run_newlinesAhead (stands : input.Stands depth cursor parser) :
    ∃ lines token, cursor.ahead = lines ++ cursor.skipNewlines.ahead ∧
      (behindNewlines (parser.tokens.length + 1) 0).run parser = (.ok lines.length, parser) ∧
      (peekAt lines.length).run parser = (.ok token, parser) ∧
      token.kind = cursor.skipNewlines.peek.kind := by
  rcases Cursor.ahead_skipNewlines cursor with ⟨lines, isAhead, sameEnding, areNewlines⟩
  have total : lines.length + cursor.skipNewlines.size = cursor.size := by
    rw [Cursor.size, Cursor.size, isAhead, List.length_append]
  have enough := size_lt_loopFuel stands
  rcases run_peekAt stands lines.length with ⟨token, ran, alike⟩
  have isBehind : cursor.peekAt lines.length = cursor.skipNewlines.peek := by
    rw [Cursor.peek, Cursor.peekAt, Cursor.peekAt, isAhead, sameEnding, List.getD_eq_getElem?_getD,
      List.getElem?_append_right (Nat.le_refl _), Nat.sub_self, List.getD_eq_getElem?_getD]
  refine ⟨lines, token, isAhead, ?_, ran, ?_⟩
  · exact run_behindNewlines stands isAhead sameEnding areNewlines
      (Cursor.peek_skipNewlines_ne cursor) (Nat.zero_le _) (by omega)
  · rw [(alike (by omega)).kind, isBehind]

theorem follows_indentedContents
    (later : input.Later call size) (le : cursor.size ≤ size)
    (stands : input.Stands depth cursor parser) :
    input.Follows depth (Phrase.body cursor).result ((indentedContents call).run parser) := by
  rcases run_newlinesAhead stands with ⟨lines, token, isAhead, ran, ranNext, isKind⟩
  have count : cursor.size = lines.length + cursor.skipNewlines.size := by
    rw [Cursor.size, Cursor.size, isAhead, List.length_append]
  rw [Phrase.body]
  apply Follows.after_ok (run_loopFuel parser)
  apply Follows.after_ok ran
  cases found : cursor.bodyStart? with
  | none =>
      by_cases isEmpty : lines.length = 0
      · rw [if_pos isEmpty]
        exact .yield stands []
      · have noIndent : token.kind ≠ .indent := by
          intro isIndent
          rcases Cursor.accepts_of_peek_kind (isKind.symm.trans isIndent) (by simp) with
            ⟨start, accepts⟩
          have starts : cursor.StartsBody start := Cursor.startsBody_iff.2 ⟨by omega, accepts⟩
          rcases Cursor.bodyStart?_of_startsBody starts with ⟨_, present, -⟩
          cases found.symm.trans present
        rw [if_neg isEmpty]
        apply Follows.after_ok ranNext
        rw [if_neg noIndent]
        exact .yield stands []
  | some start =>
      have starts := Cursor.startsBody_of_bodyStart? found
      have shorter := start.shorter
      rcases Cursor.startsBody_iff.1 starts with ⟨passed, accepts⟩
      have isIndent : token.kind = .indent := isKind.trans accepts.peek_kind
      have sameEnding : start.next.ending = cursor.ending := by
        rcases starts.ahead with ⟨_, _, _, _, sameEnding, _⟩
        exact sameEnding
      rcases accepts with ⟨indent, takes, -⟩
      have further : cursor.ahead = lines ++ indent :: start.next.ahead := by
        rw [isAhead, takes.ahead]
      have inFront : parser.current + (lines.length + 1) ≤ parser.firstEnd := by
        have total := stands.size
        have positive := takes.size_lt
        rw [stands.firstEnd]
        omega
      have stands_start := stands.behind_all further sameEnding takes.afterBody
      rw [if_neg (by omega)]
      apply Follows.after_ok ranNext
      rw [if_pos isIndent]
      -- The index moves over the newlines and the indent at once.
      apply Follows.after_ok (run_jump inFront)
      rw [Outcome.result_widen]
      exact .nested stands_start (later (.bodyStatements []) start.next (by omega))

/-! ## Lists and hashes -/

theorem agrees_entry (earlier : input.Earlier call 4 cursor.size) :
    input.Agrees (step call) .entry cursor := by
  intro depth parser stands
  have expressionAt (place : Cursor) (shorter : place.size < cursor.size) :=
    earlier.later (.binary Binding.loosest) place shorter depth
  rw [Phrase.entry]
  apply Follows.after_ok (run_atSymbolKey stands)
  cases found : cursor.symbolKey? with
  | some key =>
      have shorter := key.shorter
      rcases Cursor.namesKey_of_symbolKey? found with
        ⟨word, middle, takesWord, -, ⟨colon, takesColon, -⟩, -, isName⟩
      apply Follows.advance takesWord stands
      intro behindWord stands_word
      apply Follows.advance takesColon stands_word
      intro behindColon stands_colon
      rw [Outcome.result_widen, isName]
      exact .map (expressionAt key.next shorter behindColon stands_colon)
  | none =>
      have first := earlier.lower (.binary Binding.loosest) cursor (Nat.le_refl _) (by decide) depth
        parser stands
      apply Follows.andThen first
      intro node next shorter after stands_after
      apply Follows.after_ok (run_atHashSeparator stands_after)
      cases foundColon : next.separator? with
      | none => exact .yield stands_after (Entry.single node)
      | some colon =>
          have shorterColon := colon.shorter
          rcases Cursor.separates_of_separator? foundColon with ⟨-, ⟨sign, takes, -⟩, -⟩
          apply Follows.advance takes stands_after
          intro behind stands_behind
          rw [Outcome.result_widen]
          exact .map (expressionAt colon.next (by omega) behind stands_behind)

theorem agrees_expressionList
    {nodes : List Node} {run : List (Pair Node)} (earlier : input.Earlier call 5 cursor.size) :
    input.Agrees (step call) (.expressionList nodes run) cursor := by
  intro depth parser stands
  have entryAt := earlier.lower .entry cursor (Nat.le_refl _) (by decide) depth parser stands
  rw [Phrase.entries, Outcome.map_andThen]
  apply Follows.andThen entryAt
  intro first next shorter after stands_after
  cases found : next.accept? (.mark .comma) with
  | none =>
      apply Follows.unmatched found (by simp) stands_after
      cases first with
      | single node => exact .done stands_after
      | pair both => exact .done stands_after
  | some comma =>
      have shorterComma := comma.shorter
      apply Follows.matched (Cursor.accepts_of_accept? found) stands_after
      intro behind stands_behind
      have further (nodes : List Node) (run : List (Pair Node)) :=
        earlier.later (.expressionList nodes run) comma.next (by omega) depth behind stands_behind
      rw [Outcome.map_widen, Outcome.result_widen, Outcome.map_map]
      cases first with
      | single node => exact further (Entry.withRun nodes run ++ [node]) []
      | pair both => exact further nodes (run ++ [both])

/-- The pairs of a hash, behind some of them. -/
theorem follows_pairs
    (before : List (Pair Node)) (later : input.Later call size) (shorter : cursor.size < size)
    (stands : input.Stands 0 cursor parser) :
    input.Follows 0 ((Phrase.pairs cursor).map fun list => .hash (before ++ list)).result
      ((hashElement call >>= fun both => call (.hashTail (before ++ [both]))).run parser) := by
  have entryAt := later .entry cursor shorter 0 parser stands
  rw [Phrase.pairs, Outcome.map_andThen, hashElement, run_bind_assoc]
  apply Follows.andThen entryAt
  intro first next shorterNext after stands_after
  cases first with
  | single node => exact .refuse_bind stands_after (by simp) (run_unexpected stands_after)
  | pair both =>
      exact later (.hashTail (before ++ [both])) next (by omega) before both after rfl stands_after

theorem agrees_hashTail
    {before : List (Pair Node)} (later : input.Later call cursor.size) :
    input.Agrees (step call) (.hashTail before) cursor := by
  intro front first parser isBefore stands
  rw [Phrase.morePairs]
  cases found : cursor.accept? (.mark .comma) with
  | none =>
      apply Follows.unmatched found (by simp) stands
      rw [isBefore]
      exact .done stands
  | some comma =>
      apply Follows.matched (Cursor.accepts_of_accept? found) stands
      intro after stands_after
      have regrouped : (fun list => Node.hash (front ++ list)) ∘ (first :: ·) =
          fun list => .hash (before ++ list) := by
        funext list
        simp [isBefore]
      rw [Outcome.map_widen, Outcome.result_widen, Outcome.map_map, regrouped]
      exact follows_pairs before later comma.shorter stands_after

theorem follows_hashLiteral
    (takes : cursor.Takes token next) (later : input.Later call cursor.size)
    (stands : input.Stands depth cursor parser) :
    input.Follows depth (Phrase.hash next).result ((hashLiteral call).run parser) := by
  have shorter := takes.size_lt
  rw [Phrase.hash]
  apply Follows.advance takes stands
  intro after stands_after
  cases found : next.accept? (.mark .rightBrace) with
  | some closed =>
      exact .matched (Cursor.accepts_of_accept? found) stands_after fun behind stands_behind =>
        .done stands_behind
  | none =>
      apply Follows.unmatched found (by simp) stands_after
      apply Follows.andThen_as (.nested stands_after fun _ => follows_pairs [] later shorter)
      intro list last shorterLast behind stands_behind
      rw [Outcome.result_relax]
      exact .close stands_behind (by simp) (by simp)

/-- The expressions in brackets or parentheses. -/
theorem follows_listUpTo
    {closer : Mark} (takes : cursor.Takes token next) (later : input.Later call cursor.size)
    (stands : input.Stands depth cursor parser) :
    input.Follows depth (Phrase.enclosed closer next).result
      ((listUpTo call closer).run parser) := by
  have shorter := takes.size_lt
  rw [Phrase.enclosed]
  apply Follows.advance takes stands
  intro after stands_after
  cases found : next.accept? (.mark closer) with
  | some closed =>
      exact .matched (Cursor.accepts_of_accept? found) stands_after fun behind stands_behind =>
        .done stands_behind
  | none =>
      apply Follows.unmatched found (by simp) stands_after
      have entriesAt := later (.expressionList [] []) next shorter 0
      apply Follows.andThen_as (.nested stands_after entriesAt)
      intro list last shorterLast behind stands_behind
      rw [Outcome.result_relax, Entry.collect_eq_gather]
      exact .close stands_behind (by simp) (by simp)

theorem follows_group
    (takes : cursor.Takes token next) (later : input.Later call cursor.size)
    (stands : input.Stands depth cursor parser) :
    input.Follows depth (Phrase.group next).result ((group call).run parser) := by
  have shorter := takes.size_lt
  rw [Phrase.group]
  apply Follows.advance takes stands
  intro after stands_after
  have expressionAt := later (.binary Binding.loosest) next shorter 0
  apply Follows.andThen (.nested stands_after expressionAt)
  intro inner last shorterLast behind stands_behind
  rw [Outcome.result_relax]
  exact .close stands_behind (by simp) (by simp)

/-! ## Operators -/

theorem agrees_binary {level : Nat} (earlier : input.Earlier call 3 cursor.size) :
    input.Agrees (step call) (.binary level) cursor := by
  intro depth parser stands
  have operandAt := earlier.lower .unary cursor (Nat.le_refl _) (by decide) depth parser stands
  rw [Phrase.binary]
  apply Follows.andThen operandAt
  intro left next shorter after stands_after
  exact earlier.later (.climb level left) next shorter depth after stands_after

theorem agrees_climb {level : Nat} {left : Node} (later : input.Later call cursor.size) :
    input.Agrees (step call) (.climb level left) cursor := by
  intro depth parser stands
  rw [Phrase.climb]
  apply Follows.after_ok (run_peekBinaryOperator stands)
  cases found : cursor.binary? with
  | none => exact .yield stands left
  | some sign =>
      have shorter := sign.shorter
      simp only [Option.map_some]
      by_cases looser : sign.binding.level < level
      · rw [if_pos looser, if_pos looser]
        exact .yield stands left
      · rw [if_neg looser, if_neg looser, Outcome.result_widen]
        rcases Cursor.continues_of_binary? found with ⟨-, ⟨_, takes, -⟩, -⟩
        apply Follows.advance takes stands
        intro after stands_after
        have operandAt := later (.binary sign.binding.operandLevel) sign.next shorter depth
        apply Follows.andThen (operandAt after stands_after)
        intro right last shorterLast behind stands_behind
        have further := later (.climb level (.binary sign.operator left right)) last (by omega)
          depth behind stands_behind
        unfold Cursor.chained?
        cases isNone : sign.binding.associativity with
        | none =>
            simp only [if_true]
            apply Follows.after_ok (run_peekBinaryOperator stands_behind)
            cases last.binary? with
            | none => exact further
            | some again =>
                simp only [Option.map_some]
                by_cases same : again.binding.level = sign.binding.level
                · simp only [same, if_true]
                  rw [run_nonAssociative stands_behind]
                  exact .refused stands_behind (by simp [Refusal.wanted])
                · simp only [same, if_false]
                  exact further
        | _ =>
            simp only [reduceCtorEq, if_false]
            exact further

theorem agrees_unary (earlier : input.Earlier call 2 cursor.size) :
    input.Agrees (step call) .unary cursor := by
  intro depth parser stands
  have operandAt := earlier.lower .primary cursor (Nat.le_refl _) (by decide) depth parser stands
  rw [Phrase.unary]
  cases found : cursor.take? with
  | none =>
      have noSign : cursor.unary? = none := by rw [Cursor.unary?, found]
      rw [noSign]
      apply Follows.peek_end found stands
      intro token isEnd _
      rw [isEnd]
      exact operandAt
  | some taken =>
      have takes := Cursor.takes_of_take? found
      apply Follows.peek takes stands
      unfold Cursor.unary?
      rw [found]
      cases isKind : taken.token.kind with
      | operator sign =>
          simp only [isKind]
          cases isUnary : sign.isUnary with
          | false => exact operandAt
          | true =>
              apply Follows.advance takes stands
              intro after stands_after
              simp only [if_true, Outcome.result_widen]
              exact .map (earlier.later .unary taken.next taken.shorter depth after stands_after)
      | _ =>
          simp only [isKind]
          exact operandAt

/-! ## Literals -/

theorem follows_string
    {text : String} (takes : cursor.Takes token next) (isText : token.kind = .fragment text)
    (later : input.Later call cursor.size) (stands : input.Stands depth cursor parser) :
    input.Follows depth ((Phrase.stringParts text next).map StringParts.node).result
      ((string call).run parser) := by
  apply Follows.advance takes stands
  intro after stands_after
  rw [isText]
  exact later (.stringParts text []) next takes.size_lt depth after stands_after

theorem agrees_stringParts
    {text : String} {before : List Node} (later : input.Later call cursor.size) :
    input.Agrees (step call) (.stringParts text before) cursor := by
  intro depth parser stands
  have ended : input.Follows depth
      (((cursor.yield (.last text)).map (StringParts.nodeBehind before)).result)
      ((pure (stringNode text before) : Machine Node).run parser) :=
    .done stands
  rw [Phrase.stringParts]
  cases found : cursor.take? with
  | none =>
      apply Follows.peek_end found stands
      intro token isEnd _
      rw [isEnd]
      exact ended
  | some taken =>
      have takes := Cursor.takes_of_take? found
      have shorter := taken.shorter
      apply Follows.peek takes stands
      cases isKind : taken.token.kind with
      | fragment more =>
          cases isSpaced : taken.token.spaced with
          | true =>
              simp only [isKind, isSpaced]
              exact ended
          | false =>
              simp only [isKind, isSpaced]
              apply Follows.advance takes stands
              intro after stands_after
              rw [Outcome.map_widen, Outcome.result_widen]
              exact later (.stringParts (text ++ more) before) taken.next shorter depth after
                stands_after
      | interpolationStart =>
          simp only [isKind]
          apply Follows.advance takes stands
          intro after stands_after
          rw [Outcome.map_widen, Outcome.result_widen, Outcome.map_andThen]
          have expressionAt := later (.binary Binding.loosest) taken.next shorter 0
          apply Follows.andThen (.nested stands_after expressionAt)
          intro inner last shorterLast behind stands_behind
          rw [Outcome.relax, Outcome.map_widen, Outcome.result_widen, Outcome.map_andThen]
          apply Follows.andThen (.expect stands_behind (by simp) (by simp))
          intro _ rest shorterRest ended stands_ended
          have further := later (.stringParts "" (before ++ [.text text, .interpolation inner]))
            rest (by omega) depth ended stands_ended
          rw [Outcome.map_map]
          simpa only [Function.comp_def, StringParts.nodeBehind_insertion] using further
      | _ =>
          simp only [isKind]
          exact ended

theorem follows_symbol
    (takes : cursor.Takes token next) (later : input.Later call cursor.size)
    (stands : input.Stands depth cursor parser) :
    input.Follows depth (Phrase.symbol next).result ((symbol call).run parser) := by
  have shorter := takes.size_lt
  rw [Phrase.symbol]
  apply Follows.advance takes stands
  intro after stands_after
  cases found : next.take? with
  | none =>
      apply Follows.peek_end found stands_after
      intro token isEnd sameSpaced
      rw [sameSpaced, isEnd]
      cases next.peek.spaced with
      | true => exact .refuse stands_after (by simp)
      | false => exact .refuse stands_after (by simp)
  | some taken =>
      have takesName := Cursor.takes_of_take? found
      have isPeek := takesName.peek
      apply Follows.peek takesName stands_after
      rw [isPeek]
      cases taken.token.spaced with
      | true => exact .refuse stands_after (by simp)
      | false =>
          rw [if_neg Bool.false_ne_true, if_neg Bool.false_ne_true]
          cases isKind : taken.token.kind with
          | fragment text =>
              simp only [isKind]
              rw [Outcome.result_widen]
              have named : input.Follows depth
                  (((Phrase.stringParts text taken.next).map StringParts.node).map
                    Node.symbol).result
                  ((string call >>= fun node => pure (Node.symbol node)).run after) :=
                .map (follows_string takesName isKind (later.mono (Nat.le_of_lt shorter))
                  stands_after)
              rw [Outcome.map_map] at named
              exact named
          | identifier | keyword | constant =>
              simp only [isKind]
              exact .advance takesName stands_after fun behind stands_behind => .done stands_behind
          | _ =>
              simp only [isKind]
              exact .refuse stands_after (by simp)

/-! ## Definitions -/

theorem follows_constant (stands : input.Stands depth cursor parser) :
    input.Follows depth cursor.constant.result (Machine.constant.run parser) := by
  unfold Cursor.constant
  cases found : cursor.take? with
  | none =>
      apply Follows.peek_end found stands
      intro token isEnd _
      rw [isEnd]
      exact .refuse stands (by simp)
  | some taken =>
      have takes := Cursor.takes_of_take? found
      apply Follows.peek takes stands
      cases isKind : taken.token.kind with
      | constant name =>
          simp only [isKind]
          exact .advance takes stands fun after stands_after => .done stands_after
      | _ =>
          simp only [isKind]
          exact .refuse stands (by simp)

theorem follows_superclass (stands : input.Stands depth cursor parser) :
    input.Follows depth cursor.superclass.result (superclass.run parser) := by
  unfold Cursor.superclass
  cases found : cursor.accept? (.operator .less) with
  | none => exact .unmatched found (by simp) stands (.yield stands none)
  | some sign =>
      apply Follows.matched (Cursor.accepts_of_accept? found) stands
      intro after stands_after
      rw [Outcome.result_widen]
      exact .map (follows_constant stands_after)

theorem follows_classDefinition
    (takes : cursor.Takes token next) (later : input.Later call cursor.size)
    (stands : input.Stands depth cursor parser) :
    input.Follows depth (Phrase.classDefinition next).result
      ((classDefinition call).run parser) := by
  have shorter := takes.size_lt
  rw [Phrase.classDefinition]
  apply Follows.advance takes stands
  intro after stands_after
  apply Follows.andThen (follows_constant stands_after)
  intro name second shorterSecond behind stands_behind
  apply Follows.andThen (follows_superclass stands_behind)
  intro base third shorterThird ended stands_ended
  exact .map (follows_indentedContents later (by omega) stands_ended)

theorem follows_moduleDefinition
    (takes : cursor.Takes token next) (later : input.Later call cursor.size)
    (stands : input.Stands depth cursor parser) :
    input.Follows depth (Phrase.moduleDefinition next).result
      ((moduleDefinition call).run parser) := by
  have shorter := takes.size_lt
  rw [Phrase.moduleDefinition]
  apply Follows.advance takes stands
  intro after stands_after
  apply Follows.andThen (follows_constant stands_after)
  intro name second shorterSecond behind stands_behind
  exact .map (follows_indentedContents later (by omega) stands_behind)

theorem follows_splatName (stands : input.Stands depth cursor parser) :
    input.Follows depth cursor.splatName.result
      ((consumeIdentifier [.parameterName] >>= fun name => pure (Parameter.splat name)).run
        parser) := by
  have isKind := cursor.peek_kind_eq
  unfold Cursor.splatName
  cases found : cursor.take? with
  | none =>
      rw [found] at isKind
      exact .refuse_bind stands (by simp) (run_consumeIdentifier_of_ne stands (by simp [isKind]))
  | some taken =>
      rw [found] at isKind
      cases isName : taken.token.kind with
      | identifier name =>
          have accepts : cursor.Accepts (.identifier name) taken.next :=
            ⟨taken.token, Cursor.takes_of_take? found, isName⟩
          simp only [isName]
          exact .identifier accepts stands fun after stands_after => .done stands_after
      | _ =>
          simp only [isName]
          exact .refuse_bind stands (by simp)
            (run_consumeIdentifier_of_ne stands (by simp [isKind, isName]))

theorem follows_parameterValue
    (name : String) (later : input.Later call size) (shorter : cursor.size < size)
    (stands : input.Stands 0 cursor parser) :
    input.Follows 0 (Phrase.parameterValue name cursor).result
      ((parameterValue call name).run parser) := by
  rw [Phrase.parameterValue, Machine.parameterValue]
  cases bareName? name with
  | some bare =>
      simp only [Outcome.result_relax]
      exact .map (later (.binary Binding.loosest) cursor shorter 0 parser stands)
  | none =>
      simp only
      cases foundAssign : cursor.accept? (.operator .assign) with
      | some assign =>
          have shorterSign := assign.shorter
          apply Follows.matched (Cursor.accepts_of_accept? foundAssign) stands
          intro after stands_after
          simp only [Outcome.result_widen]
          exact .map (later (.binary Binding.loosest) assign.next (by omega) 0 after stands_after)
      | none =>
          apply Follows.unmatched foundAssign (by simp) stands
          simp only
          cases foundColon : cursor.accept? (.mark .colon) with
          | some colon =>
              have shorterSign := colon.shorter
              apply Follows.matched (Cursor.accepts_of_accept? foundColon) stands
              intro after stands_after
              simp only [Outcome.result_widen]
              exact .map (later (.binary Binding.loosest) colon.next (by omega) 0 after
                stands_after)
          | none =>
              apply Follows.unmatched foundColon (by simp) stands
              exact .yield stands (Parameter.plain name)

theorem follows_parameter
    (later : input.Later call size) (le : cursor.size ≤ size)
    (stands : input.Stands 0 cursor parser) :
    input.Follows 0 (Phrase.parameter cursor).result ((parameter call).run parser) := by
  have isPeek := cursor.peek_kind_eq
  rw [Phrase.parameter]
  by_cases isStar : cursor.peek.kind = .operator .star
  · rcases Cursor.accepts_of_peek_kind isStar (by simp) with ⟨next, accepts⟩
    rcases Cursor.take?_of_accepts accepts with ⟨taken, found, isKind, rfl⟩
    rw [found]
    simp only [isKind, Outcome.result_widen]
    exact .matched accepts stands fun after stands_after => follows_splatName stands_after
  · apply Follows.unmatched (Cursor.accept?_eq_none isStar) (by simp) stands
    cases found : cursor.take? with
    | none =>
        rw [found] at isPeek
        exact .refuse_bind stands (by simp) (run_consumeIdentifier_of_ne stands (by simp [isPeek]))
    | some taken =>
        have shorter := taken.shorter
        rw [found] at isPeek
        have refused (unnamed : ∀ name, taken.token.kind ≠ .identifier name) :
            input.Follows 0 (cursor.refuse [.parameter] : Outcome cursor.size _).result
              ((consumeIdentifier [.parameter] >>= parameterValue call).run parser) :=
          .refuse_bind stands (by simp)
            (run_consumeIdentifier_of_ne stands (by simpa only [isPeek] using unnamed))
        cases isKind : taken.token.kind with
        | identifier name =>
            have accepts : cursor.Accepts (.identifier name) taken.next :=
              ⟨taken.token, Cursor.takes_of_take? found, isKind⟩
            simp only [isKind, Outcome.result_widen]
            exact .identifier accepts stands fun after stands_after =>
              follows_parameterValue name later (by omega) stands_after
        | operator sign =>
            cases sign with
            | star => exact absurd (isPeek.trans isKind) isStar
            | _ =>
                simp only [isKind]
                exact refused (by simp [isKind])
        | _ =>
            simp only [isKind]
            exact refused (by simp [isKind])

/-- The parameters, behind some of them. -/
theorem follows_parameterList
    (before : List (Parameter Node)) (later : input.Later call size) (shorter : cursor.size < size)
    (stands : input.Stands 0 cursor parser) :
    input.Follows 0 ((Phrase.parameterList cursor).map (before ++ ·)).result
      ((parameter call >>= fun next => call (.parameterTail (before ++ [next]))).run parser) := by
  rw [Phrase.parameterList, Outcome.map_andThen]
  apply Follows.andThen (follows_parameter later (Nat.le_of_lt shorter) stands)
  intro first next shorterNext after stands_after
  have further := later (.parameterTail (before ++ [first])) next (by omega) after stands_after
  unfold Cursor.moreParameters at further
  cases found : next.accept? (.mark .comma) with
  | none =>
      rw [found] at further
      exact further
  | some comma =>
      rw [found] at further
      simp only [Outcome.map_widen, Outcome.result_widen, Outcome.map_map] at further ⊢
      simpa only [Function.comp_def, List.append_assoc, List.singleton_append] using further

theorem agrees_parameterTail
    {before : List (Parameter Node)} (later : input.Later call cursor.size) :
    input.Agrees (step call) (.parameterTail before) cursor := by
  intro parser stands
  unfold Cursor.moreParameters
  cases found : cursor.accept? (.mark .comma) with
  | none => exact .unmatched found (by simp) stands (.yield stands before)
  | some comma =>
      apply Follows.matched (Cursor.accepts_of_accept? found) stands
      intro after stands_after
      rw [Outcome.result_widen]
      exact follows_parameterList before later comma.shorter stands_after

theorem follows_parametersIfAny
    (later : input.Later call size) (le : cursor.size ≤ size)
    (stands : input.Stands depth cursor parser) :
    input.Follows depth (Phrase.parameters cursor).result ((parametersIfAny call).run parser) := by
  rw [Phrase.parameters]
  cases found : cursor.accept? (.mark .leftParen) with
  | none => exact .unchecked found (by simp) stands (.yield stands [])
  | some opened =>
      have shorterOpened := opened.shorter
      have accepts := Cursor.accepts_of_accept? found
      apply Follows.checked accepts stands
      apply Follows.consumed accepts stands
      intro after stands_after
      simp only
      cases foundClosed : opened.next.accept? (.mark .rightParen) with
      | some closed =>
          exact .matched (Cursor.accepts_of_accept? foundClosed) stands_after
            fun behind stands_behind => .done stands_behind
      | none =>
          apply Follows.unmatched foundClosed (by simp) stands_after
          rw [Outcome.result_widen]
          apply Follows.andThen_as (.nested stands_after fun _ =>
            follows_parameterList [] later (by omega))
          intro list last shorterLast behind stands_behind
          rw [Outcome.result_relax]
          exact .close stands_behind (by simp) (by simp)

theorem follows_definition
    (later : input.Later call size) (le : cursor.size ≤ size)
    (stands : input.Stands depth cursor parser) :
    input.Follows depth (Phrase.definition cursor).result ((definition call).run parser) := by
  rw [Phrase.definition]
  apply Follows.andThen (follows_parametersIfAny later le stands)
  intro list next shorter after stands_after
  exact .map (follows_indentedContents later (by omega) stands_after)

theorem follows_block
    (accepts : cursor.Accepts (.mark .blockArrow) next) (later : input.Later call size)
    (le : cursor.size ≤ size) (stands : input.Stands depth cursor parser) :
    input.Follows depth (Phrase.definition next).result ((block call).run parser) := by
  have shorter := accepts.size_lt
  exact .consumed accepts stands fun after stands_after =>
    follows_definition later (by omega) stands_after

/-! ## Calls -/

theorem follows_commandArguments
    (later : input.Later call size) (shorter : cursor.size < size)
    (stands : input.Stands depth cursor parser) :
    input.Follows depth ((Phrase.entries true cursor).map Entry.gather).result
      ((commandArguments call).run parser) := by
  rw [← Entry.collect_eq_gather]
  exact .inCommand stands (later (.expressionList [] []) cursor shorter (depth + 1))

theorem follows_arguments
    (later : input.Later call size) (shorter : cursor.size < size)
    (stands : input.Stands depth cursor parser) :
    input.Follows depth (Phrase.arguments cursor).result ((arguments call).run parser) := by
  have command := follows_commandArguments later shorter stands
  rw [Phrase.arguments]
  cases found : cursor.accept? (.mark .leftParen) with
  | none =>
      apply Follows.unchecked found (by simp) stands
      apply Follows.after_ok (run_atCommandArgument stands)
      cases cursor.atArgument with
      | true =>
          simp only [if_true, Outcome.result_relax]
          exact command
      | false => exact .yield stands []
  | some opened =>
      have accepts := Cursor.accepts_of_accept? found
      apply Follows.checked accepts stands
      rcases accepts with ⟨token, takes, -⟩
      have isPeek := takes.peek
      have list : input.Follows depth (Phrase.enclosed .rightParen opened.next).result
          ((listUpTo call .rightParen).run parser) :=
        follows_listUpTo takes (later.mono (Nat.le_of_lt shorter)) stands
      apply Follows.peek takes stands
      rw [isPeek]
      cases token.spaced with
      | false =>
          simp only [Bool.false_and, Bool.false_eq_true, if_false, Outcome.result_widen]
          exact list
      | true =>
          apply Follows.after_ok (run_continuesAfterParens stands)
          cases cursor.continuesBehindParens with
          | true =>
              simp only [Bool.and_true, if_true, Outcome.result_relax]
              exact command
          | false =>
              simp only [Bool.and_false, Bool.false_eq_true, if_false, Outcome.result_widen]
              exact list

theorem follows_methodDefinition
    {name : String} {last : Cursor} (accepts : cursor.Accepts (.identifier name) next)
    (isArrow : next.Accepts (.mark .arrow) last) (later : input.Later call cursor.size)
    (stands : input.Stands depth cursor parser) :
    input.Follows depth ((Phrase.definition last).map (.method name)).result
      ((methodDefinition call).run parser) := by
  have shorter := accepts.size_lt
  have shorterArrow := isArrow.size_lt
  apply Follows.identifier accepts stands
  intro after stands_after
  apply Follows.consumed isArrow stands_after
  intro behind stands_behind
  exact .map (follows_definition later (by omega) stands_behind)

/-- The end of a call behind its arguments. -/
theorem follows_trailingBlock
    (name : String) (list : List Node) (later : input.Later call size) (le : cursor.size ≤ size)
    (stands : input.Stands depth cursor parser) :
    input.Follows depth (Phrase.trailingBlock (isCommand depth) name list cursor).result
      ((trailingBlock call name list).run parser) := by
  rw [Phrase.trailingBlock.eq_def]
  apply Follows.after_ok (run_state parser)
  rw [stands.depth_eq]
  cases depth with
  | succ outer => exact .yield stands (Node.call name list none)
  | zero =>
      cases found : cursor.accept? (.mark .blockArrow) with
      | none =>
          exact .unchecked found (by simp) stands (.yield stands (Node.call name list none))
      | some arrow =>
          have accepts := Cursor.accepts_of_accept? found
          apply Follows.checked accepts stands
          simp only [isCommand, Outcome.result_widen, if_true]
          exact .map (follows_block accepts later le stands)

theorem follows_callOrBlock
    {name : String} (accepts : cursor.Accepts (.identifier name) next)
    (noArrow : next.accept? (.mark .arrow) = none) (later : input.Later call cursor.size)
    (stands : input.Stands depth cursor parser) :
    input.Follows depth (Phrase.named (isCommand depth) name next).result
      ((callOrBlock call).run parser) := by
  have shorter := accepts.size_lt
  rw [Phrase.named, noArrow]
  apply Follows.identifier accepts stands
  intro after stands_after
  apply Follows.andThen (follows_arguments later shorter stands_after)
  intro list last shorterLast behind stands_behind
  exact follows_trailingBlock name list later (by omega) stands_behind

theorem follows_named
    {name : String} (takes : cursor.Takes token next) (isName : token.kind = .identifier name)
    (later : input.Later call cursor.size) (stands : input.Stands depth cursor parser) :
    input.Follows depth (Phrase.named (isCommand depth) name next).result
      ((named call).run parser) := by
  have oneAhead : 1 ≤ cursor.size := Nat.one_le_of_lt takes.size_lt
  have accepts : cursor.Accepts (.identifier name) next := ⟨token, takes, isName⟩
  rcases run_peekAt stands 1 with ⟨second, ran, alike⟩
  have isSecond : second.kind = next.peek.kind := by
    rw [(alike oneAhead).kind, takes.peekAt_succ]
    rfl
  apply Follows.after_ok ran
  rw [isSecond]
  cases found : next.accept? (.mark .arrow) with
  | none =>
      rw [if_neg (Cursor.peek_kind_ne_of_accept? found (by simp))]
      exact follows_callOrBlock accepts found later stands
  | some arrow =>
      have isArrow := Cursor.accepts_of_accept? found
      rw [if_pos isArrow.peek_kind, Phrase.named, found]
      simp only [Outcome.result_widen]
      exact follows_methodDefinition accepts isArrow later stands

/-! ## Expressions that are not made by operators -/

theorem agrees_primary (later : input.Later call cursor.size) :
    input.Agrees (step call) .primary cursor := by
  intro depth parser stands
  rw [Phrase.primary]
  cases found : cursor.take? with
  | none =>
      apply Follows.peek_end found stands
      intro token isEnd _
      rw [isEnd]
      exact .refuse stands (by simp)
  | some taken =>
      have takes := Cursor.takes_of_take? found
      apply Follows.peek takes stands
      have refused : input.Follows depth
          (cursor.refuse [.expression] : Outcome cursor.size Node).result
          ((unexpected [.expression] : Machine Node).run parser) :=
        .refuse stands (by simp)
      cases isKind : taken.token.kind with
      | integer value =>
          simp only [isKind]
          exact .advance takes stands fun after stands_after => .done stands_after
      | float value =>
          simp only [isKind]
          exact .advance takes stands fun after stands_after => .done stands_after
      | constant name =>
          simp only [isKind]
          exact .advance takes stands fun after stands_after => .done stands_after
      | fragment text =>
          simp only [isKind, Outcome.result_widen]
          exact follows_string takes isKind later stands
      | identifier name =>
          simp only [isKind, Outcome.result_widen]
          exact follows_named takes isKind later stands
      | keyword word =>
          cases word with
          | classWord =>
              simp only [isKind, Outcome.result_widen]
              exact follows_classDefinition takes later stands
          | moduleWord =>
              simp only [isKind, Outcome.result_widen]
              exact follows_moduleDefinition takes later stands
      | mark sign =>
          cases sign with
          | colon =>
              simp only [isKind, Outcome.result_widen]
              exact follows_symbol takes later stands
          | leftBracket =>
              simp only [isKind, Outcome.result_widen]
              exact .map (follows_listUpTo takes later stands)
          | leftBrace =>
              simp only [isKind, Outcome.result_widen]
              exact follows_hashLiteral takes later stands
          | leftParen =>
              simp only [isKind, Outcome.result_widen]
              exact follows_group takes later stands
          | blockArrow =>
              simp only [isKind, Outcome.result_widen]
              exact .map (follows_block ⟨taken.token, takes, isKind⟩ later (Nat.le_refl _) stands)
          | _ =>
              simp only [isKind]
              exact refused
      | _ =>
          simp only [isKind]
          exact refused

/-! ## Every function -/

/-- The functions of the grammar read what the phrases read, as soon as the fuel is enough for the
tokens that are left. -/
theorem agrees_exec (input : Input) (fuel : Nat) :
    ∀ production cursor, 8 * cursor.size + production.rank < fuel →
      input.Agrees (exec fuel) production cursor := by
  induction fuel with
  | zero =>
      intro production cursor enough
      omega
  | succ fuel inductionHypothesis =>
      intro production cursor enough
      have later : input.Later (exec fuel) cursor.size := by
        intro other place shorter
        -- Behind a token the rank may grow again, but by less than that token counts.
        have bound : other.rank ≤ 7 := other.rank_le
        exact inductionHypothesis other place (by omega)
      have earlier : input.Earlier (exec fuel) production.rank cursor.size := by
        refine ⟨later, fun other place le lower => ?_⟩
        exact inductionHypothesis other place (by omega)
      cases production with
      | statements before => exact agrees_statements earlier
      | bodyStatements before => exact agrees_bodyStatements earlier
      | statement => exact agrees_statement earlier
      | entry => exact agrees_entry earlier
      | expressionList nodes run => exact agrees_expressionList earlier
      | hashTail before => exact agrees_hashTail later
      | binary level => exact agrees_binary earlier
      | climb level left => exact agrees_climb later
      | unary => exact agrees_unary earlier
      | primary => exact agrees_primary later
      | stringParts text before => exact agrees_stringParts later
      | parameterTail before => exact agrees_parameterTail later

end Input

end ScriptFront
