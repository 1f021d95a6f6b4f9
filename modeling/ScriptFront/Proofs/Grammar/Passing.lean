import ScriptFront.Proofs.Grammar.Completeness
import ScriptFront.Proofs.Token.Brackets

/-!
# What a phrase passes over

Every phrase is made of tokens that stand alone, of colons with something behind them, and of
brackets around further phrases.  Only a body may be left open, at the end of the tokens.
-/

namespace ScriptFront

/-- Tokens of these kinds are parts of phrases without regard to the tokens around them. -/
def Kind.standsAlone : Kind → Bool
  | .integer _ | .float _ | .fragment _ | .identifier _ | .constant _ | .keyword _ | .operator _
  | .newline => true
  | .mark .comma | .mark .arrow | .mark .blockArrow => true
  | _ => false

theorem Kind.standsAlone_of_symbolName?
    {kind : Kind} {name : String} (names : kind.symbolName? = some name) :
    kind.standsAlone = true := by
  cases kind with
  | identifier | constant | keyword => rfl
  | _ => cases names

namespace Cursor

/-- From one place to the other phrases and parts of them may be read. -/
inductive Passes : Cursor → Cursor → Prop where
  | here (cursor : Cursor) : Passes cursor cursor
  | append {cursor middle next : Cursor} (first : Passes cursor middle)
      (second : Passes middle next) : Passes cursor next
  | token {cursor next : Cursor} {token : Token} (takes : cursor.Takes token next)
      (alone : token.kind.standsAlone = true) : Passes cursor next
  | colon {cursor middle next : Cursor} (isColon : cursor.Accepts (.mark .colon) middle)
      (behind : Passes middle next) (filled : next.size < middle.size) : Passes cursor next
  | bracket {cursor start closing next : Cursor} {opener closer : Kind} {bracket : Bracket}
      (opens : cursor.Accepts opener start) (isOpener : opener.opens? = some bracket)
      (inLine : bracket ≠ .body) (inner : Passes start closing)
      (closes : closing.Accepts closer next) (isCloser : closer.closes? = some bracket) :
      Passes cursor next
  | body {cursor start closing next : Cursor} (starts : cursor.StartsBody start)
      (inner : Passes start closing) (closes : closing.Accepts .dedent next) : Passes cursor next
  | openBody {cursor start next : Cursor} (starts : cursor.StartsBody start)
      (inner : Passes start next) (isEnd : next.ahead = []) : Passes cursor next

variable {cursor middle next : Cursor} {token : Token} {kind : Kind}

theorem Accepts.passes (accepts : cursor.Accepts kind next) (alone : kind.standsAlone = true) :
    cursor.Passes next := by
  rcases accepts with ⟨token, takes, rfl⟩
  exact .token takes alone

/-- A token that stands alone in front of a part of a phrase. -/
theorem Accepts.passesThen
    (accepts : cursor.Accepts kind middle) (alone : kind.standsAlone = true)
    (behind : middle.Passes next) : cursor.Passes next :=
  (accepts.passes alone).append behind

theorem passes_skipNewlines (cursor : Cursor) : cursor.Passes cursor.skipNewlines :=
  related_skipNewlines Passes .here (fun line further => line.passesThen rfl further) cursor

/-- A key and its value. -/
theorem NamesKey.passes
    {name : String} (names : cursor.NamesKey name middle) (behind : middle.Passes next)
    (filled : next.size < middle.size) : cursor.Passes next := by
  rcases names with ⟨word, colon, takes, isWord, isColon, -⟩
  have alone : word.kind.standsAlone = true := by
    rcases isWord with ⟨text, isText⟩ | ⟨keyword, isKeyword⟩
    · rw [isText]
      rfl
    · rw [isKeyword]
      rfl
  exact .append (.token takes alone) (.colon isColon behind filled)

theorem EndsStatement.passes (ends : cursor.EndsStatement next) : cursor.Passes next := by
  rcases ends with accepts | ⟨-, -, rfl⟩
  · exact accepts.passes rfl
  · exact .here _

/-- A body ends with its dedent, or where the tokens end. -/
theorem passes_body
    {start : Cursor} (starts : cursor.StartsBody start) (inner : start.Passes next)
    (ends : next.endsStatements true = true) : cursor.Passes next.skipDedent := by
  by_cases isEnd : next.ahead = []
  · have absent : next.accept? .dedent = none := by
      refine accept?_eq_none ?_
      simp [peek, peekAt, isEnd, Ending.token]
    have stays : next.skipDedent = next := by rw [skipDedent, absent]
    rw [stays]
    exact .openBody starts inner isEnd
  · have isDedent : next.peek.kind = .dedent := by
      simpa [endsStatements, atEnd, isEnd, isAt] using ends
    rcases accepts_of_peek_kind isDedent (by simp) with ⟨last, accepts⟩
    rcases accept?_of_accepts accepts with ⟨dedent, found, rfl⟩
    have skips : next.skipDedent = dedent.next := by rw [skipDedent, found]
    rw [skips]
    exact .body starts inner accepts

end Cursor

namespace Phrase

open Cursor

/-- What a phrase passes over, apart from the mark that closes a list. -/
def Form.Passes : Form → Cursor → Cursor → Prop
  | .enclosed closer, cursor, next =>
      ∃ closing, cursor.Passes closing ∧ closing.Accepts (.mark closer) next
  | .hash, cursor, next =>
      ∃ closing, cursor.Passes closing ∧ closing.Accepts (.mark .rightBrace) next
  | .group, cursor, next =>
      ∃ closing, cursor.Passes closing ∧ closing.Accepts (.mark .rightParen) next
  | _, cursor, next => cursor.Passes next

theorem Reads.binary_size_lt
    {inCommand : Bool} {level : Nat} {cursor next : Cursor} {node : Node}
    (reads : Reads (.binary inCommand level) cursor node next) : next.size < cursor.size :=
  Outcome.size_lt_of_result (run_of_reads reads)

theorem Reads.statement_size_lt
    {cursor next : Cursor} {node : Node} (reads : Reads .statement cursor node next) :
    next.size < cursor.size := by
  have read : (Phrase.statement cursor).result = .ok (node, next) := run_of_reads reads
  exact Outcome.size_lt_of_result read

theorem Reads.symbol_size_lt
    {cursor next : Cursor} {node : Node} (reads : Reads .symbol cursor node next) :
    next.size < cursor.size := by
  cases reads with
  | symbolString _ here areParts =>
      have rest : next.size < _ + 1 := Outcome.size_lt_of_result (run_of_reads areParts)
      exact Nat.lt_of_le_of_lt (Nat.le_of_lt_succ rest) here.size_lt
  | symbolName _ here _ => exact here.size_lt

/-- Statements are read as far as there are any. -/
theorem Reads.endsStatements
    {inBody : Bool} {cursor next : Cursor} {nodes : List Node}
    (reads : Reads (.statements inBody) cursor nodes next) :
    next.endsStatements inBody = true := by
  cases reads with
  | noStatements ends => exact ends
  | @moreStatements _ _ middle _ _ _ _ isFirst areOthers =>
      have shorter : middle.size < cursor.size :=
        Nat.lt_of_lt_of_le isFirst.statement_size_lt cursor.size_skipNewlines_le
      exact areOthers.endsStatements
termination_by cursor.size

theorem Reads.passes
    {form : Form} {cursor next : Cursor} {value : form.Value}
    (reads : Reads form cursor value next) : form.Passes cursor next := by
  induction reads with
  | noStatements => exact passes_skipNewlines _
  | moreStatements _ _ _ isFirst areOthers =>
      exact (passes_skipNewlines _).append (isFirst.append areOthers)
  | statement _ _ ends isFirst whole => exact isFirst.append (whole.append ends.passes)
  | single | noBody | lastPair | stop | lastPart | noParameters | plain | withoutBlock
  | noArguments => exact .here _
  | bareHash _ areEntries => exact areEntries
  | body starts readsNodes _ areNodes => exact passes_body starts areNodes readsNodes.endsStatements
  | keyed names readsValue isValue => exact names.passes isValue readsValue.binary_size_lt
  | expression _ _ _ isNode => exact isNode
  | pair _ _ separates readsValue isKey isValue =>
      exact isKey.append (.colon separates.2.1 isValue readsValue.binary_size_lt)
  | lastEntry _ _ isFirst => exact isFirst
  | moreEntries _ comma _ isFirst areOthers =>
      exact isFirst.append (comma.passesThen rfl areOthers)
  | pairs _ _ isFirst areEntries => exact isFirst.append areEntries
  | morePairs comma _ areOthers => exact comma.passesThen rfl areOthers
  | emptyEnclosed closes | emptyHash closes => exact ⟨_, .here _, closes⟩
  | enclosed _ _ closes inner | hash _ _ closes inner | group _ closes inner =>
      exact ⟨_, inner, closes⟩
  | binary _ _ isLeft further => exact isLeft.append further
  | climb continues _ _ _ _ isRight further =>
      exact continues.2.1.passesThen rfl (isRight.append further)
  | operand _ _ isNode => exact isNode
  | unary sign _ _ isOperand => exact sign.passesThen rfl isOperand
  | integer here | float here | constant here => exact here.passes rfl
  | string here _ isRest | name here _ isRest | classWord here _ isRest
  | moduleWord here _ isRest | block here _ isRest => exact here.passesThen rfl isRest
  | colon here readsName isName => exact .colon here isName readsName.symbol_size_lt
  | brace here _ inside | array here _ inside | paren here _ inside =>
      rcases inside with ⟨closing, inner, closes⟩
      exact .bracket here rfl (by simp) inner closes rfl
  | adjacent here isText _ _ areParts =>
      refine .append (.token here ?_) areParts
      rw [isText]
      rfl
  | insertion opens _ closes _ isInner areOthers =>
      exact .append (.bracket opens rfl (by simp) isInner closes rfl) areOthers
  | symbolString _ here _ areParts => exact here.passesThen rfl areParts
  | symbolName _ here names => exact .token here (Kind.standsAlone_of_symbolName? names)
  | classDefinition names _ _ isBody => exact names.passesThen rfl isBody
  | derivedClass names derives namesBase _ isBody =>
      exact names.passesThen rfl (derives.passesThen rfl (namesBase.passesThen rfl isBody))
  | moduleDefinition names _ isBody => exact names.passesThen rfl isBody
  | definition _ _ areParameters isBody => exact areParameters.append isBody
  | emptyParameters opens closes => exact .bracket opens rfl (by simp) (.here _) closes rfl
  | parameters opens _ _ closes areParameters =>
      exact .bracket opens rfl (by simp) areParameters closes rfl
  | lastParameter _ _ isFirst => exact isFirst
  | moreParameters _ comma _ isFirst areOthers =>
      exact isFirst.append (comma.passesThen rfl areOthers)
  | splat star names => exact star.passesThen rfl (names.passes rfl)
  | parameter names _ isParameter => exact names.passesThen rfl isParameter
  | setter _ _ isValue => exact isValue
  | optional _ sign _ isValue => exact sign.passesThen rfl isValue
  | keyword _ isColon readsValue isValue => exact .colon isColon isValue readsValue.binary_size_lt
  | method arrow _ isBlock | withBlock arrow _ isBlock => exact arrow.passesThen rfl isBlock
  | call _ _ _ areArguments isNode => exact areArguments.append isNode
  | parenthesized opens _ _ areArguments =>
      rcases areArguments with ⟨closing, inner, closes⟩
      exact .bracket opens rfl (by simp) inner closes rfl
  | larger _ _ _ areArguments | command _ _ _ areArguments => exact areArguments

end Phrase

/-! ## Brackets -/

namespace Kind

theorem behind_of_standsAlone
    {kind : Kind} (alone : kind.standsAlone = true) (stack : List Bracket) :
    Bracket.behind stack kind = some stack := by
  cases kind with
  | mark sign => cases sign <;> first | rfl | cases alone
  | interpolationStart | interpolationEnd | indent | dedent => cases alone
  | _ => rfl

theorem ne_colon_of_closes?
    {kind : Kind} {bracket : Bracket} (closes : kind.closes? = some bracket) :
    kind ≠ .mark .colon := by
  rintro rfl
  cases closes

end Kind

namespace Cursor

variable {cursor middle next : Cursor} {token : Token} {kind : Kind}

theorem Accepts.ahead (accepts : cursor.Accepts kind next) :
    ∃ token, cursor.ahead = token :: next.ahead ∧ token.kind = kind := by
  rcases accepts with ⟨token, takes, isKind⟩
  exact ⟨token, takes.ahead, isKind⟩

theorem Accepts.ahead_ne_nil (accepts : cursor.Accepts kind next) : cursor.ahead ≠ [] := by
  rcases accepts.ahead with ⟨token, isAhead, -⟩
  rw [isAhead]
  exact List.cons_ne_nil _ _

theorem ahead_skipNewlines (cursor : Cursor) :
    ∃ lines, cursor.ahead = lines ++ cursor.skipNewlines.ahead ∧
      cursor.skipNewlines.ending = cursor.ending ∧ ∀ token ∈ lines, token.kind = .newline := by
  refine related_skipNewlines (fun cursor next => ∃ lines, cursor.ahead = lines ++ next.ahead ∧
    next.ending = cursor.ending ∧ ∀ token ∈ lines, token.kind = .newline)
    (fun _ => ⟨[], rfl, rfl, by simp⟩) ?_ cursor
  rintro cursor line last accepts ⟨lines, isRest, sameEnding, areNewlines⟩
  rcases accepts.ahead with ⟨token, isAhead, isNewline⟩
  refine ⟨token :: lines, ?_, sameEnding.trans accepts.ending, ?_⟩
  · rw [isAhead, isRest]
    rfl
  · exact List.forall_mem_cons.2 ⟨isNewline, areNewlines⟩

/-- A body stands behind newlines and its indent. -/
theorem StartsBody.ahead (starts : cursor.StartsBody next) :
    ∃ newline lines indent, cursor.ahead = newline :: lines ++ indent :: next.ahead ∧
      next.ending = cursor.ending ∧ (∀ token ∈ newline :: lines, token.kind = .newline) ∧
        indent.kind = .indent := by
  rcases starts with ⟨line, isLine, isIndent⟩
  rcases isLine.ahead with ⟨newline, isAhead, isNewline⟩
  rcases ahead_skipNewlines line with ⟨lines, isRest, sameEnding, areNewlines⟩
  rcases isIndent.ahead with ⟨indent, isBehind, isKind⟩
  refine ⟨newline, lines, indent, ?_, ?_, ?_, isKind⟩
  · rw [isAhead, isRest, isBehind]
    rfl
  · rw [isIndent.ending, sameEnding, isLine.ending]
  · exact List.forall_mem_cons.2 ⟨isNewline, areNewlines⟩

/-- Where no token is an indent no body starts. -/
theorem bodyStart?_of_noIndent (noIndent : ∀ token ∈ cursor.ahead, token.kind ≠ .indent) :
    cursor.bodyStart? = none := by
  refine bodyStart?_eq_none ?_
  intro next starts
  rcases starts.ahead with ⟨newline, lines, indent, isAhead, -, -, isIndent⟩
  refine noIndent indent ?_ isIndent
  rw [isAhead]
  exact List.mem_append_right _ List.mem_cons_self

open ScriptFront.Bracket in
theorem unclosed_of_newlines
    {lines : List Token} (areNewlines : ∀ token ∈ lines, token.kind = .newline)
    (stack : List Bracket) : unclosed stack (lines.map Token.kind) = some stack := by
  induction lines with
  | nil => rfl
  | cons token others inductionHypothesis =>
      rw [List.map_cons, unclosed_cons, areNewlines token List.mem_cons_self]
      exact inductionHypothesis fun other member =>
        areNewlines other (List.mem_cons_of_mem token member)

open ScriptFront.Bracket in
/-- The tokens of a phrase close what they open, except that the bodies which the end of the tokens
closes are left open. -/
theorem Passes.leaves_bodies (passes : cursor.Passes next) :
    ∃ passed bodies, cursor.ahead = passed ++ next.ahead ∧ next.ending = cursor.ending ∧
      unclosed [] (passed.map Token.kind) = some (List.replicate bodies .body) ∧
        (next.ahead ≠ [] → bodies = 0) := by
  induction passes with
  | here => exact ⟨[], 0, rfl, rfl, rfl, fun _ => rfl⟩
  | @append cursor middle next _ _ isFirst isSecond =>
      rcases isFirst with ⟨left, outer, isLeft, sameLeft, leaves, closedLeft⟩
      rcases isSecond with ⟨right, inner, isRight, sameRight, rest, closedRight⟩
      by_cases isEnd : middle.ahead = []
      · rcases List.append_eq_nil_iff.1 (isRight.symm.trans isEnd) with ⟨rfl, isNil⟩
        refine ⟨left, outer, ?_, sameRight.trans sameLeft, leaves, fun filled => absurd isNil filled⟩
        rw [isLeft, isEnd, isNil]
      · obtain rfl := closedLeft isEnd
        refine ⟨left ++ right, inner, ?_, sameRight.trans sameLeft, ?_, closedRight⟩
        · rw [isLeft, isRight, List.append_assoc]
        · rw [List.map_append, unclosed_append, leaves]
          exact rest
  | @token _ _ token takes alone =>
      refine ⟨[token], 0, takes.ahead, takes.ending, ?_, fun _ => rfl⟩
      exact (unclosed_singleton _ _).trans (Kind.behind_of_standsAlone alone _)
  | colon isColon _ _ inner =>
      rcases isColon.ahead with ⟨colon, isAhead, isKind⟩
      rcases inner with ⟨passed, bodies, isPassed, sameEnding, leaves, closed⟩
      refine ⟨colon :: passed, bodies, ?_, sameEnding.trans isColon.ending, ?_, closed⟩
      · rw [isAhead, isPassed]
        rfl
      · rw [List.map_cons, unclosed_cons, isKind]
        exact leaves
  | bracket opens isOpener _ _ closes isCloser inner =>
      rcases opens.ahead with ⟨opener, isAhead, rfl⟩
      rcases closes.ahead with ⟨closer, isBehind, rfl⟩
      rcases inner with ⟨passed, bodies, isPassed, sameEnding, leaves, closed⟩
      obtain rfl := closed closes.ahead_ne_nil
      refine ⟨opener :: passed ++ [closer], 0, ?_, ?_, ?_, fun _ => rfl⟩
      · rw [isAhead, isPassed, isBehind]
        simp
      · rw [closes.ending, sameEnding, opens.ending]
      · rw [List.map_append]
        exact unclosed_enclosed isOpener leaves isCloser
  | body starts _ closes inner =>
      rcases starts.ahead with ⟨newline, lines, indent, isAhead, sameStart, areNewlines, isIndent⟩
      rcases closes.ahead with ⟨dedent, isBehind, isDedent⟩
      rcases inner with ⟨passed, bodies, isPassed, sameEnding, leaves, closed⟩
      obtain rfl := closed closes.ahead_ne_nil
      refine ⟨newline :: lines ++ (indent :: passed ++ [dedent]), 0, ?_, ?_, ?_, fun _ => rfl⟩
      · rw [isAhead, isPassed, isBehind]
        simp
      · rw [closes.ending, sameEnding, sameStart]
      · rw [List.map_append, unclosed_append, unclosed_of_newlines areNewlines, Option.bind_some,
          List.map_append]
        exact unclosed_enclosed (by rw [isIndent]; rfl) leaves (by rw [isDedent]; rfl)
  | openBody starts _ isEnd inner =>
      rcases starts.ahead with ⟨newline, lines, indent, isAhead, sameStart, areNewlines, isIndent⟩
      rcases inner with ⟨passed, bodies, isPassed, sameEnding, leaves, -⟩
      have inside : unclosed [.body] (passed.map Token.kind) =
          some (List.replicate bodies .body ++ [.body]) := unclosed_above leaves [.body]
      refine ⟨newline :: lines ++ indent :: passed, bodies + 1, ?_, ?_, ?_,
        fun filled => absurd isEnd filled⟩
      · rw [isAhead, isPassed]
        simp
      · rw [sameEnding, sameStart]
      · rw [List.map_append, unclosed_append, unclosed_of_newlines areNewlines, Option.bind_some,
          List.map_cons, unclosed_cons, isIndent, List.replicate_succ']
        exact inside

theorem getLast?_append_of
    {property : Token → Prop} {first second : List Token}
    (ofFirst : ∀ token, first.getLast? = some token → property token)
    (ofSecond : ∀ token, second.getLast? = some token → property token) :
    ∀ token, (first ++ second).getLast? = some token → property token := by
  intro token isLast
  rw [List.getLast?_append] at isLast
  cases found : second.getLast? with
  | none =>
      rw [found] at isLast
      exact ofFirst token isLast
  | some other =>
      rw [found] at isLast
      exact ofSecond token (found.trans isLast)

theorem Passes.passed (passes : cursor.Passes next) :
    ∃ passed, cursor.ahead = passed ++ next.ahead ∧ next.ending = cursor.ending := by
  rcases passes.leaves_bodies with ⟨passed, -, isPassed, sameEnding, -⟩
  exact ⟨passed, isPassed, sameEnding⟩

/-- No phrase ends with a colon. -/
theorem Passes.last_ne_colon (passes : cursor.Passes next) :
    ∃ passed, cursor.ahead = passed ++ next.ahead ∧
      ∀ token, passed.getLast? = some token → token.kind ≠ .mark .colon := by
  have single {token : Token} (differs : token.kind ≠ .mark .colon) :
      ∀ other, [token].getLast? = some other → other.kind ≠ .mark .colon := by
    intro other isLast
    exact Option.some.inj isLast ▸ differs
  induction passes with
  | here => exact ⟨[], rfl, by simp⟩
  | append _ _ isFirst isSecond =>
      rcases isFirst with ⟨left, isLeft, endsLeft⟩
      rcases isSecond with ⟨right, isRight, endsRight⟩
      refine ⟨left ++ right, ?_, getLast?_append_of endsLeft endsRight⟩
      rw [isLeft, isRight, List.append_assoc]
  | @token _ _ token takes alone =>
      refine ⟨[token], takes.ahead, single ?_⟩
      intro isColon
      rw [isColon] at alone
      cases alone
  | colon isColon _ filled inner =>
      rcases isColon.ahead with ⟨colon, isAhead, -⟩
      rcases inner with ⟨passed, isPassed, ends⟩
      refine ⟨colon :: passed, by rw [isAhead, isPassed]; rfl, ?_⟩
      intro token isLast
      cases passed with
      | nil =>
          have same : Cursor.size _ = Cursor.size _ := congrArg List.length isPassed
          exact absurd same (Nat.ne_of_gt filled)
      | cons first others => exact ends token isLast
  | bracket opens _ _ _ closes isCloser inner =>
      rcases opens.ahead with ⟨opener, isAhead, -⟩
      rcases closes.ahead with ⟨closer, isBehind, rfl⟩
      rcases inner with ⟨passed, isPassed, ends⟩
      refine ⟨(opener :: passed) ++ [closer], ?_, ?_⟩
      · rw [isAhead, isPassed, isBehind]
        simp
      · rw [List.getLast?_append]
        exact single (Kind.ne_colon_of_closes? isCloser)
  | body starts _ closes inner =>
      rcases starts.ahead with ⟨newline, lines, indent, isAhead, -⟩
      rcases closes.ahead with ⟨dedent, isBehind, isDedent⟩
      rcases inner with ⟨passed, isPassed, ends⟩
      refine ⟨(newline :: lines ++ indent :: passed) ++ [dedent], ?_, ?_⟩
      · rw [isAhead, isPassed, isBehind]
        simp
      · rw [List.getLast?_append]
        exact single (by rw [isDedent]; simp)
  | openBody starts _ isEnd inner =>
      rcases starts.ahead with ⟨newline, lines, indent, isAhead, -, -, isIndent⟩
      rcases inner with ⟨passed, isPassed, ends⟩
      refine ⟨(newline :: lines ++ [indent]) ++ passed, ?_, ?_⟩
      · rw [isAhead, isPassed]
        simp
      · refine getLast?_append_of ?_ ends
        rw [List.getLast?_append]
        exact single (by rw [isIndent]; simp)

end Cursor

/-- Of the tokens ahead a phrase leaves the last ones. -/
theorem Phrase.Reads.passed
    {form : Phrase.Form} {cursor next : Cursor} {value : form.Value}
    (reads : Phrase.Reads form cursor value next) :
    ∃ passed, cursor.ahead = passed ++ next.ahead ∧ next.ending = cursor.ending := by
  have passes := reads.passes
  cases form with
  | enclosed | hash | group =>
      rcases passes with ⟨closing, inner, closes⟩
      rcases inner.passed with ⟨passed, isPassed, sameEnding⟩
      rcases closes.ahead with ⟨closer, isCloser, -⟩
      refine ⟨passed ++ [closer], ?_, closes.ending.trans sameEnding⟩
      rw [isPassed, isCloser, List.append_assoc]
      rfl
  | _ => exact passes.passed

/-! ## What all tokens ahead have in common -/

namespace Cursor

variable {cursor next : Cursor} {token : Token} {kind : Kind} {property : Token → Prop}

theorem Takes.forall_behind
    (takes : cursor.Takes token next) (all : ∀ token ∈ cursor.ahead, property token) :
    ∀ token ∈ next.ahead, property token := by
  rw [takes.ahead] at all
  exact (List.forall_mem_cons.1 all).2

theorem Accepts.forall_behind
    (accepts : cursor.Accepts kind next) (all : ∀ token ∈ cursor.ahead, property token) :
    ∀ token ∈ next.ahead, property token := by
  rcases accepts with ⟨token, takes, -⟩
  exact takes.forall_behind all

theorem StartsBody.forall_behind
    (starts : cursor.StartsBody next) (all : ∀ token ∈ cursor.ahead, property token) :
    ∀ token ∈ next.ahead, property token := by
  rcases starts.ahead with ⟨newline, lines, indent, isAhead, -⟩
  rw [isAhead] at all
  exact (List.forall_mem_cons.1 (List.forall_mem_append.1 all).2).2

theorem Passes.forall_behind
    (passes : cursor.Passes next) (all : ∀ token ∈ cursor.ahead, property token) :
    ∀ token ∈ next.ahead, property token := by
  rcases passes.passed with ⟨passed, isPassed, -⟩
  rw [isPassed] at all
  exact (List.forall_mem_append.1 all).2

end Cursor

theorem Phrase.Reads.forall_behind
    {form : Phrase.Form} {cursor next : Cursor} {value : form.Value} {property : Token → Prop}
    (reads : Phrase.Reads form cursor value next) (all : ∀ token ∈ cursor.ahead, property token) :
    ∀ token ∈ next.ahead, property token := by
  rcases reads.passed with ⟨passed, isPassed, -⟩
  rw [isPassed] at all
  exact (List.forall_mem_append.1 all).2

end ScriptFront
