import Mathlib.Data.List.Chain
import ScriptFront.Proofs.Grammar.Simulation

/-!
# What follows a phrase in its line

A phrase ends with a token that needs nothing behind it.  In front of such an end, whatever a phrase
looks up is found alike whether a closing bracket, a block or the end of the input follows.  In
front of a comma it is found alike whatever stands behind the comma.
-/

namespace ScriptFront

/-! ## The last token of a phrase -/

namespace Cursor

/-- A closing parenthesis does not stand behind an operator. -/
def NotParenBehindSign (token behind : Token) : Prop :=
  ∀ operator, token.kind = .operator operator → behind.kind ≠ .mark .rightParen

/-- No operator stands last between the two places, nor in front of a closing parenthesis there. -/
def EndsFirm (cursor next : Cursor) : Prop :=
  ∃ passed, cursor.ahead = passed ++ next.ahead ∧
    (∀ token, passed.getLast? = some token → ∀ operator, token.kind ≠ .operator operator) ∧
      passed.IsChain NotParenBehindSign

namespace EndsFirm

variable {cursor middle next : Cursor} {token : Token} {kind : Kind}

theorem refl (cursor : Cursor) : cursor.EndsFirm cursor :=
  ⟨[], rfl, by simp, .nil⟩

theorem trans (first : cursor.EndsFirm middle) (second : middle.EndsFirm next) :
    cursor.EndsFirm next := by
  rcases first with ⟨left, isLeft, firmLeft, chainLeft⟩
  rcases second with ⟨right, isRight, firmRight, chainRight⟩
  refine ⟨left ++ right, ?_, getLast?_append_of firmLeft firmRight, ?_⟩
  · rw [isLeft, isRight, List.append_assoc]
  · refine List.isChain_append.2 ⟨chainLeft, chainRight, ?_⟩
    intro token isLast behind _ operator isSign
    exact absurd isSign (firmLeft token isLast operator)

end EndsFirm

variable {cursor middle next : Cursor} {token : Token} {kind : Kind}

theorem Takes.endsFirm
    (takes : cursor.Takes token next) (firm : ∀ operator, token.kind ≠ .operator operator) :
    cursor.EndsFirm next := by
  refine ⟨[token], takes.ahead, ?_, .singleton token⟩
  intro last isLast
  exact Option.some.inj isLast ▸ firm

theorem Accepts.endsFirm
    (accepts : cursor.Accepts kind next) (firm : ∀ operator, kind ≠ .operator operator) :
    cursor.EndsFirm next := by
  rcases accepts with ⟨token, takes, rfl⟩
  exact takes.endsFirm firm

/-- An operator with something behind it. -/
theorem Accepts.endsFirm_behind
    (accepts : cursor.Accepts kind middle) (behind : middle.EndsFirm next)
    (filled : next.size < middle.size) (noParen : middle.peek.kind ≠ .mark .rightParen) :
    cursor.EndsFirm next := by
  rcases accepts.ahead with ⟨sign, isAhead, -⟩
  rcases behind with ⟨passed, isPassed, firm, chain⟩
  cases passed with
  | nil =>
      have same : middle.size = next.size := congrArg List.length isPassed
      exact absurd same (Nat.ne_of_gt filled)
  | cons first others =>
      have isFirst : middle.peek = first := by
        rw [peek, peekAt, isPassed]
        rfl
      refine ⟨sign :: first :: others, ?_, firm, ?_⟩
      · rw [isAhead, isPassed]
        rfl
      · exact .cons_cons (fun _ _ => isFirst ▸ noParen) chain

theorem endsFirm_skipNewlines (cursor : Cursor) : cursor.EndsFirm cursor.skipNewlines :=
  related_skipNewlines EndsFirm .refl
    (fun line further => (line.endsFirm (by simp)).trans further) cursor

theorem StartsBody.endsFirm (starts : cursor.StartsBody next) : cursor.EndsFirm next := by
  rcases starts with ⟨line, isLine, isIndent⟩
  have first := isLine.endsFirm (by simp)
  exact first.trans ((endsFirm_skipNewlines line).trans (isIndent.endsFirm (by simp)))

theorem endsFirm_skipDedent (cursor : Cursor) : cursor.EndsFirm cursor.skipDedent := by
  unfold skipDedent
  split
  · exact .refl cursor
  · rename_i dedent found
    exact (accepts_of_accept? found).endsFirm (by simp)

theorem NamesKey.endsFirm {name : String} (names : cursor.NamesKey name next) :
    cursor.EndsFirm next := by
  rcases names with ⟨word, middle, takes, isWord, isColon, -⟩
  refine (takes.endsFirm ?_).trans (isColon.endsFirm (by simp))
  rcases isWord with ⟨text, isText⟩ | ⟨keyword, isKeyword⟩
  · simp [isText]
  · simp [isKeyword]

theorem EndsStatement.endsFirm (ends : cursor.EndsStatement next) : cursor.EndsFirm next := by
  rcases ends with accepts | ⟨-, -, rfl⟩
  · exact accepts.endsFirm (by simp)
  · exact .refl _

end Cursor

theorem Kind.ne_rightParen_of_startsPhrase {kind : Kind} (starts : kind.startsPhrase = true) :
    kind ≠ .mark .rightParen := by
  rintro rfl
  cases starts

theorem Kind.ne_operator_of_symbolName?
    {kind : Kind} {name : String} (names : kind.symbolName? = some name) (operator : Operator) :
    kind ≠ .operator operator := by
  rintro rfl
  cases names

namespace Phrase

open Cursor

variable {cursor next : Cursor}

theorem Reads.unary_size_lt
    {inCommand : Bool} {node : Node} (reads : Reads (.unary inCommand) cursor node next) :
    next.size < cursor.size :=
  Outcome.size_lt_of_result (run_of_reads reads)

theorem Reads.primary_size_lt
    {inCommand : Bool} {node : Node} (reads : Reads (.primary inCommand) cursor node next) :
    next.size < cursor.size :=
  Outcome.size_lt_of_result (run_of_reads reads)

theorem Reads.entries_size_lt
    {inCommand : Bool} {list : List Entry} (reads : Reads (.entries inCommand) cursor list next) :
    next.size < cursor.size :=
  Outcome.size_lt_of_result (run_of_reads reads)

/-- No phrase ends with an operator, nor does a closing parenthesis follow one. -/
theorem Reads.endsFirm
    {form : Form} {value : form.Value} (reads : Reads form cursor value next) :
    cursor.EndsFirm next := by
  induction reads with
  | noStatements => exact endsFirm_skipNewlines _
  | moreStatements _ _ _ isFirst areOthers =>
      exact (endsFirm_skipNewlines _).trans (isFirst.trans areOthers)
  | statement _ _ ends isFirst whole => exact isFirst.trans (whole.trans ends.endsFirm)
  | single | noBody | lastPair | stop | lastPart | noParameters | plain | withoutBlock
  | noArguments => exact .refl _
  | bareHash _ isRest | expression _ _ _ isRest | lastEntry _ _ isRest | operand _ _ isRest
  | lastParameter _ _ isRest | setter _ _ isRest | larger _ _ _ isRest | command _ _ _ isRest =>
      exact isRest
  | body starts _ _ areNodes =>
      exact starts.endsFirm.trans (areNodes.trans (endsFirm_skipDedent _))
  | keyed names _ isValue => exact names.endsFirm.trans isValue
  | pair _ _ separates _ isKey isValue =>
      exact isKey.trans ((separates.2.1.endsFirm (by simp)).trans isValue)
  | moreEntries _ comma _ isFirst areOthers | moreParameters _ comma _ isFirst areOthers =>
      exact isFirst.trans ((comma.endsFirm (by simp)).trans areOthers)
  | pairs _ _ isFirst areOthers | binary _ _ isFirst areOthers | definition _ _ isFirst areOthers
  | call _ _ _ isFirst areOthers => exact isFirst.trans areOthers
  | emptyEnclosed closes | emptyHash closes => exact closes.endsFirm (by simp)
  | enclosed _ _ closes inner | hash _ _ closes inner | group _ closes inner =>
      exact inner.trans (closes.endsFirm (by simp))
  | climb continues _ readsRight _ _ isRight further =>
      have noParen := Kind.ne_rightParen_of_startsPhrase readsRight.binary_starts
      exact (continues.2.1.endsFirm_behind isRight readsRight.binary_size_lt noParen).trans further
  | unary sign _ readsOperand isOperand =>
      have noParen := Kind.ne_rightParen_of_startsPhrase readsOperand.unary_starts
      exact sign.endsFirm_behind isOperand readsOperand.unary_size_lt noParen
  | integer here | float here | constant here => exact here.endsFirm (by simp)
  | morePairs here _ isRest | string here _ isRest | name here _ isRest | classWord here _ isRest
  | moduleWord here _ isRest | colon here _ isRest | array here _ isRest | brace here _ isRest
  | paren here _ isRest | block here _ isRest | symbolString _ here _ isRest
  | moduleDefinition here _ isRest | classDefinition here _ _ isRest | parameter here _ isRest
  | keyword _ here _ isRest | method here _ isRest | withBlock here _ isRest
  | parenthesized here _ _ isRest => exact (here.endsFirm (by simp)).trans isRest
  | adjacent here isText _ _ areParts => exact (here.endsFirm (by simp [isText])).trans areParts
  | insertion opens _ closes _ isInner areOthers =>
      refine (opens.endsFirm (by simp)).trans (isInner.trans ?_)
      exact (closes.endsFirm (by simp)).trans areOthers
  | symbolName _ here names => exact here.endsFirm (Kind.ne_operator_of_symbolName? names)
  | derivedClass names derives namesBase _ isBody =>
      have isBase := namesBase.endsFirm (by simp)
      have isDerived := derives.endsFirm_behind isBase namesBase.size_lt
        (by simp [namesBase.peek_kind])
      exact (names.endsFirm (by simp)).trans (isDerived.trans isBody)
  | emptyParameters opens closes =>
      exact (opens.endsFirm (by simp)).trans (closes.endsFirm (by simp))
  | parameters opens _ _ closes areParameters =>
      exact (opens.endsFirm (by simp)).trans (areParameters.trans (closes.endsFirm (by simp)))
  | splat star names =>
      exact star.endsFirm_behind (names.endsFirm (by simp)) names.size_lt
        (by simp [names.peek_kind])
  | optional _ assigns readsValue isValue =>
      have noParen := Kind.ne_rightParen_of_startsPhrase readsValue.binary_starts
      exact assigns.endsFirm_behind isValue readsValue.binary_size_lt noParen

end Phrase

/-! ## What a phrase sees of it -/

/-- Behind a phrase in a line these tokens are not taken for a part of it. -/
def Kind.stopsLine : Kind → Bool
  | .interpolationEnd | .endOfInput => true
  | .mark .rightParen | .mark .rightBracket | .mark .rightBrace | .mark .blockArrow => true
  | _ => false

/-- At both of two tokens a phrase stops: where the line does, or in front of a comma that goes on
with the list around it. -/
def Kind.StopAlike (kind other : Kind) : Prop :=
  kind.stopsLine = true ∧ other.stopsLine = true ∨ kind = .mark .comma ∧ other = .mark .comma

namespace Kind.StopAlike

variable {kind other : Kind}

theorem symm (alike : kind.StopAlike other) : other.StopAlike kind :=
  alike.imp And.symm And.symm

theorem of_comma (alike : kind.StopAlike other) (isComma : kind = .mark .comma) :
    other = .mark .comma := by
  rcases alike with ⟨stops, -⟩ | ⟨-, isOther⟩
  · rw [isComma] at stops
    cases stops
  · exact isOther

/-- No phrase stops at other tokens. -/
theorem ne_of_goesOn
    {goer : Kind} (alike : kind.StopAlike other) (goesOn : goer.stopsLine = false)
    (noComma : goer ≠ .mark .comma) : kind ≠ goer := by
  rintro rfl
  rcases alike with ⟨stops, -⟩ | ⟨isComma, -⟩
  · cases stops.symm.trans goesOn
  · exact noComma isComma

end Kind.StopAlike

/-- Tokens in a line, the last of which needs nothing behind it. -/
structure Token.Firm (tokens : List Token) : Prop where
  inLine : ∀ token ∈ tokens, token.kind.isLayout = false
  noColon : ∀ token, tokens.getLast? = some token → token.kind ≠ .mark .colon
  noOperator : ∀ token, tokens.getLast? = some token → ∀ operator, token.kind ≠ .operator operator

theorem Token.Firm.of_append {front rest : List Token} (firm : Firm (front ++ rest)) :
    Firm rest := by
  have isLast {token : Token} (here : rest.getLast? = some token) :
      (front ++ rest).getLast? = some token := by
    rw [List.getLast?_append, here]
    rfl
  refine ⟨?_, ?_, ?_⟩
  · intro token member
    exact firm.inLine token (List.mem_append_right front member)
  · intro token here
    exact firm.noColon token (isLast here)
  · intro token here
    exact firm.noOperator token (isLast here)

theorem Token.Firm.tail {token : Token} {rest : List Token} (firm : Firm (token :: rest)) :
    Firm rest := by
  have whole : Firm ([token] ++ rest) := firm
  exact whole.of_append

namespace Cursor

/-- The place with further tokens in front of it. -/
def led (cursor : Cursor) (front : List Token) : Cursor :=
  ⟨front ++ cursor.ahead, cursor.ending, false⟩

/-- The same tokens of a line lie in front of either of two places where a phrase stops. -/
structure Exchanged (back other cursor again : Cursor) : Prop where
  stops : back.peek.kind.StopAlike other.peek.kind
  front : ∃ front, Token.Firm front ∧ cursor = back.led front ∧ again = other.led front

variable {back other cursor again next last : Cursor} {token : Token} {kind : Kind}

theorem atArgument_of_stopAlike {kind : Kind} (stops : cursor.peek.kind.StopAlike kind) :
    cursor.atArgument = false := by
  rcases stops with ⟨stops, -⟩ | ⟨isComma, -⟩
  · unfold Kind.stopsLine at stops
    split at stops
    case h_7 => cases stops
    all_goals
      rename_i isKind
      simp only [Cursor.atArgument, isKind, Bool.and_false]
  · simp only [Cursor.atArgument, isComma, Bool.and_false]

theorem not_continuesArgument_of_stopsLine (stops : cursor.peek.kind.stopsLine = true) :
    cursor.ahead.head?.any continuesArgument = false := by
  cases isAhead : cursor.ahead with
  | nil => rfl
  | cons token others =>
      rw [peek, peekAt, isAhead] at stops
      change continuesArgument token = false
      unfold continuesArgument
      split
      · rename_i isComma
        rw [List.getD_cons_zero, isComma] at stops
        cases stops
      · rename_i isOperator
        rw [List.getD_cons_zero, isOperator] at stops
        cases stops
      · rfl

theorem continuesArgument_of_comma (isComma : cursor.peek.kind = .mark .comma) :
    cursor.ahead.head?.any continuesArgument = true := by
  rcases accepts_of_peek_kind isComma (by simp) with ⟨next, accepts⟩
  rcases accepts.ahead with ⟨token, isAhead, isKind⟩
  rw [isAhead, List.head?_cons, Option.any_some, continuesArgument, isKind]

theorem behindParens?_length_lt
    {depth : Nat} {tokens rest : List Token} (found : behindParens? depth tokens = some rest) :
    rest.length < tokens.length := by
  induction tokens generalizing depth with
  | nil => cases found
  | cons head tail inductionHypothesis =>
      rw [behindParens?] at found
      refine Nat.lt_succ_of_le ?_
      split at found
      · exact Nat.le_of_lt (inductionHypothesis found)
      · split at found
        · split at found
          · exact Nat.le_of_eq (congrArg List.length (Option.some.inj found).symm)
          · exact Nat.le_of_lt (inductionHypothesis found)
        · exact Nat.le_of_lt (inductionHypothesis found)

theorem continuesBehindParens_eq
    {rest : List Token} (found : behindParens? 0 cursor.ahead = some rest) :
    cursor.continuesBehindParens = rest.head?.any continuesArgument := by
  rw [Cursor.continuesBehindParens, found]
  cases rest with
  | nil => rfl
  | cons => rfl

/-- A search that ends in front of the last tokens does not look at them. -/
theorem behindParens?_of_append
    {depth : Nat} {front more rest : List Token}
    (found : behindParens? depth (front ++ more) = some rest)
    (enough : more.length ≤ rest.length) :
    ∃ left, rest = left ++ more ∧ behindParens? depth front = some left := by
  induction front generalizing depth with
  | nil => exact absurd (behindParens?_length_lt found) (Nat.not_lt_of_le enough)
  | cons head tail inductionHypothesis =>
      rw [List.cons_append, behindParens?] at found
      rw [behindParens?]
      split at found
      · rename_i isLeft
        rw [if_pos isLeft]
        exact inductionHypothesis found
      · rename_i noLeft
        rw [if_neg noLeft]
        split at found
        · rename_i isRight
          rw [if_pos isRight]
          split at found
          · rename_i isOuter
            rw [if_pos isOuter]
            exact ⟨tail, (Option.some.inj found).symm, rfl⟩
          · rename_i isInner
            rw [if_neg isInner]
            exact inductionHypothesis found
        · rename_i noRight
          rw [if_neg noRight]
          exact inductionHypothesis found

namespace Exchanged

theorem size_le (exchanged : Exchanged back other cursor again) : back.size ≤ cursor.size := by
  rcases exchanged.front with ⟨front, -, rfl, -⟩
  simp [size, led]

theorem inLine (exchanged : Exchanged back other cursor again) : cursor.afterBody = false := by
  rcases exchanged.front with ⟨front, -, rfl, -⟩
  rfl

theorem inLineAgain (exchanged : Exchanged back other cursor again) : again.afterBody = false := by
  rcases exchanged.front with ⟨front, -, -, rfl⟩
  rfl

/-- A phrase stops at both places, or the same token is next. -/
theorem stops_or_takes (exchanged : Exchanged back other cursor again) :
    (cursor.size = back.size ∧ cursor.peek.kind.StopAlike again.peek.kind ∧
        again.peek = other.peek) ∨
      back.size < cursor.size ∧ ∃ token next last, cursor.Takes token next ∧
        again.Takes token last ∧ Exchanged back other next last ∧ token.kind.isLayout = false ∧
          (next.size = back.size →
            token.kind ≠ .mark .colon ∧ ∀ operator, token.kind ≠ .operator operator) := by
  rcases exchanged with ⟨stops, front, firm, rfl, rfl⟩
  cases front with
  | nil => exact Or.inl ⟨rfl, stops, rfl⟩
  | cons token rest =>
      have inLine := firm.inLine token List.mem_cons_self
      have noDedent := Kind.ne_dedent_of_isLayout inLine
      have longer : back.size < (back.led (token :: rest)).size := by
        simp only [size, led, List.cons_append, List.length_cons, List.length_append]
        omega
      refine Or.inr ⟨longer, token, back.led rest, other.led rest,
        ⟨rfl, rfl, (decide_eq_false noDedent).symm⟩, ⟨rfl, rfl, (decide_eq_false noDedent).symm⟩,
        ⟨stops, rest, firm.tail, rfl, rfl⟩, inLine, ?_⟩
      intro isLast
      have noRest : rest = [] := by
        simpa [size, led] using isLast
      rw [noRest] at firm
      exact ⟨firm.noColon token rfl, firm.noOperator token rfl⟩

/-! ### Taking tokens -/

theorem takes
    (exchanged : Exchanged back other cursor again) (takes : cursor.Takes token next)
    (enough : back.size ≤ next.size) :
    ∃ last, again.Takes token last ∧ Exchanged back other next last := by
  rcases exchanged.stops_or_takes with
    ⟨sameSize, -⟩ | ⟨-, first, behind, place, takesHere, takesAgain, further, -⟩
  · exact absurd (sameSize ▸ takes.size_lt) (Nat.not_lt_of_le enough)
  · rcases takesHere.unique takes with ⟨rfl, rfl⟩
    exact ⟨place, takesAgain, further⟩

theorem accepts
    (exchanged : Exchanged back other cursor again) (accepts : cursor.Accepts kind next)
    (enough : back.size ≤ next.size) :
    ∃ last, again.Accepts kind last ∧ Exchanged back other next last := by
  rcases accepts with ⟨token, takes, rfl⟩
  rcases exchanged.takes takes enough with ⟨last, takesAgain, further⟩
  exact ⟨last, ⟨token, takesAgain, rfl⟩, further⟩

theorem peek_eq
    (exchanged : Exchanged back other cursor again) (filled : back.size < cursor.size) :
    again.peek = cursor.peek := by
  rcases exchanged.stops_or_takes with ⟨sameSize, -⟩ | ⟨-, token, next, last, takes, takesAgain, -⟩
  · exact absurd sameSize (Nat.ne_of_gt filled)
  · rw [takes.peek, takesAgain.peek]

theorem peek_kind_ne
    (exchanged : Exchanged back other cursor again) (differs : cursor.peek.kind ≠ kind)
    (goesOn : kind.stopsLine = false) : again.peek.kind ≠ kind := by
  rcases exchanged.stops_or_takes with
    ⟨-, alike, -⟩ | ⟨-, token, next, last, takes, takesAgain, -⟩
  · by_cases isComma : kind = .mark .comma
    · subst isComma
      exact fun isOther => differs (alike.symm.of_comma isOther)
    · exact alike.symm.ne_of_goesOn goesOn isComma
  · rw [takesAgain.peek, ← takes.peek]
    exact differs

theorem takes_back
    (exchanged : Exchanged back other cursor again) (takes : again.Takes token last)
    (goesOn : token.kind.stopsLine = false) (noComma : token.kind ≠ .mark .comma) :
    ∃ next, cursor.Takes token next ∧ Exchanged back other next last := by
  rcases exchanged.stops_or_takes with
    ⟨-, alike, -⟩ | ⟨-, first, next, place, takesHere, takesAgain, further, -⟩
  · rw [takes.peek] at alike
    exact absurd rfl (alike.symm.ne_of_goesOn goesOn noComma)
  · rcases takesAgain.unique takes with ⟨rfl, rfl⟩
    exact ⟨next, takesHere, further⟩

theorem accepts_back
    (exchanged : Exchanged back other cursor again) (accepts : again.Accepts kind last)
    (goesOn : kind.stopsLine = false) (noComma : kind ≠ .mark .comma) :
    ∃ next, cursor.Accepts kind next ∧ Exchanged back other next last := by
  rcases accepts with ⟨token, takes, rfl⟩
  rcases exchanged.takes_back takes goesOn noComma with ⟨next, takesHere, further⟩
  exact ⟨next, ⟨token, takesHere, rfl⟩, further⟩

/-- A colon is not the last token of the line. -/
theorem spaced_behind_colon
    (exchanged : Exchanged back other cursor again) (isColon : cursor.Accepts (.mark .colon) next)
    (isColonAgain : again.Accepts (.mark .colon) last) :
    last.peek.spaced = next.peek.spaced := by
  rcases exchanged.stops_or_takes with
    ⟨-, stops, -⟩ | ⟨-, token, behind, place, takes, takesAgain, further, -, isLast⟩
  · exact absurd isColon.peek_kind (stops.ne_of_goesOn rfl (by simp))
  · rcases isColon with ⟨colon, takesColon, isKind⟩
    rcases isColonAgain with ⟨colonAgain, takesColonAgain, -⟩
    rcases takes.unique takesColon with ⟨rfl, rfl⟩
    rcases takesAgain.unique takesColonAgain with ⟨rfl, rfl⟩
    have filled : back.size < behind.size := by
      refine Nat.lt_of_le_of_ne further.size_le ?_
      intro sameSize
      exact (isLast sameSize.symm).1 isKind
    rw [further.peek_eq filled]

/-! ### Looking ahead -/

variable {operator : Operator} {binding : Binding}

theorem continues
    (exchanged : Exchanged back other cursor again)
    (continues : cursor.Continues operator binding next) (enough : back.size ≤ next.size) :
    ∃ last, again.Continues operator binding last ∧ Exchanged back other next last := by
  rcases continues with ⟨-, accepts, isBinding⟩
  rcases exchanged.accepts accepts enough with ⟨last, acceptsAgain, further⟩
  exact ⟨last, ⟨exchanged.inLineAgain, acceptsAgain, isBinding⟩, further⟩

theorem continues_back
    (exchanged : Exchanged back other cursor again)
    (continues : again.Continues operator binding last) :
    ∃ next, cursor.Continues operator binding next := by
  rcases continues with ⟨-, accepts, isBinding⟩
  rcases exchanged.accepts_back accepts rfl (by simp) with ⟨next, acceptsHere, -⟩
  exact ⟨next, exchanged.inLine, acceptsHere, isBinding⟩

theorem chained?
    (exchanged : Exchanged back other cursor again) (single : cursor.chained? binding = none) :
    again.chained? binding = none := by
  refine chained?_eq_none_iff.2 ?_
  intro isNone operator further last continues
  rcases exchanged.continues_back continues with ⟨next, continuesHere⟩
  exact chained?_eq_none_iff.1 single isNone operator further next continuesHere

theorem unary?
    (exchanged : Exchanged back other cursor again) (filled : back.size < cursor.size)
    (unsigned : cursor.unary? = none) : again.unary? = none :=
  unary?_of_peek_kind (congrArg Token.kind (exchanged.peek_eq filled)) unsigned

theorem separates
    (exchanged : Exchanged back other cursor again) (separates : cursor.Separates next)
    (enough : back.size ≤ next.size) :
    ∃ last, again.Separates last ∧ Exchanged back other next last := by
  rcases separates with ⟨-, accepts, spaced⟩
  rcases exchanged.accepts accepts enough with ⟨last, acceptsAgain, further⟩
  refine ⟨last, ⟨exchanged.inLineAgain, acceptsAgain, ?_⟩, further⟩
  rw [exchanged.spaced_behind_colon accepts acceptsAgain]
  exact spaced

theorem separator?
    (exchanged : Exchanged back other cursor again) (alone : cursor.separator? = none) :
    again.separator? = none := by
  refine separator?_eq_none_iff.2 ?_
  rintro last ⟨-, accepts, spaced⟩
  rcases exchanged.accepts_back accepts rfl (by simp) with ⟨next, acceptsHere, -⟩
  rw [exchanged.spaced_behind_colon acceptsHere accepts] at spaced
  exact separator?_eq_none_iff.1 alone next ⟨exchanged.inLine, acceptsHere, spaced⟩

theorem namesKey
    {name : String} (exchanged : Exchanged back other cursor again)
    (names : cursor.NamesKey name next) (enough : back.size ≤ next.size) :
    ∃ last, again.NamesKey name last ∧ Exchanged back other next last := by
  rcases names with ⟨word, middle, takes, isWord, isColon, spaced, isName⟩
  have enoughMiddle : back.size ≤ middle.size :=
    Nat.le_trans enough (Nat.le_of_lt isColon.size_lt)
  rcases exchanged.takes takes enoughMiddle with ⟨place, takesAgain, further⟩
  rcases further.accepts isColon enough with ⟨last, isColonAgain, behind⟩
  refine ⟨last, ⟨word, place, takesAgain, isWord, isColonAgain, ?_, isName⟩, behind⟩
  rw [further.spaced_behind_colon isColon isColonAgain]
  exact spaced

theorem symbolKey?
    (exchanged : Exchanged back other cursor again) (unnamed : cursor.symbolKey? = none) :
    again.symbolKey? = none := by
  refine symbolKey?_eq_none_iff.2 ?_
  rintro name last ⟨word, place, takesAgain, isWord, isColonAgain, spaced, isName⟩
  have goesOn : word.kind.stopsLine = false ∧ word.kind ≠ .mark .comma := by
    rcases isWord with ⟨text, isText⟩ | ⟨keyword, isKeyword⟩
    · simp [isText, Kind.stopsLine]
    · simp [isKeyword, Kind.stopsLine]
  rcases exchanged.takes_back takesAgain goesOn.1 goesOn.2 with ⟨middle, takes, further⟩
  rcases further.accepts_back isColonAgain rfl (by simp) with ⟨next, isColon, -⟩
  rw [further.spaced_behind_colon isColon isColonAgain] at spaced
  exact symbolKey?_eq_none_iff.1 unnamed name next
    ⟨word, middle, takes, isWord, isColon, spaced, isName⟩

theorem endsString
    (exchanged : Exchanged back other cursor again) (ends : cursor.EndsString) :
    again.EndsString := by
  refine ⟨exchanged.peek_kind_ne ends.1 rfl, ?_⟩
  intro text isText
  rcases accepts_of_peek_kind isText (by simp) with ⟨last, piece, takesAgain, isPiece⟩
  rcases exchanged.takes_back takesAgain (by rw [isPiece]; rfl) (by simp [isPiece]) with
    ⟨next, takes, -⟩
  have endsHere := ends.2 text
  rw [takes.peek] at endsHere
  rw [takesAgain.peek]
  exact endsHere isPiece

theorem not_startsBody (exchanged : Exchanged back other cursor again) :
    ¬cursor.StartsBody next := by
  rintro ⟨line, isLine, -⟩
  rcases exchanged.stops_or_takes with
    ⟨-, stops, -⟩ | ⟨-, token, behind, place, takes, -, -, inLine, -⟩
  · exact absurd isLine.peek_kind (stops.ne_of_goesOn rfl (by simp))
  · rw [← takes.peek, isLine.peek_kind] at inLine
    cases inLine

theorem bodyStart? (exchanged : Exchanged back other cursor again) :
    again.bodyStart? = none := by
  refine bodyStart?_eq_none ?_
  rintro last ⟨line, isLine, -⟩
  rcases exchanged.accepts_back isLine rfl (by simp) with ⟨next, accepts, -⟩
  rcases exchanged.stops_or_takes with
    ⟨-, stops, -⟩ | ⟨-, token, behind, place, takes, -, -, inLine, -⟩
  · exact absurd accepts.peek_kind (stops.ne_of_goesOn rfl (by simp))
  · rw [← takes.peek, accepts.peek_kind] at inLine
    cases inLine

/-! ### Arguments -/

theorem atArgument (exchanged : Exchanged back other cursor again) :
    again.atArgument = cursor.atArgument := by
  rcases exchanged.stops_or_takes with
    ⟨-, alike, -⟩ | ⟨-, token, next, last, takes, takesAgain, further, -, isLast⟩
  · rw [atArgument_of_stopAlike alike]
    exact atArgument_of_stopAlike alike.symm
  · unfold Cursor.atArgument
    rw [takes.peekAt_one, takesAgain.peekAt_one, takes.peek, takesAgain.peek]
    rcases Nat.eq_or_lt_of_le further.size_le with sameSize | filled
    · -- The second token counts behind a colon or an operator only.
      rcases isLast sameSize.symm with ⟨noColon, noOperator⟩
      cases isKind : token.kind with
      | operator sign => exact absurd isKind (noOperator sign)
      | mark sign =>
          cases sign with
          | colon => exact absurd isKind noColon
          | _ => simp only [isKind]
      | _ => simp only [isKind]
    · rw [further.peek_eq filled]

theorem continuesBehindParens
    {rest : List Token} (exchanged : Exchanged back other cursor again)
    (found : behindParens? 0 cursor.ahead = some rest) (enough : back.size ≤ rest.length) :
    again.continuesBehindParens = cursor.continuesBehindParens := by
  rcases exchanged with ⟨stops, front, -, rfl, rfl⟩
  have atStops : other.ahead.head?.any continuesArgument =
      back.ahead.head?.any continuesArgument := by
    rcases stops with ⟨stops, stopsOther⟩ | ⟨isComma, isCommaOther⟩
    · rw [not_continuesArgument_of_stopsLine stops, not_continuesArgument_of_stopsLine stopsOther]
    · rw [continuesArgument_of_comma isComma, continuesArgument_of_comma isCommaOther]
  rcases behindParens?_of_append found enough with ⟨left, rfl, isLeft⟩
  have foundAgain : behindParens? 0 (other.led front).ahead = some (left ++ other.ahead) :=
    behindParens?_append isLeft other.ahead
  rw [continuesBehindParens_eq found, continuesBehindParens_eq foundAgain]
  cases left with
  | nil => exact atStops
  | cons token others => rfl

end Exchanged

end Cursor

end ScriptFront
