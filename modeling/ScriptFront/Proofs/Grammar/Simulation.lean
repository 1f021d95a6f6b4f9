import ScriptFront.Proofs.Grammar.Balance
import ScriptFront.Proofs.Grammar.Starts

/-!
# Readings side by side

Two lists of tokens may be told apart only by their layout and by what follows their ends.  What a
phrase sees of them is stated once as a relation between places; a phrase that is read at one of two
related places is then read at the other, with the same value.
-/

namespace ScriptFront

namespace Kind

/-- No phrase goes on with a token of this kind. -/
def endsPhrase : Kind → Bool
  | .newline | .interpolationEnd | .mark .rightParen | .mark .rightBracket => true
  | _ => false

/-- A phrase may go on with a token of this kind. -/
def goesOn (kind : Kind) : Bool := !(kind.isLayout || kind.endsPhrase)

theorem ne_dedent_of_isLayout {kind : Kind} (inLine : kind.isLayout = false) :
    kind ≠ .dedent := by
  rintro rfl
  cases inLine

theorem ne_of_isLayout
    {kind other : Kind} (isLayout : kind.isLayout = true) (inLine : other.isLayout = false) :
    kind ≠ other := by
  rintro rfl
  cases isLayout.symm.trans inLine

theorem isLayout_of_goesOn {kind : Kind} (goesOn : kind.goesOn = true) :
    kind.isLayout = false := by
  unfold Kind.goesOn at goesOn
  simp at goesOn
  exact goesOn.1

theorem endsPhrase_of_goesOn {kind : Kind} (goesOn : kind.goesOn = true) :
    kind.endsPhrase = false := by
  unfold Kind.goesOn at goesOn
  simp at goesOn
  exact goesOn.2

end Kind

/-- A phrase that is read up to this token sees its end: the layout does not belong to it, and other
tokens that end phrases stand behind a blank. -/
def Token.stopsPhrase (token : Token) : Bool :=
  token.kind.isLayout || token.kind.endsPhrase && token.spaced

namespace Token

variable {token : Token}

theorem stopsPhrase_of_isLayout (isLayout : token.kind.isLayout = true) :
    token.stopsPhrase = true := by
  rw [stopsPhrase, isLayout]
  rfl

theorem not_stopsPhrase (goesOn : token.kind.goesOn = true) : token.stopsPhrase = false := by
  rw [stopsPhrase, Kind.isLayout_of_goesOn goesOn, Kind.endsPhrase_of_goesOn goesOn]
  rfl

theorem not_goesOn_of_stopsPhrase (stops : token.stopsPhrase = true) :
    token.kind.goesOn = false := by
  cases goesOn : token.kind.goesOn with
  | false => rfl
  | true => cases (not_stopsPhrase goesOn).symm.trans stops

theorem not_goesOn_of_isLayout (isLayout : token.kind.isLayout = true) :
    token.kind.goesOn = false := by
  rw [Kind.goesOn, isLayout]
  rfl

end Token

/-- Behind a node of this form a block would belong to a call in it. -/
inductive Node.EndsInCall : Node → Prop where
  | call (name : String) (list : List Node) : EndsInCall (.call name list none)
  | unary (operator : Operator) {operand : Node} (ends : EndsInCall operand) :
      EndsInCall (.unary operator operand)
  | binary (operator : Operator) (left : Node) {right : Node} (ends : EndsInCall right) :
      EndsInCall (.binary operator left right)
  | hash {pairs : List (Pair Node)} {last : Pair Node} (isLast : pairs.getLast? = some last)
      (ends : EndsInCall last.value) : EndsInCall (.hash pairs)

namespace Cursor

/-- Something other than newlines is ahead. -/
def HasFurther (cursor : Cursor) : Prop := ∃ token ∈ cursor.ahead, token.kind ≠ .newline

/-- A relation between places that no phrase can tell apart.  It knows how many bodies are open, and
whether a block or an indented body may follow behind the end of the first tokens.  If a body may
follow there, only places in front of that end are looked at. -/
structure Simulation
    (Related : Nat → Cursor → Cursor → Prop) (blockFollows bodyFollows : Prop) : Prop where
  takes {depth : Nat} {cursor other next : Cursor} {token : Token} :
    Related depth cursor other → cursor.Takes token next → token.kind.isLayout = false →
      ∃ last, other.Takes token last ∧ Related depth next last
  afterBody {depth : Nat} {cursor other : Cursor} :
    Related depth cursor other → other.ahead ≠ [] → other.afterBody = cursor.afterBody
  stops {depth : Nat} {cursor other : Cursor} :
    Related depth cursor other → cursor.peek.kind.isLayout = true → cursor.afterBody = false →
      other.peek.stopsPhrase = true
  noComma {depth : Nat} {cursor other : Cursor} :
    Related depth cursor other → cursor.peek.kind.isLayout = true → cursor.afterBody = true →
      other.peek.kind ≠ .mark .comma
  block {depth : Nat} {cursor other : Cursor} :
    Related depth cursor other → cursor.peek.kind.isLayout = true → cursor.afterBody = true →
      other.peek.kind = .mark .blockArrow → blockFollows ∧ depth = 0 ∧ cursor.ahead = []
  colon {depth : Nat} {cursor other next last : Cursor} :
    Related depth cursor other → cursor.Accepts (.mark .colon) next →
      other.Accepts (.mark .colon) last → last.peek.spaced = next.peek.spaced
  parens {depth : Nat} {cursor other : Cursor} {rest : List Token} :
    Related depth cursor other → behindParens? 0 cursor.ahead = some rest →
      other.continuesBehindParens = cursor.continuesBehindParens
  noBody {depth : Nat} {cursor other : Cursor} :
    Related depth cursor other → (bodyFollows → cursor.HasFurther) → cursor.afterBody = false →
      cursor.bodyStart? = none → other.bodyStart? = none
  body {depth : Nat} {cursor other start : Cursor} :
    Related depth cursor other → cursor.StartsBody start →
      ∃ begin, other.StartsBody begin ∧ Related (depth + 1) start begin
  skipNewlines {depth : Nat} {cursor other : Cursor} :
    Related (depth + 1) cursor other → (bodyFollows → cursor.HasFurther) →
      Related (depth + 1) cursor.skipNewlines other.skipNewlines
  endsStatements {depth : Nat} {cursor other : Cursor} :
    Related (depth + 1) cursor other → (bodyFollows → cursor.HasFurther) →
      other.endsStatements true = cursor.endsStatements true
  endsStatement {depth : Nat} {cursor other next : Cursor} :
    Related (depth + 1) cursor other → (bodyFollows → cursor.HasFurther) →
      cursor.EndsStatement next → ∃ last, other.EndsStatement last ∧ Related (depth + 1) next last
  skipDedent {depth : Nat} {cursor other : Cursor} :
    Related (depth + 1) cursor other → (bodyFollows → cursor.HasFurther) →
      cursor.endsStatements true = true → Related depth cursor.skipDedent other.skipDedent

variable {cursor other next last : Cursor} {token : Token} {kind : Kind}

theorem peek_of_end (isEnd : cursor.ahead = []) : cursor.peek = cursor.ending.token := by
  rw [peek, peekAt, isEnd]
  rfl

theorem takes_of_filled (filled : cursor.ahead ≠ []) : ∃ token next, cursor.Takes token next := by
  cases isAhead : cursor.ahead with
  | nil => exact absurd isAhead filled
  | cons first rest => exact ⟨first, _, takes_past isAhead⟩

theorem atEnd_of_filled (filled : cursor.ahead ≠ []) : cursor.atEnd = false :=
  List.isEmpty_eq_false_iff.2 filled

theorem takes_peek (inLine : cursor.peek.kind.isLayout = false) :
    ∃ next, cursor.Takes cursor.peek next := by
  cases isAhead : cursor.ahead with
  | nil =>
      rw [peek_of_end isAhead] at inLine
      cases inLine
  | cons first rest =>
      have takes := takes_past isAhead
      rw [takes.peek]
      exact ⟨_, takes⟩

theorem HasFurther.of_passed
    {passed : List Token} (further : next.HasFurther)
    (isPassed : cursor.ahead = passed ++ next.ahead) : cursor.HasFurther := by
  rcases further with ⟨token, member, differs⟩
  exact ⟨token, isPassed ▸ List.mem_append_right passed member, differs⟩

theorem HasFurther.filled (further : cursor.HasFurther) : cursor.ahead ≠ [] := by
  rcases further with ⟨token, member, -⟩
  exact List.ne_nil_of_mem member

theorem Accepts.hasFurther (accepts : cursor.Accepts kind next) (differs : kind ≠ .newline) :
    cursor.HasFurther := by
  rcases accepts.ahead with ⟨token, isAhead, rfl⟩
  exact ⟨token, isAhead ▸ List.mem_cons_self, differs⟩

theorem EndsStatement.hasFurther
    (ends : cursor.EndsStatement next) (further : next.HasFurther) : cursor.HasFurther := by
  rcases ends.passes.passed with ⟨passed, isPassed, -⟩
  exact further.of_passed isPassed

theorem hasFurther_of_skipNewlines (further : cursor.skipNewlines.HasFurther) :
    cursor.HasFurther := by
  rcases ahead_skipNewlines cursor with ⟨lines, isAhead, -⟩
  exact further.of_passed isAhead

theorem HasFurther.skipNewlines (further : cursor.HasFurther) :
    cursor.skipNewlines.HasFurther := by
  rcases further with ⟨token, member, differs⟩
  rcases ahead_skipNewlines cursor with ⟨lines, isAhead, -, areNewlines⟩
  rw [isAhead] at member
  rcases List.mem_append.1 member with isLine | isBehind
  · exact absurd (areNewlines token isLine) differs
  · exact ⟨token, isBehind, differs⟩

theorem hasFurther_of_skipDedent (further : cursor.skipDedent.HasFurther) :
    cursor.HasFurther := by
  unfold skipDedent at further
  split at further
  · exact further
  · rename_i dedent found
    exact (accepts_of_accept? found).hasFurther (by simp)

theorem Takes.inLine (takes : cursor.Takes token next) (noDedent : token.kind ≠ .dedent) :
    next.afterBody = false := by
  rw [takes.afterBody]
  exact decide_eq_false noDedent

theorem Accepts.inLine (accepts : cursor.Accepts kind next) (noDedent : kind ≠ .dedent) :
    next.afterBody = false := by
  rcases accepts with ⟨token, takes, rfl⟩
  exact takes.inLine noDedent

theorem skipNewlines_inLine (inLine : cursor.afterBody = false) :
    cursor.skipNewlines.afterBody = false := by
  refine related_skipNewlines (fun cursor next => cursor.afterBody = false → next.afterBody = false)
    (fun _ => id) ?_ cursor inLine
  intro cursor line last accepts further _
  exact further (accepts.inLine (by simp))

theorem Takes.peekAt_one (takes : cursor.Takes token next) : cursor.peekAt 1 = next.peek :=
  takes.peekAt_succ 0

theorem behindParens?_append
    {depth : Nat} {tokens rest : List Token} (found : behindParens? depth tokens = some rest)
    (more : List Token) : behindParens? depth (tokens ++ more) = some (rest ++ more) := by
  induction tokens generalizing depth with
  | nil => cases found
  | cons head tail inductionHypothesis =>
      rw [List.cons_append, behindParens?]
      rw [behindParens?] at found
      split
      · rename_i isLeft
        rw [if_pos isLeft] at found
        exact inductionHypothesis found
      · rename_i noLeft
        rw [if_neg noLeft] at found
        split
        · rename_i isRight
          rw [if_pos isRight] at found
          split
          · rename_i isOuter
            rw [if_pos isOuter] at found
            rw [Option.some.inj found]
          · rename_i isInner
            rw [if_neg isInner] at found
            exact inductionHypothesis found
        · rename_i noRight
          rw [if_neg noRight] at found
          exact inductionHypothesis found

theorem closed_of_continuesBehindParens (continues : cursor.continuesBehindParens = true) :
    ∃ rest, behindParens? 0 cursor.ahead = some rest := by
  unfold continuesBehindParens at continues
  cases found : behindParens? 0 cursor.ahead with
  | none =>
      rw [found] at continues
      cases continues
  | some rest => exact ⟨rest, rfl⟩

namespace Simulation

variable {Related : Nat → Cursor → Cursor → Prop} {blockFollows bodyFollows : Prop}
  {depth : Nat}

/-! ## Taking tokens -/

theorem accepts
    (simulation : Simulation Related blockFollows bodyFollows) (related : Related depth cursor other)
    (accepts : cursor.Accepts kind next) (inLine : kind.isLayout = false) :
    ∃ last, other.Accepts kind last ∧ Related depth next last := by
  rcases accepts with ⟨token, takes, rfl⟩
  rcases simulation.takes related takes inLine with ⟨last, takesOther, relatedNext⟩
  exact ⟨last, ⟨token, takesOther, rfl⟩, relatedNext⟩

theorem peek_eq
    (simulation : Simulation Related blockFollows bodyFollows) (related : Related depth cursor other)
    (inLine : cursor.peek.kind.isLayout = false) : other.peek = cursor.peek := by
  rcases takes_peek inLine with ⟨next, takes⟩
  rcases simulation.takes related takes inLine with ⟨last, takesOther, -⟩
  exact takesOther.peek

/-- Where a line goes on at the second place, it goes on at the first. -/
theorem takes_back
    (simulation : Simulation Related blockFollows bodyFollows) (related : Related depth cursor other)
    (inLine : cursor.afterBody = false) (takes : other.Takes token last)
    (goesOn : token.kind.goesOn = true) :
    ∃ next, cursor.Takes token next ∧ Related depth next last := by
  cases isLayout : cursor.peek.kind.isLayout with
  | true =>
      have stops := simulation.stops related isLayout inLine
      rw [takes.peek, Token.not_stopsPhrase goesOn] at stops
      cases stops
  | false =>
      rcases takes_peek isLayout with ⟨next, takesHere⟩
      rcases simulation.takes related takesHere isLayout with ⟨place, takesOther, relatedNext⟩
      rcases takesOther.unique takes with ⟨rfl, rfl⟩
      exact ⟨next, takesHere, relatedNext⟩

theorem accepts_back
    (simulation : Simulation Related blockFollows bodyFollows) (related : Related depth cursor other)
    (inLine : cursor.afterBody = false) (accepts : other.Accepts kind last)
    (goesOn : kind.goesOn = true) :
    ∃ next, cursor.Accepts kind next ∧ Related depth next last := by
  rcases accepts with ⟨token, takes, rfl⟩
  rcases simulation.takes_back related inLine takes goesOn with ⟨next, takesHere, relatedNext⟩
  exact ⟨next, ⟨token, takesHere, rfl⟩, relatedNext⟩

theorem peek_kind_ne
    (simulation : Simulation Related blockFollows bodyFollows) (related : Related depth cursor other)
    (inLine : cursor.afterBody = false) (differs : cursor.peek.kind ≠ kind)
    (goesOn : kind.goesOn = true) : other.peek.kind ≠ kind := by
  cases isLayout : cursor.peek.kind.isLayout with
  | true =>
      rintro rfl
      have stops := simulation.stops related isLayout inLine
      rw [Token.not_stopsPhrase goesOn] at stops
      cases stops
  | false =>
      rw [simulation.peek_eq related isLayout]
      exact differs

theorem peek_kind_ne_comma
    (simulation : Simulation Related blockFollows bodyFollows) (related : Related depth cursor other)
    (differs : cursor.peek.kind ≠ .mark .comma) : other.peek.kind ≠ .mark .comma := by
  cases inLine : cursor.afterBody with
  | false => exact simulation.peek_kind_ne related inLine differs rfl
  | true =>
      cases isLayout : cursor.peek.kind.isLayout with
      | true => exact simulation.noComma related isLayout inLine
      | false =>
          rw [simulation.peek_eq related isLayout]
          exact differs

/-! ## Looking ahead -/

theorem continues
    {operator : Operator} {binding : Binding}
    (simulation : Simulation Related blockFollows bodyFollows) (related : Related depth cursor other)
    (continues : cursor.Continues operator binding next) :
    ∃ last, other.Continues operator binding last ∧ Related depth next last := by
  rcases continues with ⟨inLine, accepts, isBinding⟩
  rcases simulation.accepts related accepts rfl with ⟨last, acceptsOther, relatedNext⟩
  have sameFlag := simulation.afterBody related acceptsOther.ahead_ne_nil
  exact ⟨last, ⟨sameFlag.trans inLine, acceptsOther, isBinding⟩, relatedNext⟩

theorem continues_back
    {operator : Operator} {binding : Binding}
    (simulation : Simulation Related blockFollows bodyFollows) (related : Related depth cursor other)
    (continues : other.Continues operator binding last) :
    ∃ next, cursor.Continues operator binding next := by
  rcases continues with ⟨inLine, accepts, isBinding⟩
  rw [simulation.afterBody related accepts.ahead_ne_nil] at inLine
  rcases simulation.accepts_back related inLine accepts rfl with ⟨next, acceptsHere, -⟩
  exact ⟨next, inLine, acceptsHere, isBinding⟩

theorem chained?
    {binding : Binding} (simulation : Simulation Related blockFollows bodyFollows)
    (related : Related depth cursor other) (single : cursor.chained? binding = none) :
    other.chained? binding = none := by
  refine chained?_eq_none_iff.2 ?_
  intro isNone operator again last continues
  rcases simulation.continues_back related continues with ⟨next, continuesHere⟩
  exact chained?_eq_none_iff.1 single isNone operator again next continuesHere

theorem unary?
    (simulation : Simulation Related blockFollows bodyFollows) (related : Related depth cursor other)
    (inLine : cursor.peek.kind.isLayout = false) (unsigned : cursor.unary? = none) :
    other.unary? = none :=
  unary?_of_peek_kind (congrArg Token.kind (simulation.peek_eq related inLine)) unsigned

theorem separates
    (simulation : Simulation Related blockFollows bodyFollows) (related : Related depth cursor other)
    (separates : cursor.Separates next) :
    ∃ last, other.Separates last ∧ Related depth next last := by
  rcases separates with ⟨inLine, accepts, spaced⟩
  rcases simulation.accepts related accepts rfl with ⟨last, acceptsOther, relatedNext⟩
  have sameFlag := simulation.afterBody related acceptsOther.ahead_ne_nil
  refine ⟨last, ⟨sameFlag.trans inLine, acceptsOther, ?_⟩, relatedNext⟩
  rw [simulation.colon related accepts acceptsOther]
  exact spaced

theorem separator?
    (simulation : Simulation Related blockFollows bodyFollows) (related : Related depth cursor other)
    (alone : cursor.separator? = none) : other.separator? = none := by
  refine separator?_eq_none_iff.2 ?_
  rintro last ⟨inLine, accepts, spaced⟩
  rw [simulation.afterBody related accepts.ahead_ne_nil] at inLine
  rcases simulation.accepts_back related inLine accepts rfl with ⟨next, acceptsHere, -⟩
  rw [simulation.colon related acceptsHere accepts] at spaced
  exact separator?_eq_none_iff.1 alone next ⟨inLine, acceptsHere, spaced⟩

theorem namesKey
    {name : String} (simulation : Simulation Related blockFollows bodyFollows)
    (related : Related depth cursor other) (names : cursor.NamesKey name next) :
    ∃ last, other.NamesKey name last ∧ Related depth next last := by
  rcases names with ⟨word, middle, takes, isWord, isColon, spaced, isName⟩
  have inLine := Kind.isLayout_of_startsPhrase (Kind.startsPhrase_of_word isWord)
  rcases simulation.takes related takes inLine with ⟨place, takesOther, relatedMiddle⟩
  rcases simulation.accepts relatedMiddle isColon rfl with ⟨last, colonOther, relatedNext⟩
  refine ⟨last, ⟨word, place, takesOther, isWord, colonOther, ?_, isName⟩, relatedNext⟩
  rw [simulation.colon relatedMiddle isColon colonOther]
  exact spaced

theorem symbolKey?
    (simulation : Simulation Related blockFollows bodyFollows) (related : Related depth cursor other)
    (inLine : cursor.peek.kind.isLayout = false) (unnamed : cursor.symbolKey? = none) :
    other.symbolKey? = none := by
  refine symbolKey?_eq_none_iff.2 ?_
  rintro name last ⟨word, place, takesOther, isWord, colonOther, spaced, isName⟩
  rcases takes_peek inLine with ⟨middle, takes⟩
  rcases simulation.takes related takes inLine with ⟨_, takesAlso, relatedMiddle⟩
  rcases takesAlso.unique takesOther with ⟨rfl, rfl⟩
  have behindWord := takes.inLine (Kind.ne_dedent_of_isLayout inLine)
  rcases simulation.accepts_back relatedMiddle behindWord colonOther rfl with ⟨next, isColon, -⟩
  rw [simulation.colon relatedMiddle isColon colonOther] at spaced
  exact symbolKey?_eq_none_iff.1 unnamed name next
    ⟨_, middle, takes, isWord, isColon, spaced, isName⟩

theorem endsString
    (simulation : Simulation Related blockFollows bodyFollows) (related : Related depth cursor other)
    (inLine : cursor.afterBody = false) (ends : cursor.EndsString) : other.EndsString := by
  refine ⟨simulation.peek_kind_ne related inLine ends.1 rfl, ?_⟩
  intro text isText
  rcases accepts_of_peek_kind isText (by simp) with ⟨last, acceptsOther⟩
  rcases simulation.accepts_back related inLine acceptsOther rfl with ⟨next, accepts, -⟩
  have isText := accepts.peek_kind
  rw [simulation.peek_eq related (by rw [isText]; rfl)]
  exact ends.2 text isText

/-! ## Arguments -/

/-- Where no phrase goes on no argument starts. -/
theorem atArgument_of_not_goesOn (ends : cursor.peek.kind.goesOn = false) :
    cursor.atArgument = false := by
  cases isKind : cursor.peek.kind with
  | newline | indent | dedent | endOfInput | interpolationEnd =>
      simp only [Cursor.atArgument, isKind, Bool.and_false]
  | mark sign =>
      rw [isKind] at ends
      cases sign with
      | rightParen | rightBracket => simp only [Cursor.atArgument, isKind, Bool.and_false]
      | _ => cases ends
  | _ =>
      rw [isKind] at ends
      cases ends

theorem namesSymbol_of_not_goesOn (ends : token.kind.goesOn = false) :
    namesSymbol token = false := by
  unfold namesSymbol
  generalize token.kind = kind at ends
  cases kind with
  | fragment => cases ends
  | identifier | constant | keyword => cases ends
  | _ => rfl

/-- What ends a phrase is no operand behind its sign. -/
theorem no_operand (stops : token.stopsPhrase = true) (isUnary : Bool) :
    (isUnary && !token.spaced && !isLayout token) = false := by
  rw [Token.stopsPhrase, Bool.or_eq_true, Bool.and_eq_true] at stops
  rcases stops with layout | ⟨-, spaced⟩
  · rw [isLayout_eq, layout]
    exact Bool.and_false _
  · rw [spaced, Bool.not_true, Bool.and_false, Bool.false_and]

theorem atArgument
    (simulation : Simulation Related blockFollows bodyFollows) (related : Related depth cursor other)
    (inLine : cursor.afterBody = false) : other.atArgument = cursor.atArgument := by
  cases isLayout : cursor.peek.kind.isLayout with
  | true =>
      have stops := simulation.stops related isLayout inLine
      rw [atArgument_of_not_goesOn (Token.not_goesOn_of_isLayout isLayout)]
      exact atArgument_of_not_goesOn (Token.not_goesOn_of_stopsPhrase stops)
  | false =>
      have samePeek := simulation.peek_eq related isLayout
      rcases takes_peek isLayout with ⟨next, takes⟩
      rcases simulation.takes related takes isLayout with ⟨last, takesOther, relatedNext⟩
      have behind := takes.inLine (Kind.ne_dedent_of_isLayout isLayout)
      cases nextLayout : next.peek.kind.isLayout with
      | false =>
          have sameNext := simulation.peek_eq relatedNext nextLayout
          simp only [Cursor.atArgument, samePeek, takes.peekAt_one, takesOther.peekAt_one, sameNext]
      | true =>
          -- Neither end is a name or an operand, whichever blanks stand in front of it.
          have stops := simulation.stops relatedNext nextLayout behind
          have noName := namesSymbol_of_not_goesOn (Token.not_goesOn_of_isLayout nextLayout)
          have alsoNone := namesSymbol_of_not_goesOn (Token.not_goesOn_of_stopsPhrase stops)
          simp only [Cursor.atArgument, samePeek, takes.peekAt_one, takesOther.peekAt_one, noName,
            alsoNone, no_operand stops, Cursor.isLayout_eq next.peek, nextLayout, Bool.and_false,
            Bool.not_true]

end Simulation

end Cursor

end ScriptFront
