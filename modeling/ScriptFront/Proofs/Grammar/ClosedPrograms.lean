import ScriptFront.Proofs.Grammar.SimulatedReading
import ScriptFront.Proofs.Grammar.WellBracketed

/-!
# Programs one behind the other

A program may end with an indented body.  If all its bodies are closed, the tokens of another
program can follow directly: nothing of it belongs to the first one, unless that ends with a call
that has no block and the other one starts with a block.
-/

namespace ScriptFront

namespace Cursor

/-- The cursor before the same tokens, with those of another place behind them. -/
def onto (cursor more : Cursor) : Cursor :=
  ⟨cursor.ahead ++ more.ahead, more.ending, cursor.afterBody⟩

/-- The number of tokens ahead that are of a kind. -/
def count (cursor : Cursor) (kind : Kind) : Nat := (cursor.ahead.map Token.kind).count kind

/-- The tokens ahead close `depth` bodies and those that they open, the last of them with the last
token. -/
structure Closes (depth : Nat) (cursor : Cursor) : Prop where
  bodies : cursor.count .dedent = cursor.count .indent + depth
  ends : (∀ token, cursor.ahead.getLast? = some token → token.kind = .dedent) ∧
    (cursor.ahead = [] → cursor.afterBody = true)

variable {cursor other next last more : Cursor} {token : Token} {kind : Kind} {depth : Nat}

/-! ## Taking tokens -/

theorem Takes.count (takes : cursor.Takes token next) (kind : Kind) :
    cursor.count kind = next.count kind + if token.kind = kind then 1 else 0 := by
  rw [Cursor.count, takes.ahead, List.map_cons, List.count_cons]
  simp only [beq_iff_eq]
  rfl

theorem Takes.onto (takes : cursor.Takes token next) (more : Cursor) :
    (cursor.onto more).Takes token (next.onto more) := by
  refine ⟨?_, rfl, takes.afterBody⟩
  rw [Cursor.onto, takes.ahead]
  rfl

theorem Accepts.onto (accepts : cursor.Accepts kind next) (more : Cursor) :
    (cursor.onto more).Accepts kind (next.onto more) := by
  rcases accepts with ⟨token, takes, isKind⟩
  exact ⟨token, takes.onto more, isKind⟩

theorem peek_onto (filled : cursor.ahead ≠ []) (more : Cursor) :
    (cursor.onto more).peek = cursor.peek := by
  rcases takes_of_filled filled with ⟨token, next, takes⟩
  rw [takes.peek, (takes.onto more).peek]

theorem peek_onto_of_end (isEnd : cursor.ahead = []) (more : Cursor) :
    (cursor.onto more).peek = more.peek := by
  rw [peek, peekAt, onto, isEnd]
  rfl

theorem EndsStatement.onto
    (ends : cursor.EndsStatement next) (filled : cursor.ahead ≠ []) (more : Cursor) :
    (cursor.onto more).EndsStatement (next.onto more) := by
  rcases ends with accepts | ⟨differs, ends, rfl⟩
  · exact Or.inl (accepts.onto more)
  · have samePeek := peek_onto filled more
    have alsoFilled : (next.onto more).ahead ≠ [] := by simp [Cursor.onto, filled]
    refine Or.inr ⟨samePeek ▸ differs, ?_, rfl⟩
    rw [isAt, atEnd_of_filled filled] at ends
    rw [isAt, atEnd_of_filled alsoFilled, samePeek]
    exact ends

theorem endsStatements_onto (filled : cursor.ahead ≠ []) (more : Cursor) (inBody : Bool) :
    (cursor.onto more).endsStatements inBody = cursor.endsStatements inBody := by
  have alsoFilled : (cursor.onto more).ahead ≠ [] := by simp [onto, filled]
  simp only [Cursor.endsStatements, isAt, atEnd_of_filled filled, atEnd_of_filled alsoFilled,
    peek_onto filled]

theorem Accepts.skipDedent_eq (accepts : cursor.Accepts .dedent next) :
    cursor.skipDedent = next := by
  rcases accept?_of_accepts accepts with ⟨dedent, found, rfl⟩
  rw [skipDedent, found]

theorem accepts_of_onto
    (accepts : (cursor.onto more).Accepts kind last) (filled : cursor.ahead ≠ []) :
    ∃ next, cursor.Accepts kind next ∧ last = next.onto more := by
  rcases takes_of_filled filled with ⟨token, next, takes⟩
  rcases accepts with ⟨again, takesAgain, isKind⟩
  obtain ⟨rfl, rfl⟩ := (takes.onto more).unique takesAgain
  exact ⟨next, ⟨_, takes, isKind⟩, rfl⟩

namespace Closes

theorem ends_of_takes (closes : cursor.Closes depth) (takes : cursor.Takes token next) :
    (∀ token, next.ahead.getLast? = some token → token.kind = .dedent) ∧
      (next.ahead = [] → next.afterBody = true) := by
  have ends := closes.ends.1
  rw [takes.ahead] at ends
  refine ⟨?_, ?_⟩
  · intro last isLast
    refine ends last ?_
    rw [List.getLast?_cons, isLast]
    rfl
  · intro isEnd
    rw [takes.afterBody]
    refine decide_eq_true (ends token ?_)
    rw [isEnd]
    rfl

theorem takes
    (closes : cursor.Closes depth) (takes : cursor.Takes token next)
    (noIndent : token.kind ≠ .indent) (noDedent : token.kind ≠ .dedent) : next.Closes depth := by
  refine ⟨?_, closes.ends_of_takes takes⟩
  have bodies := closes.bodies
  rw [takes.count, takes.count, if_neg noIndent, if_neg noDedent] at bodies
  exact bodies

theorem accepts
    (closes : cursor.Closes depth) (accepts : cursor.Accepts kind next)
    (noIndent : kind ≠ .indent) (noDedent : kind ≠ .dedent) : next.Closes depth := by
  rcases accepts with ⟨token, takes, rfl⟩
  exact closes.takes takes noIndent noDedent

theorem indent
    (closes : cursor.Closes depth) (accepts : cursor.Accepts .indent next) :
    next.Closes (depth + 1) := by
  rcases accepts with ⟨token, takes, isIndent⟩
  refine ⟨?_, closes.ends_of_takes takes⟩
  have bodies := closes.bodies
  rw [takes.count, takes.count, if_pos isIndent, if_neg (by rw [isIndent]; simp)] at bodies
  omega

theorem dedent
    (closes : cursor.Closes (depth + 1)) (accepts : cursor.Accepts .dedent next) :
    next.Closes depth := by
  rcases accepts with ⟨token, takes, isDedent⟩
  refine ⟨?_, closes.ends_of_takes takes⟩
  have bodies := closes.bodies
  rw [takes.count, takes.count, if_pos isDedent, if_neg (by rw [isDedent]; simp)] at bodies
  omega

theorem filled_in_body (closes : cursor.Closes (depth + 1)) : cursor.ahead ≠ [] := by
  intro isEnd
  have bodies := closes.bodies
  simp [count, isEnd] at bodies

theorem filled_in_line (closes : cursor.Closes depth) (inLine : cursor.afterBody = false) :
    cursor.ahead ≠ [] := by
  intro isEnd
  cases inLine.symm.trans (closes.ends.2 isEnd)

theorem atTop_of_end (closes : cursor.Closes depth) (isEnd : cursor.ahead = []) : depth = 0 := by
  have bodies := closes.bodies
  simp [count, isEnd] at bodies
  omega

theorem skipNewlines (closes : cursor.Closes depth) : cursor.skipNewlines.Closes depth := by
  refine related_skipNewlines (fun cursor next => cursor.Closes depth → next.Closes depth)
    (fun _ => id) ?_ cursor closes
  intro cursor line last accepts further closes
  exact further (closes.accepts accepts (by simp) (by simp))

end Closes

theorem skipNewlines_onto (filled : cursor.skipNewlines.ahead ≠ []) (more : Cursor) :
    (cursor.onto more).skipNewlines = cursor.skipNewlines.onto more := by
  induction cursor using skipNewlines.induct with
  | case1 cursor absent =>
      rw [skipNewlines_of_none absent] at filled ⊢
      have differs := peek_kind_ne_of_accept? absent (by simp)
      refine skipNewlines_of_none (accept?_eq_none ?_)
      rw [peek_onto filled]
      exact differs
  | case2 cursor newline present _ inductionHypothesis =>
      have accepts := accepts_of_accept? present
      rw [skipNewlines_of_some present] at filled ⊢
      rw [(accepts.onto more).skipNewlines_eq]
      exact inductionHypothesis filled

/-! ## Further tokens behind a closed body -/

/-- The second place is the first one with further tokens behind, all bodies in front of them being
closed. -/
structure Followed (more : Cursor) (depth : Nat) (cursor other : Cursor) : Prop where
  other_eq : other = cursor.onto more
  closes : cursor.Closes depth

theorem behindParens?_split
    {tokens rest : List Token} (found : behindParens? depth tokens = some rest) :
    ∃ front paren, tokens = front ++ paren :: rest ∧ paren.kind = .mark .rightParen := by
  induction tokens generalizing depth with
  | nil => cases found
  | cons first others inductionHypothesis =>
      have further {deeper : Nat} (foundBehind : behindParens? deeper others = some rest) :
          ∃ front paren, first :: others = front ++ paren :: rest ∧
            paren.kind = .mark .rightParen := by
        rcases inductionHypothesis foundBehind with ⟨front, paren, rfl, isParen⟩
        exact ⟨first :: front, paren, rfl, isParen⟩
      rw [behindParens?] at found
      split at found
      · exact further found
      · split at found
        · rename_i isParen
          split at found
          · obtain rfl := Option.some.inj found
            exact ⟨[], first, rfl, isParen⟩
          · exact further found
        · exact further found

theorem simulation_followed (noComma : more.peek.kind ≠ .mark .comma) :
    Simulation (Followed more) (more.peek.kind = .mark .blockArrow) False where
  takes := by
    rintro depth cursor _ next token ⟨rfl, closes⟩ takes inLine
    refine ⟨_, takes.onto more, rfl, closes.takes takes ?_ (Kind.ne_dedent_of_isLayout inLine)⟩
    intro isIndent
    rw [isIndent] at inLine
    cases inLine
  afterBody := by
    rintro depth cursor _ ⟨rfl, -⟩ -
    rfl
  stops := by
    rintro depth cursor _ ⟨rfl, closes⟩ layout inLine
    rw [peek_onto (closes.filled_in_line inLine), Token.stopsPhrase, layout]
    rfl
  noComma := by
    rintro depth cursor _ ⟨rfl, -⟩ layout -
    by_cases isEnd : cursor.ahead = []
    · rw [peek_onto_of_end isEnd]
      exact noComma
    · rw [peek_onto isEnd]
      intro isComma
      rw [isComma] at layout
      cases layout
  block := by
    rintro depth cursor _ ⟨rfl, closes⟩ layout - isArrow
    by_cases isEnd : cursor.ahead = []
    · rw [peek_onto_of_end isEnd] at isArrow
      exact ⟨isArrow, closes.atTop_of_end isEnd, isEnd⟩
    · rw [peek_onto isEnd] at isArrow
      rw [isArrow] at layout
      cases layout
  colon := by
    rintro depth cursor _ next last ⟨rfl, closes⟩ isColon isColonAgain
    obtain rfl := isColonAgain.unique (isColon.onto more)
    have behind := closes.accepts isColon (by simp) (by simp)
    rw [peek_onto (behind.filled_in_line (isColon.inLine (by simp)))]
  parens := by
    rintro depth cursor _ rest ⟨rfl, closes⟩ found
    have foundFurther := behindParens?_append found more.ahead
    unfold continuesBehindParens
    rw [found, onto, foundFurther]
    cases rest with
    | cons token others => rfl
    | nil =>
        rcases behindParens?_split found with ⟨front, paren, whole, isParen⟩
        have isDedent := closes.ends.1 paren (by rw [whole, List.getLast?_append]; rfl)
        cases isParen.symm.trans isDedent
  noBody := by
    rintro depth cursor _ ⟨rfl, closes⟩ - inLine absent
    refine bodyStart?_eq_none ?_
    rintro next ⟨_, isLine, isIndent⟩
    rcases accepts_of_onto isLine (closes.filled_in_line inLine) with ⟨line, isLineHere, rfl⟩
    have behind := (closes.accepts isLineHere (by simp) (by simp)).skipNewlines
    have filled := behind.filled_in_line (skipNewlines_inLine (isLineHere.inLine (by simp)))
    rw [skipNewlines_onto filled] at isIndent
    rcases accepts_of_onto isIndent filled with ⟨start, isIndentHere, -⟩
    rcases bodyStart?_of_startsBody ⟨line, isLineHere, isIndentHere⟩ with ⟨found, isFound, -⟩
    cases absent.symm.trans isFound
  body := by
    rintro depth cursor _ start ⟨rfl, closes⟩ ⟨line, isLine, isIndent⟩
    have behind := (closes.accepts isLine (by simp) (by simp)).skipNewlines
    refine ⟨start.onto more, ⟨line.onto more, isLine.onto more, ?_⟩, rfl, behind.indent isIndent⟩
    rw [skipNewlines_onto isIndent.ahead_ne_nil]
    exact isIndent.onto more
  skipNewlines := by
    rintro depth cursor _ ⟨rfl, closes⟩ -
    exact ⟨skipNewlines_onto closes.skipNewlines.filled_in_body more, closes.skipNewlines⟩
  endsStatements := by
    rintro depth cursor _ ⟨rfl, closes⟩ -
    exact endsStatements_onto closes.filled_in_body more true
  endsStatement := by
    rintro depth cursor _ next ⟨rfl, closes⟩ - ends
    have endsAgain := ends.onto closes.filled_in_body more
    rcases ends with accepts | ⟨-, -, rfl⟩
    · exact ⟨_, endsAgain, rfl, closes.accepts accepts (by simp) (by simp)⟩
    · exact ⟨_, endsAgain, rfl, closes⟩
  skipDedent := by
    rintro depth cursor _ ⟨rfl, closes⟩ - ends
    have isDedent : cursor.peek.kind = .dedent := by
      simpa [Cursor.endsStatements, isAt, atEnd_of_filled closes.filled_in_body] using ends
    rcases accepts_of_peek_kind isDedent (by simp) with ⟨next, accepts⟩
    rw [accepts.skipDedent_eq, (accepts.onto more).skipDedent_eq]
    exact ⟨rfl, closes.dedent accepts⟩

end Cursor

namespace Phrase

open Cursor

variable {cursor other next last more : Cursor} {node : Node} {nodes others : List Node}

/-! ## Statements -/

theorem Reads.statements_congr
    {inBody : Bool} (reads : Reads (.statements inBody) cursor nodes next)
    (same : cursor.skipNewlines = other.skipNewlines) :
    Reads (.statements inBody) other nodes next := by
  cases reads with
  | noStatements ends =>
      rw [same] at ends ⊢
      exact .noStatements ends
  | moreStatements more isFirst areOthers =>
      rw [same] at more isFirst
      exact .moreStatements more isFirst areOthers

theorem Reads.statements_of_end
    (reads : Reads (.statements false) cursor nodes next) (isEnd : cursor.ahead = []) :
    nodes = [] := by
  have absent : cursor.accept? .newline = none := by
    refine accept?_eq_none ?_
    rw [peek_of_end isEnd]
    simp [Ending.token]
  cases reads with
  | noStatements => rfl
  | moreStatements more =>
      rw [skipNewlines_of_none absent] at more
      simp [Cursor.endsStatements, atEnd, isEnd] at more

/-- The statements are the same whether or not a body ends in front of them. -/
theorem Reads.statements_behind
    (reads : Reads (.statements false) cursor nodes next) (sameAhead : other.ahead = cursor.ahead)
    (sameEnding : cursor.ahead ≠ [] → other.ending = cursor.ending) :
    ∃ last, Reads (.statements false) other nodes last := by
  by_cases isEnd : cursor.ahead = []
  · obtain rfl := reads.statements_of_end isEnd
    have ends : other.skipNewlines.endsStatements false = true := by
      rcases ahead_skipNewlines other with ⟨lines, isAhead, -⟩
      rw [sameAhead, isEnd] at isAhead
      simp [Cursor.endsStatements, atEnd, (List.append_eq_nil_iff.1 isAhead.symm).2]
    exact ⟨_, .noStatements ends⟩
  · rcases takes_of_filled isEnd with ⟨token, place, takes⟩
    have takesAgain : other.Takes token place :=
      ⟨sameAhead.trans takes.ahead, takes.ending.trans (sameEnding isEnd).symm, takes.afterBody⟩
    exact reads.statements_restarted ⟨token, token, place, takes, takesAgain, rfl, rfl⟩

theorem Reads.not_comma (reads : Reads (.statements false) cursor nodes next) :
    cursor.peek.kind ≠ .mark .comma := by
  intro isComma
  have absent : cursor.accept? .newline = none := by
    refine accept?_eq_none ?_
    rw [isComma]
    simp
  rcases accepts_of_peek_kind isComma (by simp) with ⟨behind, accepts⟩
  cases reads with
  | noStatements ends =>
      rw [skipNewlines_of_none absent] at ends
      simp [Cursor.endsStatements, atEnd, accepts.ahead_ne_nil] at ends
  | moreStatements _ isFirst =>
      rw [skipNewlines_of_none absent] at isFirst
      have starts := isFirst.statement_starts
      rw [isComma] at starts
      cases starts

/-- A statement whose bodies are closed is read in the same way before further tokens. -/
theorem Reads.statement_onto
    (reads : Reads .statement cursor node next) (closes : cursor.Closes 0)
    (noComma : more.peek.kind ≠ .mark .comma)
    (closed : Closed (more.peek.kind = .mark .blockArrow) False 0 (some node) next) :
    ∃ last, Reads .statement (cursor.onto more) node last ∧
      last.skipNewlines = (next.onto more).skipNewlines ∧ next.Closes 0 := by
  cases reads with
  | @statement _ middle place _ first _ isFirst whole ends =>
      have closedWhole :
          Closed (more.peek.kind = .mark .blockArrow) False 0 (some node) place := by
        refine closed_of_end ?_ False.elim
        intro isEnd
        rcases ends with accepts | ⟨-, -, rfl⟩
        · exact absurd isEnd accepts.ahead_ne_nil
        · exact closed
      have closedFirst :
          Closed (more.peek.kind = .mark .blockArrow) False 0 (first.final? false) middle := by
        refine closed_of_end ?_ False.elim
        intro isEnd
        cases whole with
        | single => exact closedWhole
        | bareHash arePairs =>
            rcases arePairs.morePairs_of_end isEnd with ⟨rfl, rfl⟩
            exact closedWhole.hash
      have simulation := simulation_followed noComma
      rcases isFirst.simulated simulation ⟨rfl, closes⟩ trivial closedFirst with
        ⟨_, readsFirst, rfl, closesMiddle⟩
      rcases whole.simulated simulation ⟨rfl, closesMiddle⟩ trivial closedWhole with
        ⟨_, readsWhole, rfl, closesPlace⟩
      by_cases isEnd : place.ahead = []
      · -- The body that ends here ends the statement; a newline behind it is taken as well.
        rcases ends with accepts | ⟨-, -, rfl⟩
        · exact absurd isEnd accepts.ahead_ne_nil
        by_cases isNewline : (next.onto more).peek.kind = .newline
        · rcases accepts_of_peek_kind isNewline (by simp) with ⟨line, accepts⟩
          exact ⟨line, .statement readsFirst readsWhole (Or.inl accepts),
            accepts.skipNewlines_eq.symm, closesPlace⟩
        · have atBody : (next.onto more).afterBody = true := closesPlace.ends.2 isEnd
          have endsHere : (next.onto more).EndsStatement (next.onto more) :=
            Or.inr ⟨isNewline, by rw [atBody, Bool.or_true], rfl⟩
          exact ⟨_, .statement readsFirst readsWhole endsHere, rfl, closesPlace⟩
      · refine ⟨_, .statement readsFirst readsWhole (ends.onto isEnd more), rfl, ?_⟩
        rcases ends with accepts | ⟨-, -, rfl⟩
        · exact closesPlace.accepts accepts (by simp) (by simp)
        · exact closesPlace

/-- The statements of a program whose bodies are closed, and those of the tokens behind it. -/
theorem Reads.statements_onto
    {cursor next more last : Cursor} {nodes others : List Node}
    (reads : Reads (.statements false) cursor nodes next) (closes : cursor.Closes 0)
    (readsMore : Reads (.statements false) more others last)
    (apart : more.peek.kind = .mark .blockArrow → ∀ node ∈ nodes.getLast?, ¬node.EndsInCall) :
    ∃ final, Reads (.statements false) (cursor.onto more) (nodes ++ others) final := by
  cases reads with
  | noStatements ends =>
      have isEnd : cursor.skipNewlines.ahead = [] := by
        simpa [Cursor.endsStatements, atEnd] using ends
      have atBody := closes.skipNewlines.ends.2 isEnd
      cases newlines : cursor.accept? .newline with
      | some newline =>
          have inLine := (accepts_of_accept? newlines).inLine (by simp)
          rw [skipNewlines_of_some newlines, skipNewlines_inLine inLine] at atBody
          cases atBody
      | none =>
          rw [skipNewlines_of_none newlines] at isEnd
          exact readsMore.statements_behind (by simp [onto, isEnd]) fun _ => rfl
  | @moreStatements _ _ middle _ first rest goesOn isFirst areOthers =>
      have shorter : middle.size < cursor.size :=
        Nat.lt_of_lt_of_le isFirst.statement_size_lt cursor.size_skipNewlines_le
      have filled : cursor.skipNewlines.ahead ≠ [] := by
        simpa [Cursor.endsStatements, atEnd] using goesOn
      have closed : Closed (more.peek.kind = .mark .blockArrow) False 0 (some first) middle := by
        refine ⟨?_, False.elim⟩
        intro follows _ isEnd node isNode
        obtain rfl := areOthers.statements_of_end isEnd
        exact apart follows node isNode
      have apartOthers :
          more.peek.kind = .mark .blockArrow → ∀ node ∈ rest.getLast?, ¬node.EndsInCall := by
        intro follows node isNode
        refine apart follows node ?_
        rw [List.getLast?_cons, Option.mem_def.1 isNode]
        rfl
      rcases isFirst.statement_onto closes.skipNewlines readsMore.not_comma closed with
        ⟨place, readsFirst, samePlace, closesMiddle⟩
      rcases areOthers.statements_onto closesMiddle readsMore apartOthers with ⟨final, readsRest⟩
      have moreAgain : (cursor.onto more).skipNewlines.endsStatements false = false := by
        rw [skipNewlines_onto filled]
        simp [Cursor.endsStatements, atEnd, onto, filled]
      rw [← skipNewlines_onto filled] at readsFirst
      exact ⟨final, .moreStatements moreAgain readsFirst
        (readsRest.statements_congr samePlace.symm)⟩
termination_by cursor.size

end Phrase

/-! ## Lists of tokens -/

namespace Token

theorem find?_end_significant
    {tokens : List Token} (noEnd : ∀ token ∈ tokens, token.kind ≠ .endOfInput) :
    (significant tokens).find? (·.kind = .endOfInput) = none := by
  refine List.find?_eq_none.2 ?_
  intro token member isKind
  exact noEnd token (List.mem_filter.1 member).1 (of_decide_eq_true isKind)

end Token

theorem Token.meaningful_append
    {first : List Token} (noEnd : ∀ token ∈ first, token.kind ≠ .endOfInput) (second : List Token) :
    meaningful (first ++ second) = significant first ++ meaningful second := by
  rw [meaningful, significant, List.filter_append, List.takeWhile_append_of_pos]
  · rfl
  · intro token member
    exact decide_eq_true (noEnd token (List.mem_filter.1 member).1)

theorem Token.meaningful_eq
    {tokens : List Token} (noEnd : ∀ token ∈ tokens, token.kind ≠ .endOfInput) :
    meaningful tokens = significant tokens := by
  have whole := meaningful_append noEnd []
  rw [List.append_nil] at whole
  rw [whole]
  exact List.append_nil _

theorem Token.count_significant
    {kind : Kind} (means : kind.isTrivia = false) (tokens : List Token) :
    ((significant tokens).map Token.kind).count kind = (tokens.map Token.kind).count kind := by
  induction tokens with
  | nil => rfl
  | cons token others inductionHypothesis =>
      cases isTrivia : token.isTrivia with
      | true =>
          have differs : token.kind ≠ kind := by
            rintro rfl
            cases isTrivia.symm.trans means
          rw [significant, List.filter_cons_of_neg (by simp [isTrivia]), List.map_cons,
            List.count_cons_of_ne differs]
          exact inductionHypothesis
      | false =>
          rw [significant, List.filter_cons_of_pos (by simp [isTrivia]), List.map_cons,
            List.map_cons, List.count_cons, List.count_cons, ← inductionHypothesis]
          rfl

/-- Where a list ends with a dedent and has as many of them as indents, its bodies are closed. -/
theorem Cursor.closes_ofTokens
    {tokens : List Token} (noEnd : ∀ token ∈ tokens, token.kind ≠ .endOfInput)
    (atBody : tokens.getLast?.map Token.kind = some .dedent)
    (balanced : (tokens.map Token.kind).count .dedent = (tokens.map Token.kind).count .indent) :
    (Cursor.ofTokens tokens).Closes 0 := by
  rcases Option.map_eq_some_iff.1 atBody with ⟨last, isLast, isDedent⟩
  rcases List.getLast?_eq_some_iff.1 isLast with ⟨front, rfl⟩
  have means : last.isTrivia = false := by
    rw [Token.isTrivia, isDedent]
    rfl
  have whole : (Cursor.ofTokens (front ++ [last])).ahead = Token.significant front ++ [last] := by
    rw [Cursor.ahead_ofTokens, Token.meaningful_eq noEnd, Token.significant, List.filter_append]
    simp [means, Token.significant]
  refine ⟨?_, ?_, ?_⟩
  · rw [Cursor.count, Cursor.count, Cursor.ahead_ofTokens, Token.meaningful_eq noEnd,
      Token.count_significant rfl, Token.count_significant rfl, balanced]
    rfl
  · intro token isToken
    rw [whole, List.getLast?_append] at isToken
    obtain rfl := Option.some.inj isToken
    exact isDedent
  · intro isEnd
    rw [whole] at isEnd
    simp at isEnd

theorem Cursor.ending_ofTokens
    {tokens : List Token} (noEnd : ∀ token ∈ tokens, token.kind ≠ .endOfInput) :
    (Cursor.ofTokens tokens).ending = Cursor.missingEnding (Token.significant tokens) := by
  simp only [Cursor.ofTokens, Token.find?_end_significant noEnd]

/-- Tokens of which none is passed over, and none ends the input. -/
theorem Cursor.ofTokens_of_plain
    {tokens : List Token} (noTrivia : ∀ token ∈ tokens, token.kind.isTrivia = false)
    (noEnd : ∀ token ∈ tokens, token.kind ≠ .endOfInput) :
    Cursor.ofTokens tokens = ⟨tokens, Cursor.missingEnding tokens, false⟩ := by
  calc
    Cursor.ofTokens tokens
    _ = ⟨(Cursor.ofTokens tokens).ahead, (Cursor.ofTokens tokens).ending, false⟩ := rfl
    _ = ⟨tokens, Cursor.missingEnding tokens, false⟩ := by
      rw [ending_ofTokens noEnd, ahead_ofTokens, Token.meaningful_eq noEnd,
        Token.significant_eq_self noTrivia]

namespace Cursor

variable {front second : List Token}

theorem ofTokens_cons
    {token : Token} {others : List Token} (means : token.kind.isTrivia = false)
    (noEnd : ∀ other ∈ token :: others, other.kind ≠ .endOfInput) :
    ofTokens (token :: others) =
      ⟨token :: Token.significant others, (ofTokens (token :: others)).ending, false⟩ := by
  calc
    ofTokens (token :: others)
    _ = ⟨Token.meaningful (token :: others), (ofTokens (token :: others)).ending, false⟩ := rfl
    _ = ⟨token :: Token.significant others, (ofTokens (token :: others)).ending, false⟩ := by
      rw [Token.meaningful_eq noEnd, Token.significant_cons means]

theorem ofTokens_append
    (noEnd : ∀ token ∈ front, token.kind ≠ .endOfInput) (filled : Token.significant second ≠ []) :
    ofTokens (front ++ second) = (ofTokens front).onto (ofTokens second) := by
  have sameEnding : (ofTokens (front ++ second)).ending = (ofTokens second).ending := by
    have sameLast : missingEnding (Token.significant (front ++ second)) =
        missingEnding (Token.significant second) := by
      rw [missingEnding, missingEnding, Token.significant_append, List.getLast?_append,
        List.getLast?_eq_some_getLast filled]
      rfl
    have sameEnd : (Token.significant (front ++ second)).find? (·.kind = .endOfInput) =
        (Token.significant second).find? (·.kind = .endOfInput) := by
      rw [Token.significant_append, List.find?_append, Token.find?_end_significant noEnd]
      rfl
    simp only [ofTokens, sameEnd, sameLast]
  have sameAhead : (ofTokens (front ++ second)).ahead =
      (ofTokens front).ahead ++ (ofTokens second).ahead := by
    rw [ahead_ofTokens, ahead_ofTokens, ahead_ofTokens, Token.meaningful_append noEnd,
      Token.meaningful_eq noEnd]
  calc
    ofTokens (front ++ second)
    _ = ⟨(ofTokens (front ++ second)).ahead, (ofTokens (front ++ second)).ending, false⟩ := rfl
    _ = (ofTokens front).onto (ofTokens second) := by
      rw [sameAhead, sameEnding]
      rfl

/-- Nothing counts behind the end of the input. -/
theorem ofTokens_append_of_end
    (isEnd : ∃ token ∈ front, token.kind = .endOfInput) (second : List Token) :
    ofTokens (front ++ second) = ofTokens front := by
  rcases isEnd with ⟨token, member, isKind⟩
  have means : token.isTrivia = false := by
    rw [Token.isTrivia, isKind]
    rfl
  have isSignificant : token ∈ Token.significant front :=
    List.mem_filter.2 ⟨member, by rw [means]; rfl⟩
  have present : ((Token.significant front).find? (·.kind = .endOfInput)).isSome = true :=
    List.find?_isSome.2 ⟨token, isSignificant, decide_eq_true isKind⟩
  rcases Option.isSome_iff_exists.1 present with ⟨last, isLast⟩
  rcases List.find?_eq_some_iff_append.1 isLast with ⟨stops, before, behind, isFront, passed⟩
  have cut (rest : List Token) :
      (before ++ last :: rest).takeWhile (·.kind ≠ .endOfInput) = before := by
    rw [List.takeWhile_append_of_pos]
    · rw [List.takeWhile_cons_of_neg (by simpa using stops), List.append_nil]
    · intro token member
      simpa using passed token member
  have found : (Token.significant (front ++ second)).find? (·.kind = .endOfInput) = some last := by
    rw [Token.significant_append, List.find?_append, isLast]
    rfl
  have sameAhead : (Token.significant (front ++ second)).takeWhile (·.kind ≠ .endOfInput) =
      (Token.significant front).takeWhile (·.kind ≠ .endOfInput) := by
    rw [Token.significant_append, isFront, List.append_assoc, List.cons_append, cut, cut]
  simp only [ofTokens, found, isLast, sameAhead]

end Cursor

/-- Where tokens follow, they say where the input ends. -/
theorem Cursor.ending_ofTokens_append
    {first second : List Token} (noEnd : ∀ token ∈ first, token.kind ≠ .endOfInput)
    (noEndBehind : ∀ token ∈ second, token.kind ≠ .endOfInput)
    (filled : Token.significant second ≠ []) :
    (Cursor.ofTokens (first ++ second)).ending = (Cursor.ofTokens second).ending := by
  have noEndAtAll : ∀ token ∈ first ++ second, token.kind ≠ .endOfInput := by
    intro token member
    rcases List.mem_append.1 member with inFirst | inSecond
    · exact noEnd token inFirst
    · exact noEndBehind token inSecond
  have sameLast : (Token.significant (first ++ second)).getLast? =
      (Token.significant second).getLast? := by
    have joined : Token.significant (first ++ second) =
        Token.significant first ++ Token.significant second := List.filter_append first second
    rw [joined, List.getLast?_append, List.getLast?_eq_some_getLast filled]
    rfl
  rw [ending_ofTokens noEndAtAll, ending_ofTokens noEndBehind, missingEnding, missingEnding,
    sameLast]

/-- A program whose bodies are all closed, the last of them by its last token, and another program
behind it. -/
theorem parseTokens_append_of_closed
    {first second : List Token} {nodes others : List Node}
    (noEnd : ∀ token ∈ first, token.kind ≠ .endOfInput)
    (noEndBehind : ∀ token ∈ second, token.kind ≠ .endOfInput)
    (atBody : first.getLast?.map Token.kind = some .dedent)
    (balanced : (first.map Token.kind).count .dedent = (first.map Token.kind).count .indent)
    (parsed : parseTokens first = .ok nodes) (parsedBehind : parseTokens second = .ok others)
    (apart : (Token.significant second).head?.map Token.kind ≠ some (.mark .blockArrow) ∨
      ∀ node ∈ nodes.getLast?, ¬node.EndsInCall) :
    parseTokens (first ++ second) = .ok (nodes ++ others) := by
  rcases parseTokens_eq_ok_iff.1 parsed with ⟨last, reads⟩
  rcases parseTokens_eq_ok_iff.1 parsedBehind with ⟨lastBehind, readsBehind⟩
  have behind : (Cursor.ofTokens second).ahead = Token.significant second :=
    Token.meaningful_eq noEndBehind
  let more : Cursor :=
    ⟨Token.significant second, (Cursor.ofTokens (first ++ second)).ending, false⟩
  have whole : Cursor.ofTokens (first ++ second) = (Cursor.ofTokens first).onto more := by
    have joined : (Cursor.ofTokens (first ++ second)).ahead =
        (Cursor.ofTokens first).ahead ++ Token.significant second := by
      rw [Cursor.ahead_ofTokens, Cursor.ahead_ofTokens, Token.meaningful_append noEnd,
        Token.meaningful_eq noEnd, Token.meaningful_eq noEndBehind]
    calc
      Cursor.ofTokens (first ++ second)
      _ = ⟨(Cursor.ofTokens (first ++ second)).ahead,
          (Cursor.ofTokens (first ++ second)).ending, false⟩ := rfl
      _ = (Cursor.ofTokens first).onto more := by
        rw [joined]
        rfl
  have readsMore : ∃ place, Phrase.Reads (.statements false) more others place := by
    refine readsBehind.statements_behind behind.symm ?_
    intro filled
    rw [behind] at filled
    exact Cursor.ending_ofTokens_append noEnd noEndBehind filled
  rcases readsMore with ⟨place, readsMore⟩
  have closes := Cursor.closes_ofTokens noEnd atBody balanced
  have apartHere : more.peek.kind = .mark .blockArrow →
      ∀ node ∈ nodes.getLast?, ¬node.EndsInCall := by
    intro isArrow
    refine apart.resolve_left ?_
    intro noArrow
    rcases Cursor.accepts_of_peek_kind isArrow (by simp) with ⟨next, accepts⟩
    rcases accepts.ahead with ⟨arrow, isAhead, isKind⟩
    have isFirst : Token.significant second = arrow :: next.ahead := isAhead
    rw [isFirst, List.head?_cons, Option.map_some, isKind] at noArrow
    exact noArrow rfl
  rw [parseTokens_eq_ok_iff, whole]
  exact reads.statements_onto closes readsMore apartHere

/-- A class with a method in it, both closed, and a block behind them. -/
theorem parseTokens_append_class_and_block :
    ∃ first second : List Token,
      first.map Token.kind =
        [.keyword .classWord, .constant "A", .newline, .indent, .identifier "m", .mark .arrow,
          .newline, .indent, .integer 1, .dedent, .dedent] ∧
      second.map Token.kind = [.mark .blockArrow] ∧
      parseTokens (first ++ second) = .ok
        [.classDefinition (.constant "A") none [.method "m" ⟨[], [.integer 1]⟩],
          .block ⟨[], []⟩] := by
  let first : List Token :=
    [(Kind.keyword .classWord, false), (.constant "A", true), (.newline, false), (.indent, false),
      (.identifier "m", false), (.mark .arrow, true), (.newline, false), (.indent, false),
      (.integer 1, false), (.dedent, false), (.dedent, false)].map
        fun (kind, spaced) => ⟨kind, "", ⟨1, 1, none⟩, spaced⟩
  let second : List Token := [⟨.mark .blockArrow, "&>", ⟨1, 1, none⟩, false⟩]
  have parsed : parseTokens first = .ok
      [.classDefinition (.constant "A") none [.method "m" ⟨[], [.integer 1]⟩]] := by
    with_unfolding_all rfl
  have parsedBehind : parseTokens second = .ok [.block ⟨[], []⟩] := by
    with_unfolding_all rfl
  have noCall : ∀ node ∈ [Node.classDefinition (.constant "A") none
      [.method "m" ⟨[], [.integer 1]⟩]].getLast?, ¬node.EndsInCall := by
    intro node isLast
    obtain rfl := Option.some.inj isLast
    rintro ⟨⟩
  have noEnd : ∀ token ∈ first, token.kind ≠ .endOfInput := by decide
  have noEndBehind : ∀ token ∈ second, token.kind ≠ .endOfInput := by decide
  exact ⟨first, second, rfl, rfl,
    parseTokens_append_of_closed noEnd noEndBehind rfl rfl parsed parsedBehind (Or.inr noCall)⟩

/-- A body that is left open takes in what follows, although the last token closes the body in it.
A call takes the block behind it for its own, although its last token has closed the body of its
argument, after which nothing should go on: the place in front of the block is not asked about. -/
theorem parseTokens_append_not_closed :
    (∃ first second : List Token, ∃ nodes others : List Node,
      first.map Token.kind =
        [.identifier "m", .mark .arrow, .newline, .indent, .identifier "n", .mark .arrow, .newline,
          .indent, .integer 1, .dedent] ∧
      second.map Token.kind = [.integer 2] ∧
      parseTokens first = .ok nodes ∧ parseTokens second = .ok others ∧
      parseTokens (first ++ second) ≠ .ok (nodes ++ others)) ∧
    ∃ first second : List Token, ∃ nodes others : List Node,
      first.map Token.kind =
        [.identifier "f", .identifier "m", .mark .arrow, .newline, .indent, .integer 1, .dedent] ∧
      second.map Token.kind = [.mark .blockArrow] ∧
      parseTokens first = .ok nodes ∧ parseTokens second = .ok others ∧
      parseTokens (first ++ second) ≠ .ok (nodes ++ others) := by
  let tokens : List (Kind × Bool) → List Token :=
    List.map fun (kind, spaced) => ⟨kind, "", ⟨1, 1, none⟩, spaced⟩
  constructor
  · let first := tokens
      [(.identifier "m", false), (.mark .arrow, true), (.newline, false), (.indent, false),
        (.identifier "n", false), (.mark .arrow, true), (.newline, false), (.indent, false),
        (.integer 1, false), (.dedent, false)]
    let second := tokens [(.integer 2, false)]
    have parsed : parseTokens first =
        .ok [.method "m" ⟨[], [.method "n" ⟨[], [.integer 1]⟩]⟩] := by
      with_unfolding_all rfl
    have parsedBehind : parseTokens second = .ok [.integer 2] := by
      with_unfolding_all rfl
    have together : parseTokens (first ++ second) =
        .ok [.method "m" ⟨[], [.method "n" ⟨[], [.integer 1]⟩, .integer 2]⟩] := by
      with_unfolding_all rfl
    refine ⟨first, second, _, _, rfl, rfl, parsed, parsedBehind, ?_⟩
    rw [together]
    simp
  · let first := tokens
      [(.identifier "f", false), (.identifier "m", true), (.mark .arrow, true), (.newline, false),
        (.indent, false), (.integer 1, false), (.dedent, false)]
    let second := tokens [(.mark .blockArrow, false)]
    have parsed : parseTokens first =
        .ok [.call "f" [.method "m" ⟨[], [.integer 1]⟩] none] := by
      with_unfolding_all rfl
    have parsedBehind : parseTokens second = .ok [.block ⟨[], []⟩] := by
      with_unfolding_all rfl
    have together : parseTokens (first ++ second) =
        .ok [.call "f" [.method "m" ⟨[], [.integer 1]⟩] (some ⟨[], []⟩)] := by
      with_unfolding_all rfl
    refine ⟨first, second, _, _, rfl, rfl, parsed, parsedBehind, ?_⟩
    rw [together]
    simp

end ScriptFront
