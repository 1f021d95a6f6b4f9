import ScriptFront.Proofs.Grammar.ClosedPrograms

/-!
# A program as an indented body

The tokens of a program may stand in front of a dedent.  Its statements are then read as they are at
the end of the input: a body that the end left open takes the dedent, and otherwise the dedent ends
the last statement.
-/

namespace ScriptFront

namespace Cursor

/-- The last token ahead is no colon. -/
def NoLastColon (cursor : Cursor) : Prop :=
  ∀ token, cursor.ahead.getLast? = some token → token.kind ≠ .mark .colon

variable {cursor other next last more final : Cursor} {token : Token} {kind : Kind} {depth : Nat}

theorem NoLastColon.of_passed
    {passed : List Token} (noColon : cursor.NoLastColon)
    (isPassed : cursor.ahead = passed ++ next.ahead) : next.NoLastColon := by
  intro token isLast
  apply noColon token
  rw [isPassed, List.getLast?_append, isLast]
  rfl

theorem NoLastColon.takes (noColon : cursor.NoLastColon) (takes : cursor.Takes token next) :
    next.NoLastColon := by
  have isPassed : cursor.ahead = [token] ++ next.ahead := takes.ahead
  exact noColon.of_passed isPassed

theorem NoLastColon.skipNewlines (noColon : cursor.NoLastColon) :
    cursor.skipNewlines.NoLastColon := by
  rcases ahead_skipNewlines cursor with ⟨lines, isPassed, -⟩
  exact noColon.of_passed isPassed

theorem NoLastColon.startsBody (noColon : cursor.NoLastColon) (starts : cursor.StartsBody next) :
    next.NoLastColon := by
  rcases starts.ahead with ⟨newline, lines, indent, isAhead, -⟩
  have isPassed : cursor.ahead = (newline :: lines ++ [indent]) ++ next.ahead := by
    rw [isAhead, List.append_assoc]
    rfl
  exact noColon.of_passed isPassed

theorem accept?_of_end (isEnd : cursor.ahead = []) (kind : Kind) : cursor.accept? kind = none := by
  cases found : cursor.accept? kind with
  | none => rfl
  | some taken => exact absurd isEnd (accepts_of_accept? found).ahead_ne_nil

theorem skipNewlines_of_end (isEnd : cursor.ahead = []) : cursor.skipNewlines = cursor :=
  skipNewlines_of_none (accept?_of_end isEnd .newline)

theorem skipDedent_of_end (isEnd : cursor.ahead = []) : cursor.skipDedent = cursor := by
  rw [skipDedent, accept?_of_end isEnd]

theorem endsStatements_of_end (isEnd : cursor.ahead = []) (inBody : Bool) :
    cursor.endsStatements inBody = true := by
  rw [Cursor.endsStatements, atEnd, isEnd]
  rfl

theorem endsStatements_of_dedent (isDedent : cursor.peek.kind = .dedent) :
    cursor.endsStatements true = true := by
  rw [Cursor.endsStatements, isAt, isDedent]
  exact Bool.or_true _

/-- A statement ends where its body does. -/
theorem endsStatement_of_endsStatements (ends : cursor.endsStatements true = true) :
    cursor.EndsStatement cursor := by
  refine Or.inr ⟨?_, ?_, rfl⟩
  · by_cases isEnd : cursor.ahead = []
    · rw [peek_of_end isEnd]
      exact Kind.noConfusion
    · have isDedent : cursor.peek.kind = .dedent := by
        simpa [Cursor.endsStatements, isAt, atEnd_of_filled isEnd] using ends
      rw [isDedent]
      exact Kind.noConfusion
  · rw [Cursor.endsStatements, Bool.true_and, Bool.or_comm] at ends
    rw [ends, Bool.true_or]

/-! ## More tokens, which start with layout -/

theorem Accepts.onto_of_end (accepts : more.Accepts kind next) (isEnd : cursor.ahead = []) :
    (cursor.onto more).Accepts kind next := by
  rcases accepts with ⟨token, takes, isKind⟩
  refine ⟨token, ⟨?_, takes.ending, takes.afterBody⟩, isKind⟩
  rw [Cursor.onto, isEnd]
  exact takes.ahead

theorem isLayout_peek_onto
    (layoutMore : more.peek.kind.isLayout = true) (layout : cursor.peek.kind.isLayout = true) :
    (cursor.onto more).peek.kind.isLayout = true := by
  by_cases isEnd : cursor.ahead = []
  · rw [peek_onto_of_end isEnd]
    exact layoutMore
  · rw [peek_onto isEnd]
    exact layout

/-- Behind a colon that is not the last token the same token is next. -/
theorem spaced_behind_colon_onto
    (noColon : cursor.NoLastColon) (isColon : cursor.Accepts (.mark .colon) next)
    (isColonOnto : (cursor.onto more).Accepts (.mark .colon) last) :
    last.peek.spaced = next.peek.spaced := by
  obtain rfl := isColonOnto.unique (isColon.onto more)
  have filled : next.ahead ≠ [] := by
    intro isEnd
    rcases isColon.ahead with ⟨colon, isAhead, isKind⟩
    apply noColon colon ?_ isKind
    rw [isAhead, isEnd]
    rfl
  rw [peek_onto filled]

theorem not_continuesArgument (layout : token.kind.isLayout = true) :
    continuesArgument token = false := by
  unfold continuesArgument
  generalize token.kind = kind at layout
  cases kind with
  | newline | indent | dedent | endOfInput => rfl
  | _ => cases layout

/-- Layout behind parentheses continues no argument, as no end does. -/
theorem continuesBehindParens_onto
    {rest : List Token} (layoutMore : more.peek.kind.isLayout = true)
    (found : behindParens? 0 cursor.ahead = some rest) :
    (cursor.onto more).continuesBehindParens = cursor.continuesBehindParens := by
  have foundFurther := behindParens?_append found more.ahead
  unfold continuesBehindParens
  rw [found, onto, foundFurther]
  cases rest with
  | cons token others => rfl
  | nil =>
      rw [List.nil_append]
      cases isAhead : more.ahead with
      | nil => rfl
      | cons first others =>
          rw [(takes_past isAhead).peek] at layoutMore
          exact not_continuesArgument layoutMore

theorem StartsBody.onto (starts : cursor.StartsBody next) (more : Cursor) :
    (cursor.onto more).StartsBody (next.onto more) := by
  rcases starts with ⟨line, isLine, isIndent⟩
  refine ⟨line.onto more, isLine.onto more, ?_⟩
  rw [skipNewlines_onto isIndent.ahead_ne_nil]
  exact isIndent.onto more

/-- What is not the first of the further tokens stands in front of them. -/
theorem accepts_of_onto_ne
    (accepts : (cursor.onto more).Accepts kind last) (differs : more.peek.kind ≠ kind) :
    ∃ next, cursor.Accepts kind next ∧ last = next.onto more := by
  by_cases isEnd : cursor.ahead = []
  · have isKind := accepts.peek_kind
    rw [peek_onto_of_end isEnd] at isKind
    exact absurd isKind differs
  · exact accepts_of_onto accepts isEnd

theorem skipNewlines_onto_of_ne (differs : more.peek.kind ≠ .newline) (cursor : Cursor) :
    (cursor.onto more).skipNewlines = cursor.skipNewlines.onto more := by
  induction cursor using skipNewlines.induct with
  | case1 cursor absent =>
      rw [skipNewlines_of_none absent]
      apply skipNewlines_of_none
      apply accept?_eq_none
      intro isNewline
      rcases accepts_of_peek_kind isNewline (by simp) with ⟨last, accepts⟩
      rcases accepts_of_onto_ne accepts differs with ⟨next, acceptsHere, -⟩
      exact peek_kind_ne_of_accept? absent (by simp) acceptsHere.peek_kind
  | case2 cursor newline present _ inductionHypothesis =>
      rw [((accepts_of_accept? present).onto more).skipNewlines_eq, inductionHypothesis,
        skipNewlines_of_some present]

/-! ## A dedent in place of the end -/

/-- The second place is the first one with the dedent behind it, or both lists have ended. -/
inductive ShutBy (more cursor : Cursor) : Cursor → Prop where
  | ahead (noColon : cursor.NoLastColon) : ShutBy more cursor (cursor.onto more)
  | ended {other : Cursor} (isEnd : cursor.ahead = []) (isEndOther : other.ahead = []) :
      ShutBy more cursor other

namespace ShutBy

theorem isLayout_peek
    (shut : ShutBy more cursor other) (isDedent : more.peek.kind = .dedent)
    (layout : cursor.peek.kind.isLayout = true) : other.peek.kind.isLayout = true := by
  cases shut with
  | ahead noColon =>
      apply isLayout_peek_onto ?_ layout
      rw [isDedent]
      rfl
  | ended _ isEndOther =>
      rw [peek_of_end isEndOther]
      rfl

/-- Where the first list has ended, a body ends at the second place, and with it the second list. -/
theorem of_end
    (shut : ShutBy more cursor other) (closes : more.Accepts .dedent final)
    (ends : final.ahead = []) (isEnd : cursor.ahead = []) :
    other.endsStatements true = true ∧ other.skipDedent.ahead = [] := by
  cases shut with
  | ahead noColon =>
      have closesHere : (cursor.onto more).Accepts .dedent final := closes.onto_of_end isEnd
      rw [closesHere.skipDedent_eq]
      exact ⟨endsStatements_of_dedent closesHere.peek_kind, ends⟩
  | ended _ isEndOther =>
      rw [skipDedent_of_end isEndOther]
      exact ⟨endsStatements_of_end isEndOther true, isEndOther⟩

theorem skipNewlines (shut : ShutBy more cursor other) (isDedent : more.peek.kind = .dedent) :
    ShutBy more cursor.skipNewlines other.skipNewlines := by
  cases shut with
  | ahead noColon =>
      rw [skipNewlines_onto_of_ne (by simp [isDedent])]
      exact .ahead noColon.skipNewlines
  | ended isEnd isEndOther =>
      rw [skipNewlines_of_end isEnd, skipNewlines_of_end isEndOther]
      exact .ended isEnd isEndOther

/-- No body starts with the dedent. -/
theorem startsBody
    (shut : ShutBy more cursor other) (isDedent : more.peek.kind = .dedent)
    (starts : other.StartsBody last) : ∃ next, cursor.StartsBody next ∧ ShutBy more next last := by
  rcases starts with ⟨line, isLine, isIndent⟩
  cases shut with
  | ended _ isEndOther => exact absurd isEndOther isLine.ahead_ne_nil
  | ahead noColon =>
      rcases accepts_of_onto_ne isLine (by simp [isDedent]) with ⟨lineHere, isLineHere, rfl⟩
      rw [skipNewlines_onto_of_ne (by simp [isDedent])] at isIndent
      rcases accepts_of_onto_ne isIndent (by simp [isDedent]) with ⟨start, isIndentHere, rfl⟩
      have startsHere : cursor.StartsBody start := ⟨lineHere, isLineHere, isIndentHere⟩
      exact ⟨start, startsHere, .ahead (noColon.startsBody startsHere)⟩

theorem bodyStart?
    (shut : ShutBy more cursor other) (isDedent : more.peek.kind = .dedent)
    (absent : cursor.bodyStart? = none) : other.bodyStart? = none := by
  apply bodyStart?_eq_none
  intro last starts
  rcases shut.startsBody isDedent starts with ⟨next, startsHere, -⟩
  rcases bodyStart?_of_startsBody startsHere with ⟨found, isFound, -⟩
  cases absent.symm.trans isFound

theorem endsStatements
    (shut : ShutBy more cursor other) (closes : more.Accepts .dedent final)
    (ends : final.ahead = []) : other.endsStatements true = cursor.endsStatements true := by
  by_cases isEnd : cursor.ahead = []
  · rw [(shut.of_end closes ends isEnd).1, endsStatements_of_end isEnd]
  · cases shut with
    | ended isEndHere => exact absurd isEndHere isEnd
    | ahead noColon => exact endsStatements_onto isEnd more true

theorem endsStatement
    (shut : ShutBy more cursor other) (closes : more.Accepts .dedent final)
    (ends : final.ahead = []) (endsHere : cursor.EndsStatement next) :
    ∃ last, other.EndsStatement last ∧ ShutBy more next last := by
  by_cases isEnd : cursor.ahead = []
  · rcases endsHere with accepts | ⟨-, -, rfl⟩
    · exact absurd isEnd accepts.ahead_ne_nil
    · have endsOther := (shut.of_end closes ends isEnd).1
      exact ⟨other, endsStatement_of_endsStatements endsOther, shut⟩
  · cases shut with
    | ended isEndHere => exact absurd isEndHere isEnd
    | ahead noColon =>
        refine ⟨_, endsHere.onto isEnd more, .ahead ?_⟩
        rcases endsHere with ⟨newline, takes, -⟩ | ⟨-, -, rfl⟩
        · exact noColon.takes takes
        · exact noColon

theorem skipDedent
    (shut : ShutBy more cursor other) (closes : more.Accepts .dedent final)
    (ends : final.ahead = []) (endsHere : cursor.endsStatements true = true) :
    ShutBy more cursor.skipDedent other.skipDedent := by
  by_cases isEnd : cursor.ahead = []
  · have endsOther := (shut.of_end closes ends isEnd).2
    rw [skipDedent_of_end isEnd]
    exact .ended isEnd endsOther
  · have isDedent : cursor.peek.kind = .dedent := by
      simpa [Cursor.endsStatements, isAt, atEnd_of_filled isEnd] using endsHere
    rcases accepts_of_peek_kind isDedent (by simp) with ⟨next, accepts⟩
    cases shut with
    | ended isEndHere => exact absurd isEndHere isEnd
    | ahead noColon =>
        rw [accepts.skipDedent_eq, (accepts.onto more).skipDedent_eq]
        rcases accepts with ⟨dedent, takes, -⟩
        exact .ahead (noColon.takes takes)

end ShutBy

theorem simulation_shutBy (closes : more.Accepts .dedent final) (ends : final.ahead = []) :
    Simulation (fun _ => ShutBy more) False False where
  takes := by
    intro depth cursor other next token shut takes _
    cases shut with
    | ahead noColon => exact ⟨_, takes.onto more, .ahead (noColon.takes takes)⟩
    | ended isEnd =>
        have isAhead := takes.ahead
        rw [isEnd] at isAhead
        cases isAhead
  afterBody := by
    intro depth cursor other shut filled
    cases shut with
    | ahead noColon => rfl
    | ended _ isEndOther => exact absurd isEndOther filled
  stops := by
    intro depth cursor other shut layout _
    exact Token.stopsPhrase_of_isLayout (shut.isLayout_peek closes.peek_kind layout)
  noComma := by
    intro depth cursor other shut layout _
    exact Kind.ne_of_isLayout (shut.isLayout_peek closes.peek_kind layout) rfl
  block := by
    intro depth cursor other shut layout _ isArrow
    have layoutOther := shut.isLayout_peek closes.peek_kind layout
    exact absurd isArrow (Kind.ne_of_isLayout layoutOther rfl)
  colon := by
    intro depth cursor other next last shut isColon isColonOther
    cases shut with
    | ahead noColon => exact spaced_behind_colon_onto noColon isColon isColonOther
    | ended isEnd => exact absurd isEnd isColon.ahead_ne_nil
  parens := by
    intro depth cursor other rest shut found
    cases shut with
    | ahead noColon =>
        apply continuesBehindParens_onto ?_ found
        rw [closes.peek_kind]
        rfl
    | ended isEnd =>
        rw [isEnd] at found
        cases found
  noBody := by
    intro depth cursor other shut _ _ absent
    exact shut.bodyStart? closes.peek_kind absent
  body := by
    intro depth cursor other start shut starts
    cases shut with
    | ahead noColon => exact ⟨_, starts.onto more, .ahead (noColon.startsBody starts)⟩
    | ended isEnd =>
        rcases starts with ⟨line, isLine, -⟩
        exact absurd isEnd isLine.ahead_ne_nil
  skipNewlines := fun shut _ => shut.skipNewlines closes.peek_kind
  endsStatements := fun shut _ => shut.endsStatements closes ends
  endsStatement := fun shut _ endsHere => shut.endsStatement closes ends endsHere
  skipDedent := fun shut _ endsHere => shut.skipDedent closes ends endsHere

end Cursor

namespace Phrase

open Cursor

/-- No program ends with a colon. -/
theorem Reads.noLastColon
    {cursor next : Cursor} {nodes : List Node}
    (reads : Reads (.statements false) cursor nodes next) : cursor.NoLastColon := by
  have passes : cursor.Passes next := reads.passes
  rcases passes.last_ne_colon with ⟨passed, isPassed, noColon⟩
  rw [ahead_eq_nil_of_program reads, List.append_nil] at isPassed
  rw [NoLastColon, isPassed]
  exact noColon

/-- The statements of a program are read in front of a dedent as well. -/
theorem Reads.statements_shutBy
    {cursor other next more final : Cursor} {nodes : List Node}
    (reads : Reads (.statements false) cursor nodes next) (closes : more.Accepts .dedent final)
    (ends : final.ahead = []) (shut : ShutBy more cursor other) :
    ∃ last, Reads (.statements true) other nodes last ∧ last.skipDedent.ahead = [] := by
  have behind := shut.skipNewlines closes.peek_kind
  cases reads with
  | noStatements atEnd =>
      have isEnd : cursor.skipNewlines.ahead = [] := by
        simpa [Cursor.endsStatements, Cursor.atEnd] using atEnd
      have endsOther := behind.of_end closes ends isEnd
      exact ⟨_, .noStatements endsOther.1, endsOther.2⟩
  | @moreStatements _ _ middle _ first others _ isFirst areOthers =>
      have shorter : middle.size < cursor.size :=
        Nat.lt_of_lt_of_le isFirst.statement_size_lt cursor.size_skipNewlines_le
      have inside : (1 : Nat) ≠ 0 := Nat.one_ne_zero
      rcases isFirst.simulated (simulation_shutBy closes ends) behind inside closed_of_nothing with
        ⟨place, readsFirst, shutMiddle⟩
      rcases areOthers.statements_shutBy closes ends shutMiddle with ⟨last, readsOthers, isEnd⟩
      have goesOnOther :=
        (behind.endsStatements closes ends).trans (isFirst.statement_goesOn true)
      exact ⟨last, .moreStatements goesOnOther readsFirst readsOthers, isEnd⟩
termination_by cursor.size

end Phrase

/-- The tokens of a program with a dedent behind them are the statements of a body. -/
theorem reads_body_of_parseTokens
    {inner : List Token} {nodes : List Node} {dedent : Token}
    (noEnd : ∀ token ∈ inner, token.kind ≠ .endOfInput) (parsed : parseTokens inner = .ok nodes)
    (isDedent : dedent.kind = .dedent) (ending : Ending) :
    ∃ last, Phrase.Reads (.statements true)
      ⟨Token.significant inner ++ [dedent], ending, false⟩ nodes last ∧
      last.skipDedent.ahead = [] := by
  rcases parseTokens_eq_ok_iff.1 parsed with ⟨next, reads⟩
  let more : Cursor := ⟨[dedent], ending, false⟩
  have closes : more.Accepts .dedent ⟨[], ending, true⟩ :=
    ⟨dedent, ⟨rfl, rfl, (decide_eq_true isDedent).symm⟩, isDedent⟩
  have whole : (Cursor.ofTokens inner).onto more =
      ⟨Token.significant inner ++ [dedent], ending, false⟩ := by
    rw [Cursor.onto, Cursor.ahead_ofTokens, Token.meaningful_eq noEnd]
    rfl
  rw [← whole]
  exact reads.statements_shutBy closes rfl (.ahead reads.noLastColon)

end ScriptFront
