import ScriptFront.Proofs.Grammar.SimulatedReading

/-!
# Blank lines and the margins of lines

A program without indented bodies is read line by line.  Neither blank lines nor the blanks at
either end of a line make a difference to what is read: such programs are the same once all that is
left out.
-/

namespace ScriptFront

namespace Token

/-- The tokens without blank lines.  Nothing is said of how the first token of a line is set off,
nor of the newline behind the last one. -/
def compact : Bool → List Token → List Token
  | _, [] => []
  | atStart, token :: others =>
    if token.kind = .newline then
      if atStart then compact true others
      else ⟨.newline, "\n", default, false⟩ :: compact true others
    else { token with spaced := token.spaced && !atStart } :: compact false others

/-- Two lists go on with the same line, and with the same lines behind it. -/
inductive Aligned : List Token → List Token → Prop where
  | nil : Aligned [] []
  | token {token : Token} {others more : List Token} (inLine : token.kind ≠ .newline)
      (same : compact false others = compact false more) : Aligned (token :: others) (token :: more)
  | line {line again : Token} {others more : List Token} (isLine : line.kind = .newline)
      (isLineAgain : again.kind = .newline) (same : compact true others = compact true more) :
      Aligned (line :: others) (again :: more)

variable {token : Token} {first second others : List Token}

theorem compact_blank (isLine : token.kind = .newline) (others : List Token) :
    compact true (token :: others) = compact true others := by
  rw [compact, if_pos isLine, if_pos rfl]

theorem compact_line (isLine : token.kind = .newline) (others : List Token) :
    compact false (token :: others) =
      ⟨.newline, "\n", default, false⟩ :: compact true others := by
  rw [compact, if_pos isLine, if_neg Bool.false_ne_true]

theorem compact_start (inLine : token.kind ≠ .newline) (others : List Token) :
    compact true (token :: others) = { token with spaced := false } :: compact false others := by
  rw [compact, if_neg inLine]
  simp

theorem compact_token (inLine : token.kind ≠ .newline) (others : List Token) :
    compact false (token :: others) = token :: compact false others := by
  rw [compact, if_neg inLine]
  simp

theorem aligned_of_compact (same : compact false first = compact false second) :
    Aligned first second := by
  cases first with
  | nil =>
      cases second with
      | nil => exact .nil
      | cons again more =>
          by_cases isLine : again.kind = .newline
          · rw [compact_line isLine] at same
            cases same
          · rw [compact_token isLine] at same
            cases same
  | cons token others =>
      cases second with
      | nil =>
          by_cases isLine : token.kind = .newline
          · rw [compact_line isLine] at same
            cases same
          · rw [compact_token isLine] at same
            cases same
      | cons again more =>
          by_cases isLine : token.kind = .newline
          · by_cases isLineAgain : again.kind = .newline
            · rw [compact_line isLine, compact_line isLineAgain] at same
              exact .line isLine isLineAgain (List.cons.inj same).2
            · rw [compact_line isLine, compact_token isLineAgain] at same
              exact absurd (congrArg Token.kind (List.cons.inj same).1).symm isLineAgain
          · by_cases isLineAgain : again.kind = .newline
            · rw [compact_token isLine, compact_line isLineAgain] at same
              exact absurd (congrArg Token.kind (List.cons.inj same).1) isLine
            · rw [compact_token isLine, compact_token isLineAgain] at same
              obtain ⟨rfl, sameBehind⟩ := List.cons.inj same
              exact .token isLine sameBehind

end Token

namespace Cursor

open Token

variable {cursor other next last : Cursor} {token : Token}

/-! ## Looking ahead -/

theorem behindParens?_compact (depth : Nat) (atStart : Bool) (tokens : List Token) :
    behindParens? depth (compact atStart tokens) =
      (behindParens? depth tokens).map (compact false) := by
  induction tokens generalizing depth atStart with
  | nil => rfl
  | cons token others inductionHypothesis =>
      by_cases isLine : token.kind = .newline
      · have passed : behindParens? depth (token :: others) = behindParens? depth others := by
          simp [behindParens?, isLine]
        rw [passed, ← inductionHypothesis depth true]
        cases atStart with
        | true => rw [compact_blank isLine]
        | false =>
            rw [compact_line isLine]
            simp [behindParens?]
      · rw [compact, if_neg isLine]
        simp only [behindParens?, inductionHypothesis]
        split
        · rfl
        · split
          · split <;> rfl
          · rfl

/-- What stands behind parentheses is of the same kind, however the lines are set apart. -/
theorem continuesBehindParens_of_compact
    (same : compact false cursor.ahead = compact false other.ahead) :
    other.continuesBehindParens = cursor.continuesBehindParens := by
  have behind := behindParens?_compact 0 false cursor.ahead
  rw [same, behindParens?_compact 0 false other.ahead] at behind
  unfold continuesBehindParens
  cases found : behindParens? 0 cursor.ahead with
  | none =>
      rw [found, Option.map_none] at behind
      rw [Option.map_eq_none_iff.1 behind]
  | some rest =>
      rw [found, Option.map_some] at behind
      rcases Option.map_eq_some_iff.1 behind with ⟨more, foundOther, sameBehind⟩
      rw [foundOther]
      cases aligned_of_compact sameBehind with
      | nil | token => rfl
      | line isLineOther isLine =>
          simp only [continuesArgument, isLine, isLineOther]

/-! ## Within a line -/

/-- No body is indented here. -/
structure Flat (cursor : Cursor) : Prop where
  layout : ∀ token ∈ cursor.ahead, token.kind.isLayout = true → token.kind = .newline
  inLine : cursor.afterBody = false

namespace Flat

theorem takes (flat : cursor.Flat) (takes : cursor.Takes token next) : next.Flat := by
  have layout := flat.layout
  rw [takes.ahead] at layout
  obtain ⟨isHead, areBehind⟩ := List.forall_mem_cons.1 layout
  refine ⟨areBehind, takes.inLine ?_⟩
  intro isDedent
  rw [isDedent] at isHead
  cases isHead rfl

theorem bodyStart? (flat : cursor.Flat) : cursor.bodyStart? = none := by
  refine bodyStart?_of_noIndent ?_
  intro token member isIndent
  have isLine := flat.layout token member (by rw [isIndent]; rfl)
  cases isIndent.symm.trans isLine

theorem not_startsBody (flat : cursor.Flat) : ¬cursor.StartsBody next := by
  intro starts
  rcases bodyStart?_of_startsBody starts with ⟨start, found, -⟩
  cases flat.bodyStart?.symm.trans found

theorem skipNewlines (flat : cursor.Flat) : cursor.skipNewlines.Flat := by
  refine ⟨?_, skipNewlines_inLine flat.inLine⟩
  rcases ahead_skipNewlines cursor with ⟨lines, isAhead, -⟩
  intro token member
  refine flat.layout token ?_
  rw [isAhead]
  exact List.mem_append_right lines member

/-- A statement ends with its line. -/
theorem endsStatement (flat : cursor.Flat) (ends : cursor.EndsStatement next) :
    (∃ line, cursor.Takes line next ∧ line.kind = .newline) ∨
      cursor.ahead = [] ∧ next = cursor := by
  rcases ends with accepts | ⟨-, ends, rfl⟩
  · exact Or.inl accepts
  · cases isAhead : next.ahead with
    | nil => exact Or.inr ⟨rfl, rfl⟩
    | cons token rest =>
        have isDedent : token.kind = .dedent := by
          simpa [isAt, (takes_past isAhead).peek, atEnd, isAhead, flat.inLine] using ends
        have member : token ∈ next.ahead := by
          rw [isAhead]
          exact List.mem_cons_self
        have isLine := flat.layout token member (by rw [isDedent]; rfl)
        cases isDedent.symm.trans isLine

end Flat

theorem endsStatement_of_end (isEnd : cursor.ahead = []) : cursor.EndsStatement cursor := by
  refine Or.inr ⟨?_, ?_, rfl⟩
  · rw [peek_of_end isEnd]
    simp [Ending.token]
  · simp [atEnd, isEnd]

/-- The tokens of the line ahead. -/
def line (cursor : Cursor) : List Token := cursor.ahead.takeWhile (·.kind ≠ .newline)

/-- The tokens from the end of the line on. -/
def behindLine (cursor : Cursor) : List Token := cursor.ahead.dropWhile (·.kind ≠ .newline)

theorem line_append_behindLine (cursor : Cursor) :
    cursor.line ++ cursor.behindLine = cursor.ahead :=
  List.takeWhile_append_dropWhile

theorem newline_of_behindLine (cursor : Cursor) :
    ∀ token ∈ cursor.behindLine.head?, token.kind = .newline := by
  intro token isHead
  have stops := List.head?_dropWhile_not (fun token : Token => decide (token.kind ≠ .newline))
    cursor.ahead
  rw [show cursor.ahead.dropWhile _ = cursor.behindLine from rfl, Option.mem_def.1 isHead] at stops
  simpa using stops

/-- The place is in a line, and the rest of the tokens is behind that line. -/
structure WithinLine (rest : List Token) (depth : Nat) (cursor other : Cursor) : Prop where
  outside : depth = 0
  other_eq : other = cursor
  flat : cursor.Flat
  line : ∃ line, cursor.ahead = line ++ rest ∧ ∀ token ∈ line, token.kind ≠ .newline

theorem Flat.withinLine (flat : cursor.Flat) : WithinLine cursor.behindLine 0 cursor cursor := by
  refine ⟨rfl, rfl, flat, cursor.line, cursor.line_append_behindLine.symm, ?_⟩
  intro token member
  have isTaken := List.all_eq_true.1 List.all_takeWhile token member
  simpa using isTaken

/-- No part of a statement goes on behind the end of its line. -/
theorem simulation_withinLine
    {rest : List Token} (atLineEnd : ∀ token ∈ rest.head?, token.kind = .newline) :
    Simulation (WithinLine rest) False False where
  takes := by
    rintro depth cursor _ next token ⟨atTop, rfl, flat, line, isAhead, inLine⟩ takes goesOn
    refine ⟨next, takes, atTop, rfl, flat.takes takes, ?_⟩
    cases line with
    | nil =>
        have isNewline : token.kind = .newline := by
          refine atLineEnd token ?_
          rw [← List.nil_append rest, ← isAhead, takes.ahead]
          rfl
        rw [isNewline] at goesOn
        cases goesOn
    | cons first others =>
        obtain ⟨rfl, isBehind⟩ := List.cons.inj (takes.ahead.symm.trans isAhead)
        exact ⟨others, isBehind, (List.forall_mem_cons.1 inLine).2⟩
  afterBody := by
    rintro depth cursor _ ⟨-, rfl, -⟩ -
    rfl
  stops := by
    rintro depth cursor _ ⟨-, rfl, -⟩ layout -
    rw [Token.stopsPhrase, layout]
    rfl
  noComma := by
    rintro depth cursor _ ⟨-, rfl, flat, -⟩ - atBody
    cases flat.inLine.symm.trans atBody
  block := by
    rintro depth cursor _ ⟨-, rfl, flat, -⟩ - atBody
    cases flat.inLine.symm.trans atBody
  colon := by
    rintro depth cursor _ next last ⟨-, rfl, -⟩ isColon isColonAgain
    rw [isColonAgain.unique isColon]
  parens := by
    rintro depth cursor _ rest ⟨-, rfl, -⟩ -
    rfl
  noBody := by
    rintro depth cursor _ ⟨-, rfl, -⟩ - - absent
    exact absent
  body := by
    rintro depth cursor _ start ⟨-, rfl, flat, -⟩ starts
    exact absurd starts flat.not_startsBody
  skipNewlines := fun related => absurd related.outside (Nat.succ_ne_zero _)
  endsStatements := fun related => absurd related.outside (Nat.succ_ne_zero _)
  endsStatement := fun related => absurd related.outside (Nat.succ_ne_zero _)
  skipDedent := fun related => absurd related.outside (Nat.succ_ne_zero _)

/-- The places stand in lines that go on alike, in front of lines that are told apart by their
margins only.  A colon has something behind it in its line. -/
structure AlignedWith (depth : Nat) (cursor other : Cursor) : Prop where
  outside : depth = 0
  same : compact false cursor.ahead = compact false other.ahead
  flat : cursor.Flat
  flatOther : other.Flat
  noColon : ∀ token, cursor.line.getLast? = some token → token.kind ≠ .mark .colon

namespace AlignedWith

variable {depth : Nat}

theorem takes
    (aligned : AlignedWith depth cursor other) (takes : cursor.Takes token next)
    (inLine : token.kind ≠ .newline) :
    ∃ last, other.Takes token last ∧ AlignedWith depth next last := by
  have same := aligned_of_compact aligned.same
  have isLine : cursor.line = token :: next.line := by
    rw [line, takes.ahead, List.takeWhile_cons_of_pos (by simp [inLine])]
    rfl
  have noColon : ∀ token, next.line.getLast? = some token → token.kind ≠ .mark .colon := by
    intro token isLast
    refine aligned.noColon token ?_
    rw [isLine, List.getLast?_cons, isLast]
    rfl
  rw [takes.ahead] at same
  generalize isOther : other.ahead = tokens at same
  cases same with
  | token _ sameBehind =>
      have takesOther := takes_past isOther
      exact ⟨_, takesOther, aligned.outside, sameBehind, aligned.flat.takes takes,
        aligned.flatOther.takes takesOther, noColon⟩
  | line isNewline => exact absurd isNewline inLine

/-- Where a line ends the other one ends. -/
theorem atLineEnd
    (aligned : AlignedWith depth cursor other) (layout : cursor.peek.kind.isLayout = true) :
    cursor.ahead = [] ∧ other.ahead = [] ∨
      ∃ line again next last, cursor.Takes line next ∧ other.Takes again last ∧
        line.kind = .newline ∧ again.kind = .newline ∧
        compact true next.ahead = compact true last.ahead := by
  have same := aligned_of_compact aligned.same
  generalize isAhead : cursor.ahead = tokens at same
  generalize isOther : other.ahead = more at same
  cases same with
  | nil => exact Or.inl ⟨rfl, rfl⟩
  | token inLine =>
      have takes := takes_past isAhead
      rw [takes.peek] at layout
      refine absurd (aligned.flat.layout _ ?_ layout) inLine
      rw [isAhead]
      exact List.mem_cons_self
  | line isLine isLineAgain sameBehind =>
      exact Or.inr ⟨_, _, _, _, takes_past isAhead, takes_past isOther, isLine, isLineAgain,
        sameBehind⟩

theorem goesOn_behind_colon
    (aligned : AlignedWith depth cursor other) (takes : cursor.Takes token next)
    (isColon : token.kind = .mark .colon) : next.peek.kind.isLayout = false := by
  cases layout : next.peek.kind.isLayout with
  | false => rfl
  | true =>
      have inLine : token.kind ≠ .newline := by simp [isColon]
      rcases aligned.takes takes inLine with ⟨last, -, alignedNext⟩
      have isEmpty : next.line = [] := by
        rcases alignedNext.atLineEnd layout with
          ⟨isEnd, -⟩ | ⟨line, _, behind, _, takesLine, -, isLine, -⟩
        · rw [line, isEnd]
          rfl
        · rw [Cursor.line, takesLine.ahead]
          exact List.takeWhile_cons_of_neg (by simp [isLine])
      have isLine : cursor.line = [token] := by
        rw [line, takes.ahead, List.takeWhile_cons_of_pos (by simp [inLine])]
        exact congrArg (token :: ·) isEmpty
      exact absurd isColon (aligned.noColon token (by rw [isLine]; rfl))

end AlignedWith

/-- No part of a statement tells two such lines apart. -/
theorem simulation_alignedWith : Simulation AlignedWith False False where
  takes := by
    intro depth cursor other next token aligned takes goesOn
    refine aligned.takes takes ?_
    intro isNewline
    rw [isNewline] at goesOn
    cases goesOn
  afterBody := fun aligned _ => aligned.flatOther.inLine.trans aligned.flat.inLine.symm
  stops := by
    rintro depth cursor other aligned layout -
    rw [Token.stopsPhrase]
    rcases aligned.atLineEnd layout with ⟨-, isEnd⟩ | ⟨_, again, _, _, -, takes, -, isLine, -⟩
    · rw [peek_of_end isEnd]
      rfl
    · rw [takes.peek, isLine]
      rfl
  noComma := by
    rintro depth cursor other aligned - atBody
    cases aligned.flat.inLine.symm.trans atBody
  block := by
    rintro depth cursor other aligned - atBody
    cases aligned.flat.inLine.symm.trans atBody
  colon := by
    rintro depth cursor other next last aligned ⟨colon, takes, isColon⟩ isColonOther
    have inLine : colon.kind ≠ .newline := by simp [isColon]
    rcases aligned.takes takes inLine with ⟨place, takesOther, alignedNext⟩
    obtain rfl := isColonOther.unique ⟨colon, takesOther, isColon⟩
    have goesOn := aligned.goesOn_behind_colon takes isColon
    rcases takes_peek goesOn with ⟨behind, takesNext⟩
    have inLineNext : next.peek.kind ≠ .newline := by
      intro isNewline
      rw [isNewline] at goesOn
      cases goesOn
    rcases alignedNext.takes takesNext inLineNext with ⟨_, takesLast, -⟩
    rw [takesLast.peek]
  parens := by
    rintro depth cursor other rest aligned -
    exact continuesBehindParens_of_compact aligned.same
  noBody := by
    rintro depth cursor other aligned - - -
    exact aligned.flatOther.bodyStart?
  body := by
    intro depth cursor other start aligned starts
    exact absurd starts aligned.flat.not_startsBody
  skipNewlines := fun aligned => absurd aligned.outside (Nat.succ_ne_zero _)
  endsStatements := fun aligned => absurd aligned.outside (Nat.succ_ne_zero _)
  endsStatement := fun aligned => absurd aligned.outside (Nat.succ_ne_zero _)
  skipDedent := fun aligned => absurd aligned.outside (Nat.succ_ne_zero _)

/-! ## Between lines -/

theorem compact_skipNewlines (cursor : Cursor) :
    compact true cursor.skipNewlines.ahead = compact true cursor.ahead := by
  refine related_skipNewlines (fun cursor next => compact true next.ahead = compact true cursor.ahead)
    (fun _ => rfl) ?_ cursor
  rintro cursor line last ⟨token, takes, isLine⟩ further
  rw [further, takes.ahead, compact_blank isLine]

/-- Behind blank lines, either both lists have ended or the same line starts. -/
theorem starts_of_compact
    (same : compact true cursor.ahead = compact true other.ahead)
    (inLine : cursor.peek.kind ≠ .newline) (inLineOther : other.peek.kind ≠ .newline) :
    cursor.ahead = [] ∧ other.ahead = [] ∨
      ∃ token again next last, cursor.Takes token next ∧ other.Takes again last ∧
        again.kind = token.kind ∧ again.lexeme = token.lexeme ∧
        compact false next.ahead = compact false last.ahead := by
  cases isAhead : cursor.ahead with
  | nil =>
      cases isOther : other.ahead with
      | nil => exact Or.inl ⟨rfl, rfl⟩
      | cons again more =>
          rw [(takes_past isOther).peek] at inLineOther
          rw [isAhead, isOther, compact_start inLineOther] at same
          cases same
  | cons token others =>
      rw [(takes_past isAhead).peek] at inLine
      cases isOther : other.ahead with
      | nil =>
          rw [isAhead, isOther, compact_start inLine] at same
          cases same
      | cons again more =>
          rw [(takes_past isOther).peek] at inLineOther
          rw [isAhead, isOther, compact_start inLine, compact_start inLineOther] at same
          obtain ⟨sameToken, sameBehind⟩ := List.cons.inj same
          exact Or.inr ⟨token, again, _, _, takes_past isAhead, takes_past isOther,
            (congrArg Token.kind sameToken).symm, (congrArg Token.lexeme sameToken).symm,
            sameBehind⟩

end Cursor

namespace Phrase

open Cursor Token

variable {cursor other next last : Cursor} {node : Node} {nodes : List Node} {first : Entry}

/-- A statement takes in its whole line, which does not end with a colon. -/
theorem Reads.noColon
    {middle : Cursor} (isFirst : Reads (.entry false) cursor first middle)
    (whole : Reads (.bareHash first) middle node next) (ends : next.EndsStatement last)
    (flat : cursor.Flat) :
    ∀ token, cursor.line.getLast? = some token → token.kind ≠ .mark .colon := by
  have simulation := simulation_withinLine cursor.newline_of_behindLine
  rcases isFirst.simulated simulation flat.withinLine trivial closed_of_nothing with ⟨_, -, withinMiddle⟩
  obtain rfl := withinMiddle.other_eq
  rcases whole.simulated simulation withinMiddle trivial closed_of_nothing with ⟨_, -, withinNext⟩
  rcases withinNext with ⟨-, rfl, flatNext, others, isAhead, inLineOthers⟩
  have atEnd : others = [] := by
    cases others with
    | nil => rfl
    | cons token others =>
        have inLineToken := inLineOthers token List.mem_cons_self
        rcases flatNext.endsStatement ends with ⟨line, takes, isNewline⟩ | ⟨isEnd, -⟩
        · obtain ⟨rfl, -⟩ := List.cons.inj (isAhead.symm.trans takes.ahead)
          exact absurd isNewline inLineToken
        · cases isAhead.symm.trans isEnd
  subst atEnd
  -- What was passed is the line, and a phrase does not end with a colon.
  have passes : cursor.Passes _ := isFirst.passes.append whole.passes
  rcases passes.last_ne_colon with ⟨passed, isPassed, noColon⟩
  rw [isAhead, List.nil_append] at isPassed
  rw [List.append_cancel_right (cursor.line_append_behindLine.trans isPassed)]
  exact noColon

/-- A statement is read where its line goes on alike, and the same lines are behind it. -/
theorem Reads.statement_aligned
    (reads : Reads .statement cursor node next)
    (same : compact false cursor.ahead = compact false other.ahead) (flat : cursor.Flat)
    (flatOther : other.Flat) :
    ∃ last, Reads .statement other node last ∧ next.Flat ∧ last.Flat ∧
      compact true next.ahead = compact true last.ahead := by
  cases reads with
  | statement isFirst whole ends =>
      have noColon := isFirst.noColon whole ends flat
      have aligned : AlignedWith 0 cursor other := ⟨rfl, same, flat, flatOther, noColon⟩
      have simulation := simulation_alignedWith
      rcases isFirst.simulated simulation aligned trivial closed_of_nothing with
        ⟨middle, readsFirst, alignedMiddle⟩
      rcases whole.simulated simulation alignedMiddle trivial closed_of_nothing with
        ⟨place, readsWhole, alignedPlace⟩
      rcases alignedPlace.flat.endsStatement ends with ⟨line, takes, isLine⟩ | ⟨isEnd, rfl⟩
      · rcases alignedPlace.atLineEnd (by rw [takes.peek, isLine]; rfl) with
          ⟨isEnd, -⟩ | ⟨_, again, _, last, takesAgain, takesOther, -, isLineOther, sameBehind⟩
        · cases takes.ahead.symm.trans isEnd
        · obtain ⟨rfl, rfl⟩ := takesAgain.unique takes
          have endsOther : place.EndsStatement last := Or.inl ⟨again, takesOther, isLineOther⟩
          exact ⟨last, .statement readsFirst readsWhole endsOther, alignedPlace.flat.takes takes,
            alignedPlace.flatOther.takes takesOther, sameBehind⟩
      · rcases alignedPlace.atLineEnd (by rw [peek_of_end isEnd]; rfl) with
          ⟨-, isEndOther⟩ | ⟨_, _, _, _, takes, -⟩
        · have endsOther := endsStatement_of_end isEndOther
          refine ⟨place, .statement readsFirst readsWhole endsOther, alignedPlace.flat,
            alignedPlace.flatOther, ?_⟩
          rw [isEnd, isEndOther]
        · cases takes.ahead.symm.trans isEnd

/-- A statement is read in the same line, however that is set off from the one before. -/
theorem Reads.statement_in_line
    {token again : Token} {behind place : Cursor} (reads : Reads .statement cursor node next)
    (takes : cursor.Takes token behind) (takesOther : other.Takes again place)
    (sameKind : again.kind = token.kind) (sameLexeme : again.lexeme = token.lexeme)
    (sameBehind : compact false behind.ahead = compact false place.ahead) (flat : cursor.Flat)
    (flatOther : other.Flat) :
    ∃ last, Reads .statement other node last ∧ next.Flat ∧ last.Flat ∧
      compact true next.ahead = compact true last.ahead := by
  -- First the blanks before the line are exchanged, then the tokens behind its first one.
  let respaced : Cursor := ⟨again :: behind.ahead, cursor.ending, false⟩
  have takesRespaced : respaced.Takes again behind := by
    refine ⟨rfl, takes.ending, ?_⟩
    rw [takes.afterBody, sameKind]
  have restarts : cursor.Restarts respaced :=
    ⟨token, again, behind, takes, takesRespaced, sameKind, sameLexeme⟩
  have readsRespaced := reads.statement_restarted restarts
  have inLine : again.kind.isLayout = false := by
    have starts := readsRespaced.statement_starts
    rw [takesRespaced.peek] at starts
    exact Kind.isLayout_of_startsPhrase starts
  have flatRespaced : respaced.Flat := by
    refine ⟨List.forall_mem_cons.2 ⟨?_, (flat.takes takes).layout⟩, rfl⟩
    intro layout
    cases inLine.symm.trans layout
  have sameRespaced : compact false respaced.ahead = compact false other.ahead := by
    have differs : again.kind ≠ .newline := by
      intro isNewline
      rw [isNewline] at inLine
      cases inLine
    rw [takesRespaced.ahead, takesOther.ahead, compact_token differs, compact_token differs,
      sameBehind]
  exact readsRespaced.statement_aligned sameRespaced flatRespaced flatOther

/-- Programs without bodies are the same if they differ only in blank lines and in the margins of
their lines. -/
theorem Reads.statements_compact
    {cursor other next : Cursor} {nodes : List Node}
    (reads : Reads (.statements false) cursor nodes next)
    (same : compact true cursor.ahead = compact true other.ahead) (flat : cursor.Flat)
    (flatOther : other.Flat) : ∃ last, Reads (.statements false) other nodes last := by
  have sameHere : compact true cursor.skipNewlines.ahead =
      compact true other.skipNewlines.ahead := by
    rw [compact_skipNewlines, compact_skipNewlines, same]
  have flatHere := flat.skipNewlines
  have flatOtherHere := flatOther.skipNewlines
  rcases starts_of_compact sameHere (peek_skipNewlines_ne cursor) (peek_skipNewlines_ne other) with
    ⟨isEnd, isEndOther⟩ |
      ⟨token, again, behind, place, takes, takesOther, sameKind, sameLexeme, sameBehind⟩
  · cases reads with
    | noStatements =>
        refine ⟨_, .noStatements ?_⟩
        simp [Cursor.endsStatements, atEnd, isEndOther]
    | moreStatements more => simp [Cursor.endsStatements, atEnd, isEnd] at more
  · cases reads with
    | noStatements ends => simp [Cursor.endsStatements, atEnd, takes.ahead] at ends
    | @moreStatements _ _ middle _ first others _ isFirst areOthers =>
        have shorter : middle.size < cursor.size :=
          Nat.lt_of_lt_of_le isFirst.statement_size_lt cursor.size_skipNewlines_le
        rcases isFirst.statement_in_line takes takesOther sameKind sameLexeme sameBehind flatHere
          flatOtherHere with ⟨last, readsFirst, flatMiddle, flatLast, sameFurther⟩
        rcases areOthers.statements_compact sameFurther flatMiddle flatLast with
          ⟨final, readsOthers⟩
        refine ⟨final, .moreStatements ?_ readsFirst readsOthers⟩
        simp [Cursor.endsStatements, atEnd, takesOther.ahead]
termination_by cursor.size

end Phrase

end ScriptFront
