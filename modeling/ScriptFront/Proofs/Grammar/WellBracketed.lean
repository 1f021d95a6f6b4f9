import ScriptFront.Proofs.Grammar.Passing

/-!
# The tokens of a program

Of a list of tokens that is a program, every bracket is closed by its partner, except that bodies
may be left open at the end.  An indent stands only behind a newline, and some marks stand nowhere.
-/

namespace ScriptFront

/-- The tokens before the end of input that carry meaning. -/
def Token.meaningful (tokens : List Token) : List Token :=
  (significant tokens).takeWhile (·.kind ≠ .endOfInput)

theorem Cursor.ahead_ofTokens (tokens : List Token) :
    (ofTokens tokens).ahead = Token.meaningful tokens := rfl

/-- The marks that no phrase has a use for. -/
def Mark.isUnused : Mark → Bool
  | .dot | .doubleColon | .doubleQuestion | .atSign => true
  | _ => false

namespace Kind

def isUnused : Kind → Bool
  | .mark sign => sign.isUnused
  | _ => false

theorem isUnused_of_standsAlone {kind : Kind} (alone : kind.standsAlone = true) :
    kind.isUnused = false := by
  cases kind with
  | mark sign => cases sign <;> first | rfl | cases alone
  | _ => rfl

theorem isUnused_of_opens?
    {kind : Kind} {bracket : Bracket} (opens : kind.opens? = some bracket) :
    kind.isUnused = false := by
  cases kind with
  | mark sign => cases sign <;> first | rfl | cases opens
  | _ => rfl

theorem isUnused_of_closes?
    {kind : Kind} {bracket : Bracket} (closes : kind.closes? = some bracket) :
    kind.isUnused = false := by
  cases kind with
  | mark sign => cases sign <;> first | rfl | cases closes
  | _ => rfl

theorem ne_indent_of_opens?
    {kind : Kind} {bracket : Bracket} (opens : kind.opens? = some bracket)
    (inLine : bracket ≠ .body) : kind ≠ .indent := by
  rintro rfl
  exact inLine (Option.some.inj opens).symm

theorem ne_indent_of_closes?
    {kind : Kind} {bracket : Bracket} (closes : kind.closes? = some bracket) : kind ≠ .indent := by
  rintro rfl
  cases closes

theorem ne_indent_of_standsAlone {kind : Kind} (alone : kind.standsAlone = true) :
    kind ≠ .indent := by
  rintro rfl
  cases alone

end Kind

/-- Every indent of a run of tokens stands directly behind a newline, and each of its marks is one
that phrases are made of. -/
structure Laid (kinds : List Kind) : Prop where
  behindNewline : ∀ front rest, kinds = front ++ .indent :: rest → front.getLast? = some .newline
  used : ∀ kind ∈ kinds, kind.isUnused = false

namespace Laid

variable {kinds others : List Kind} {kind : Kind}

theorem nil : Laid [] where
  behindNewline := by simp
  used := by simp

theorem single (noIndent : kind ≠ .indent) (used : kind.isUnused = false) : Laid [kind] where
  behindNewline := by
    intro front rest whole
    rcases List.append_eq_singleton_iff.1 whole.symm with ⟨rfl, same⟩ | ⟨-, absurdity⟩
    · exact absurd (List.cons.inj same).1.symm noIndent
    · cases absurdity
  used := by simpa using used

theorem append (first : Laid kinds) (second : Laid others) : Laid (kinds ++ others) where
  behindNewline := by
    intro front rest whole
    rcases List.append_eq_append_iff.1 whole with
      ⟨middle, isFront, isOthers⟩ | ⟨middle, isKinds, isRest⟩
    · have behind := second.behindNewline middle rest isOthers
      rw [isFront, List.getLast?_append, behind]
      rfl
    · cases middle with
      | nil => cases second.behindNewline [] rest isRest.symm
      | cons top below =>
          obtain ⟨rfl, -⟩ := List.cons.inj isRest
          exact first.behindNewline front below isKinds
  used := by
    intro kind member
    rcases List.mem_append.1 member with isFirst | isSecond
    · exact first.used kind isFirst
    · exact second.used kind isSecond

theorem cons (noIndent : kind ≠ .indent) (used : kind.isUnused = false) (laid : Laid kinds) :
    Laid (kind :: kinds) :=
  (single noIndent used).append laid

/-- An indent directly behind a newline. -/
theorem indent (laid : Laid kinds) : Laid (kinds ++ [.newline, .indent]) := by
  refine laid.append ⟨?_, by decide⟩
  intro front rest whole
  rcases List.append_eq_cons_iff.1 whole.symm with ⟨rfl, absurdity⟩ | ⟨below, rfl, isBelow⟩
  · cases absurdity
  · rcases List.append_eq_singleton_iff.1 isBelow.symm with ⟨rfl, -⟩ | ⟨-, absurdity⟩
    · rfl
    · cases absurdity

theorem of_newlines
    {lines : List Token} (areNewlines : ∀ token ∈ lines, token.kind = .newline) :
    Laid (lines.map Token.kind) := by
  induction lines with
  | nil => exact nil
  | cons token rest inductionHypothesis =>
      have isNewline := areNewlines token List.mem_cons_self
      have further := inductionHypothesis fun other member =>
        areNewlines other (List.mem_cons_of_mem token member)
      exact further.cons (by simp [isNewline]) (by simp [isNewline, Kind.isUnused])

/-- The indent of a body behind the newlines in front of it. -/
theorem of_bodyStart
    {newline indent : Token} {lines : List Token}
    (areNewlines : ∀ token ∈ newline :: lines, token.kind = .newline)
    (isIndent : indent.kind = .indent) :
    Laid ((newline :: lines ++ [indent]).map Token.kind) := by
  rcases List.eq_nil_or_concat (newline :: lines) with absurdity | ⟨front, last, isLines⟩
  · cases absurdity
  · rw [List.concat_eq_append] at isLines
    rw [isLines] at areNewlines ⊢
    have isNewline : last.kind = .newline := areNewlines last (by simp)
    have inFront := of_newlines fun token member =>
      areNewlines token (List.mem_append_left [last] member)
    simpa [isNewline, isIndent] using inFront.indent

end Laid

namespace Cursor

variable {cursor next : Cursor}

/-- The tokens that are passed over are laid out as those of phrases are. -/
theorem Passes.laid (passes : cursor.Passes next) :
    ∃ passed, cursor.ahead = passed ++ next.ahead ∧ Laid (passed.map Token.kind) := by
  induction passes with
  | here => exact ⟨[], rfl, .nil⟩
  | append _ _ isFirst isSecond =>
      rcases isFirst with ⟨left, isLeft, laidLeft⟩
      rcases isSecond with ⟨right, isRight, laidRight⟩
      refine ⟨left ++ right, by rw [isLeft, isRight, List.append_assoc], ?_⟩
      rw [List.map_append]
      exact laidLeft.append laidRight
  | @token _ _ token takes alone =>
      have noIndent := Kind.ne_indent_of_standsAlone alone
      exact ⟨[token], takes.ahead, .single noIndent (Kind.isUnused_of_standsAlone alone)⟩
  | colon isColon _ _ inner =>
      rcases isColon.ahead with ⟨colon, isAhead, isKind⟩
      rcases inner with ⟨passed, isPassed, laid⟩
      refine ⟨colon :: passed, by rw [isAhead, isPassed]; rfl, ?_⟩
      exact laid.cons (by simp [isKind]) (by simp [isKind, Kind.isUnused, Mark.isUnused])
  | bracket opens isOpener inLine _ closes isCloser inner =>
      rcases opens.ahead with ⟨opener, isAhead, rfl⟩
      rcases closes.ahead with ⟨closer, isBehind, rfl⟩
      rcases inner with ⟨passed, isPassed, laid⟩
      have noIndent := Kind.ne_indent_of_opens? isOpener inLine
      have atClose : Laid [closer.kind] :=
        .single (Kind.ne_indent_of_closes? isCloser) (Kind.isUnused_of_closes? isCloser)
      refine ⟨opener :: (passed ++ [closer]), ?_, ?_⟩
      · rw [isAhead, isPassed, isBehind]
        simp
      · rw [List.map_cons, List.map_append]
        exact (laid.append atClose).cons noIndent (Kind.isUnused_of_opens? isOpener)
  | body starts _ closes inner =>
      rcases starts.ahead with ⟨newline, lines, indent, isAhead, -, areNewlines, isIndent⟩
      rcases closes.ahead with ⟨dedent, isBehind, isDedent⟩
      rcases inner with ⟨passed, isPassed, laid⟩
      refine ⟨(newline :: lines ++ [indent]) ++ (passed ++ [dedent]), ?_, ?_⟩
      · rw [isAhead, isPassed, isBehind]
        simp
      · have closed : Laid ((passed ++ [dedent]).map Token.kind) := by
          rw [List.map_append]
          exact laid.append (.single (by simp [isDedent]) (by simp [isDedent, Kind.isUnused]))
        rw [List.map_append]
        exact (Laid.of_bodyStart areNewlines isIndent).append closed
  | openBody starts _ _ inner =>
      rcases starts.ahead with ⟨newline, lines, indent, isAhead, -, areNewlines, isIndent⟩
      rcases inner with ⟨passed, isPassed, laid⟩
      refine ⟨(newline :: lines ++ [indent]) ++ passed, ?_, ?_⟩
      · rw [isAhead, isPassed]
        simp
      · rw [List.map_append]
        exact (Laid.of_bodyStart areNewlines isIndent).append laid

/-- Where the statements of a program have been read. -/
theorem readProgram_of_reads
    {nodes : List Node} (reads : Phrase.Reads (.statements false) cursor nodes next) :
    cursor.readProgram = (.ok nodes, next) := by
  have read : (Phrase.statements false cursor).result = .ok (nodes, next) :=
    Phrase.run_of_reads reads
  unfold readProgram
  cases outcome : Phrase.statements false cursor with
  | stuck refusal stop =>
      rw [outcome] at read
      cases read
  | done list last shorter =>
      rw [outcome] at read
      cases read
      rfl

theorem ahead_eq_nil_of_program
    {nodes : List Node} (reads : Phrase.Reads (.statements false) cursor nodes next) :
    next.ahead = [] := by
  have ends := reads.endsStatements
  simpa [endsStatements, atEnd] using ends

end Cursor

open ScriptFront.Bracket in
theorem unclosed_dedents (bodies : Nat) :
    unclosed (List.replicate bodies .body) (List.replicate bodies .dedent) = some [] := by
  induction bodies with
  | zero => rfl
  | succ fewer inductionHypothesis => exact inductionHypothesis

open ScriptFront.Bracket in
/-- Bodies that are left open can be closed by dedents. -/
theorem nested_of_open_bodies
    {kinds : List Kind} {bodies : Nat}
    (leaves : unclosed [] kinds = some (List.replicate bodies .body)) :
    Nested (kinds ++ List.replicate bodies .dedent) := by
  rw [Nested, unclosed_append, leaves]
  exact unclosed_dedents bodies

open ScriptFront.Bracket in
/-- A list of tokens that is a program is passed over as a whole.  Its brackets are closed by their
partners, where dedents may be missing at the end; every indent stands directly behind a newline;
and no mark without a use is among the tokens. -/
theorem wellBracketed_of_parseTokens
    {tokens : List Token} {nodes : List Node} (parsed : parseTokens tokens = .ok nodes) :
    (Cursor.ofTokens tokens).readProgram.2.ahead = [] ∧
      (∃ missing, Nested
        ((Token.meaningful tokens).map Token.kind ++ List.replicate missing .dedent)) ∧
      (∀ front rest, (Token.meaningful tokens).map Token.kind = front ++ .indent :: rest →
        front.getLast? = some .newline) ∧
      ∀ token ∈ Token.meaningful tokens, token.kind ≠ .mark .dot ∧
        token.kind ≠ .mark .doubleColon ∧ token.kind ≠ .mark .doubleQuestion ∧
          token.kind ≠ .mark .atSign := by
  rcases parseTokens_eq_ok_iff.1 parsed with ⟨last, reads⟩
  have atEnd : last.ahead = [] := Cursor.ahead_eq_nil_of_program reads
  have passes : (Cursor.ofTokens tokens).Passes last := reads.passes
  refine ⟨?_, ?_, ?_⟩
  · rw [Cursor.readProgram_of_reads reads]
    exact atEnd
  · rcases passes.leaves_bodies with ⟨passed, bodies, isPassed, -, leaves, -⟩
    rw [Cursor.ahead_ofTokens, atEnd, List.append_nil] at isPassed
    rw [isPassed]
    exact ⟨bodies, nested_of_open_bodies leaves⟩
  · rcases passes.laid with ⟨passed, isPassed, laid⟩
    rw [Cursor.ahead_ofTokens, atEnd, List.append_nil] at isPassed
    rw [isPassed]
    refine ⟨laid.behindNewline, ?_⟩
    intro token member
    have used := laid.used token.kind (List.mem_map_of_mem member)
    refine ⟨?_, ?_, ?_, ?_⟩ <;>
      (intro isMark; rw [isMark] at used; cases used)

/-- A call with an empty hash in parentheses and a block, whose body has a string with an insertion
and is left open. -/
theorem wellBracketed_open_body :
    ∃ tokens : List Token,
      tokens.map Token.kind =
        [.identifier "f", .mark .leftParen, .mark .leftBrace, .mark .rightBrace, .mark .rightParen,
          .mark .blockArrow, .newline, .indent, .fragment "a", .interpolationStart, .integer 3,
          .interpolationEnd, .fragment "b", .endOfInput] ∧
      parseTokens tokens = .ok [.call "f" [.hash []] (some ⟨[],
        [.interpolated [.text "a", .interpolation (.integer 3), .text "b"]]⟩)] ∧
      (Cursor.ofTokens tokens).readProgram.2.ahead = [] ∧
      ∃ missing, Bracket.Nested
        ((Token.meaningful tokens).map Token.kind ++ List.replicate missing .dedent) := by
  let tokens : List Token :=
    [.identifier "f", .mark .leftParen, .mark .leftBrace, .mark .rightBrace, .mark .rightParen,
      .mark .blockArrow, .newline, .indent, .fragment "a", .interpolationStart, .integer 3,
      .interpolationEnd, .fragment "b", .endOfInput].map fun kind => ⟨kind, "", ⟨1, 1, none⟩, false⟩
  have parsed : parseTokens tokens = .ok [.call "f" [.hash []] (some ⟨[],
      [.interpolated [.text "a", .interpolation (.integer 3), .text "b"]]⟩)] := by
    with_unfolding_all rfl
  obtain ⟨atEnd, closed, -⟩ := wellBracketed_of_parseTokens parsed
  exact ⟨tokens, rfl, parsed, atEnd, closed⟩

end ScriptFront
